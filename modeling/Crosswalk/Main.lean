import Crosswalk.Generation

/-!
# Command line

`[FILE [ROOT]]` prints the module for a schema document, with the namespaces of schema files below
`ROOT`. Without a file a document of a gateway in front of a user service is taken.
-/

namespace Crosswalk
set_option autoImplicit false

/-- The document that is taken without a file. -/
def gatewayDocument : String := r#"<idl>
    <schema name="client" file="clients/users/users.thrift">
        <struct name="User">
            <field name="Id" type="i64" required="true"/>
            <field name="Login" type="string" required="true"/>
            <field name="Groups" type="list[string]" required="true"/>
        </struct>
    </schema>
    <schema name="endpoint" file="endpoints/users/users.thrift">
        <struct name="Owner">
            <field name="Id" type="i64" required="true"/>
            <field name="Name" type="string"/>
        </struct>
        <struct name="GetUserResponse">
            <field name="Owner" type="Owner"/>
            <field name="Groups" type="list[string]" required="true"/>
        </struct>
        <struct name="GetUserResult">
            <field name="User" type="client.User" required="true"/>
        </struct>
    </schema>
    <conversion name="GetUserResponseFromClient" from="endpoint.GetUserResult" to="endpoint.GetUserResponse">
        <mapping to="Owner" from="User" override="true"/>
        <mapping to="Owner.Name" from="User.Login"/>
        <mapping to="Groups" from="User.Groups"/>
    </conversion>
</idl>"#

/-- The content of a file that can be read. -/
def contentOf? (path : String) : IO (Option ByteArray) :=
  try some <$> IO.FS.readBinFile path catch _ => pure none

/-- What a run is called in its error message, and its result. -/
def runOn (args : List String) : IO (String × Except GenerateError String) := do
  let namespaces := Namespaces.modulePath ((args[1]?).getD "crate::idl")
  match args.head? with
  | some path => return (path, generateFromContent (← contentOf? path) namespaces)
  | none => return ("the built-in schema", generateFromText gatewayDocument namespaces)

end Crosswalk

/-- Prints the module for a file, or the error. -/
def main (args : List String) : IO UInt32 := do
  match ← Crosswalk.runOn args with
  | (_, .ok code) =>
    IO.println code
    return 0
  | (what, .error e) =>
    IO.eprintln ("Error: failed to generate conversions from " ++ what ++ "\n\nCaused by:\n    " ++
      e.message)
    return 1
