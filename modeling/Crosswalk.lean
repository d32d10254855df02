import Crosswalk.Main
import Crosswalk.Proofs.Absence
import Crosswalk.Proofs.Range
import Crosswalk.Proofs.Visibility
import Crosswalk.Proofs.Capture
import Crosswalk.Proofs.Clash
import Crosswalk.Proofs.Scope
import Crosswalk.Proofs.Sequence
import Crosswalk.Proofs.Culprit
import Crosswalk.Proofs.Storage
import Crosswalk.Proofs.Support
import Crosswalk.Proofs.Typing
import Crosswalk.Proofs.Validation
import Crosswalk.Proofs.Reference
import Crosswalk.Proofs.Index
import Crosswalk.Proofs.Unfolding
import Crosswalk.Proofs.Search
import Crosswalk.Proofs.Catalog
import Crosswalk.Proofs.Demand
import Crosswalk.Proofs.Mixture
import Crosswalk.Proofs.Copy
import Crosswalk.Proofs.Identity
import Crosswalk.Proofs.PathText
import Crosswalk.Proofs.PathGrammar
import Crosswalk.Proofs.Target
import Crosswalk.Proofs.Settled
import Crosswalk.Proofs.Coverage
import Crosswalk.Proofs.Qualified
import Crosswalk.Proofs.SourceField
import Crosswalk.Proofs.Renaming
import Crosswalk.Proofs.Optionality
import Crosswalk.Proofs.Precedence
import Crosswalk.Proofs.Skipping
import Crosswalk.Proofs.ModulePath
import Crosswalk.Proofs.Usable
import Crosswalk.Proofs.Wording
import Crosswalk.Proofs.Document.TypeText
import Crosswalk.Proofs.Document.TypeGrammar
import Crosswalk.Proofs.Markup.Balance
import Crosswalk.Proofs.Markup.Listing
import Crosswalk.Proofs.Markup.Writing
import Crosswalk.Proofs.Document.Reading
import Crosswalk.Proofs.Document.Layout
import Crosswalk.Proofs.Document.RoundTrip
import Crosswalk.Proofs.Document.Root
import Crosswalk.Proofs.Document.Fidelity
import Crosswalk.Proofs.Document.Decoding
import Crosswalk.Proofs.Selection.Aggregate
import Crosswalk.Proofs.Offence
import Crosswalk.Proofs.SnakeCase
import Crosswalk.Proofs.ModuleSegment
import Crosswalk.Proofs.Markup.Locality
import Crosswalk.Proofs.Markup.Content
import Crosswalk.Proofs.Document.Ignored
