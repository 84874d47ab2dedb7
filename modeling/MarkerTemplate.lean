import MarkerTemplate.Main
import MarkerTemplate.Store.Cache
import MarkerTemplate.Proofs.Conditional.Openers
import MarkerTemplate.Proofs.Conditional.RoundTrip
import MarkerTemplate.Proofs.Conditional.Filtering
import MarkerTemplate.Proofs.Conditional.Shorthand
import MarkerTemplate.Proofs.OrderedMap.Layers
import MarkerTemplate.Proofs.Substitution.Calls
import MarkerTemplate.Proofs.Substitution.Simultaneous
import MarkerTemplate.Proofs.Merge.Elements
import MarkerTemplate.Proofs.Template.Repeated
import MarkerTemplate.Proofs.Merge.Bindings
import MarkerTemplate.Proofs.Merge.ArrayBlock
import MarkerTemplate.Proofs.Merge.NoArray
import MarkerTemplate.Proofs.Merge.Untouched
import MarkerTemplate.Proofs.Store.Paths
import MarkerTemplate.Proofs.Store.Runs
import MarkerTemplate.Proofs.Json.Scalars
import MarkerTemplate.Proofs.Json.RoundTrip
import MarkerTemplate.Proofs.Json.Leaves
import MarkerTemplate.Proofs.Command.Assignment
import MarkerTemplate.Proofs.Command.Run
