import Relational.Main
import Relational.Metrics
import Relational.Proofs.Aggregation.FloatExtremes
import Relational.Proofs.Aggregation.Merging
import Relational.Proofs.Aggregation.Result
import Relational.Proofs.Catalog.ColumnIds
import Relational.Proofs.Catalog.Names
import Relational.Proofs.Catalog.References
import Relational.Proofs.Catalog.StoredRows
import Relational.Proofs.Execution.Batches
import Relational.Proofs.Execution.Delivery
import Relational.Proofs.Execution.StableSorting
import Relational.Proofs.Expr.Membership
import Relational.Proofs.Expr.Projecting
import Relational.Proofs.Grouping.Rearranging
import Relational.Proofs.Grouping.Refinement
import Relational.Proofs.Metadata.BeyondWidth
import Relational.Proofs.Metadata.CopiedColumns
import Relational.Proofs.Metadata.Duplicates
import Relational.Proofs.Metadata.JoinBound
import Relational.Proofs.Metadata.KeysUnique
import Relational.Proofs.Metadata.Orders
import Relational.Proofs.Metadata.RowCount
import Relational.Proofs.Metadata.RowEstimate
import Relational.Proofs.Metadata.SetOperations
import Relational.Proofs.Metadata.TableOccurrences
import Relational.Proofs.Metadata.Uniqueness
import Relational.Proofs.Nullability.Pipeline
import Relational.Proofs.Plan.Building
import Relational.Proofs.Plan.Form
import Relational.Proofs.Plan.Pruning
import Relational.Proofs.Plan.Rebuilding
import Relational.Proofs.Plan.RoundTrip
import Relational.Proofs.Plan.Separation
import Relational.Proofs.Typing.Faults
import Relational.Proofs.Value.CanonicalText
