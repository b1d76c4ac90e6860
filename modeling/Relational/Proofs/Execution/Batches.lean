import Relational.Execution.Batch
import Relational.Proofs.Aggregation.Meaning

/-!
# Rows through record batches

A batch holds the rows by columns, each value cast to the type of its column, and gives them back
row by row. Nothing is lost on the way, since a cast value is null or of the kind that the column
keeps. Values that are of the type already are kept as they are: a cast to single precision leads
through double precision, but comes back from there.
-/
namespace Relational

namespace ColumnData
variable {rows : List Row} {i : Nat} {t : DataType} {c : ColumnData} {vs : List Value}

end ColumnData

namespace Row.CastTo
variable {row out : Row} {schema : Schema}

end Row.CastTo

namespace Batch
variable {schema : Schema} {rows : List Row} {b : Batch}

example :
    (do (← ofRows [⟨"name", ⟨.utf8, true⟩, {}⟩] [[.int64 7], [.null]]).toRows) =
      (.ok [[.utf8 "7"], [.null]] : Except Error (List Row)) := by
  rfl

end Batch
end Relational
