import Relational.Metadata.Total
import Relational.Plan.Explain

/-!
# Annotated plans

The text of a plan with the estimated rows, cost and memory of every node.
-/
namespace Relational.Metadata

def estimates : Inquiry Binary64 (Option String) := do
  let rows := (← tupleCount .self).map fun x => s!"rows={x.text}"
  let cost := (← cumulativeCost .self).map fun c => s!"cost={c.text}"
  let memory := ((← memory .self).filter (Binary.Word.lt 0)).map fun x => s!"memory={x.text}"
  match rows.toList ++ cost.toList ++ memory.toList with
  | [] => return none
  | parts => return some (" ".intercalate parts)

namespace Query

def annotated (q : Query Binary64) (ranked : q.rules.Ranked) : Except Error String := do
  let requests := q.root.nodes.map fun node => (node, estimates)
  let (outcomes, _) := (q.serve requests).get (q.serve_isSome ranked requests)
  let notes ← outcomes.mapM id
  let noted := (q.root.nodes.map Plan.id).zip notes
  return q.root.explainWith fun node => (noted.lookup node.id).join

end Query
end Relational.Metadata
