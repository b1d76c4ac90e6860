import Relational.Metadata.Rule

/-!
# Order and placement of rows
-/
namespace Relational.Metadata

open Inquiry
variable {Q : Type}

namespace Orders

def unordered : Rule Q := constantly (.collations [])

def ofScan : Rule Q := fun setting p _ =>
  match setting.descriptor? p with
  | some d => known (.collations (if d.collation.isEmpty then [] else [d.collation]))
  | none => known (.collations [])

def ofSort : Rule Q := fun _ p _ =>
  match p with
  | .sort _ _ collation _ _ => known (.collations [collation])
  | _ => unknown

def passedOn : Rule Q := fun _ p _ => fromInput .collations p collations

def ofProject : Rule Q := fun _ p _ =>
  match p with
  | .project _ _ columns => do
    let orders := (← collations (.input 0)).getD []
    let kept := orders.map (·.remap (copyOf? columns))
    known (.collations (kept.filter (!·.isEmpty)))
  | _ => unknown

end Orders

namespace Placement

def ofOnePart : Rule Q := constantly (.distribution ⟨.singleton, [], none⟩)

def ofValues : Rule Q := constantly (.distribution ⟨.broadcast, [], none⟩)

def ofScan : Rule Q := fun setting p _ =>
  let declared := (setting.descriptor? p).bind (·.distribution)
  known (.distribution (declared.getD ⟨.singleton, [], none⟩))

def ofExchange : Rule Q := fun _ p _ =>
  match p with
  | .exchange _ _ d => known (.distribution d)
  | _ => unknown

def passedOn : Rule Q := fun _ p _ => fromInput .distribution p distribution

def ofProject : Rule Q := fun _ p _ =>
  match p with
  | .project _ _ columns =>
    report (fun d =>
      match d.keys.mapM (copyOf? columns) with
      | some keys => .distribution { d with keys }
      | none => .distribution ⟨.any, [], d.partitions⟩)
      (distribution (.input 0))
  | _ => unknown

def splits : Rule Q := fun setting _ _ =>
  report (fun d =>
    match d.spread with
    | .singleton | .broadcast | .any => .count 1
    | .hash | .range | .random | .roundRobin => .count (d.partitions.getD setting.splits))
    (distribution .self)

end Placement

namespace NodeTypes

def counted : Rule Q := fun _ p _ =>
  report (fun counts => .nodeTypes (counts.foldl addCounts [(p.kind, 1)]))
    (forInputs nodeTypes p.children.length)

end NodeTypes
end Relational.Metadata
