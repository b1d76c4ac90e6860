import Mathlib.Logic.Relation
import Relational.Proofs.Execution.Width
import Relational.Proofs.Metadata.TableOccurrences

/-!
# Copied columns over executed plans

Where none of the origins of a column is computed from, every value that a node emits in the column
stands in the column of one of them, in a row of the scanned table. Two kinds of values are not so
copied, and the origins do not tell: the nulls of an aggregate in the rows of a grouping set without
the column, and what a union takes from an input in which the column has no origins.
-/
namespace Relational

namespace Plan
open Grouping
variable {p m : Plan} {c d : Nat} {v : Value}

/-- The column of the node is that of the input, as far as a row is made from one of the input. -/
inductive Passes : Plan × Nat → Plan × Nat → Prop
  | filter {id : Nat} {input : Plan} {predicate : Expr} {c : Nat} :
    Passes (.filter id input predicate, c) (input, c)
  | project {id : Nat} {input : Plan} {columns : List Projection} {projected : Projection}
      {c i : Nat} (hc : columns[c]? = some projected) (hcolumn : projected.expr.column? = some i) :
    Passes (.project id input columns, c) (input, i)
  | group {id : Nat} {input : Plan} {sets : List ColumnSet} {calls : List AggregateCall}
      {indicator : Bool} {c g : Nat} (hc : (groupColumns sets).columns[c]? = some g) :
    Passes (.aggregate id input sets calls indicator, c) (input, g)
  | union {id : Nat} {inputs : List Plan} {all : Bool} {input : Plan} {c : Nat}
      (hinput : input ∈ inputs) : Passes (.setOp id .union inputs all, c) (input, c)
  | sort {id : Nat} {input : Plan} {collation : Collation} {offset fetch : Option Nat} {c : Nat} :
    Passes (.sort id input collation offset fetch, c) (input, c)
  | exchange {id : Nat} {input : Plan} {distribution : Distribution} {c : Nat} :
    Passes (.exchange id input distribution, c) (input, c)

def Carries (p : Plan) (c : Nat) (m : Plan) (d : Nat) : Prop :=
  Relation.ReflTransGen Passes (p, c) (m, d)

/-- The aggregate has a grouping set without the column, whose rows are null there. -/
def Pads (p : Plan) (c : Nat) : Prop :=
  ∃ id input sets calls indicator g, p = .aggregate id input sets calls indicator ∧
    (groupColumns sets).columns[c]? = some g ∧ ∃ set ∈ sets, g ∉ set

theorem Passes.mem_children {x y : Plan × Nat} (h : Passes x y) : y.1 ∈ x.1.children := by
  cases h with
  | union hinput => exact hinput
  | _ => exact List.mem_singleton_self _

theorem Carries.mem_nodes (h : p.Carries c m d) : m ∈ p.nodes := by
  suffices ∀ x : Plan × Nat, Relation.ReflTransGen Passes (p, c) x → x.1 ∈ p.nodes from
    this (m, d) h
  intro x hx
  induction hx with
  | refl => exact self_mem_nodes p
  | tail _ hstep ih => exact mem_nodes_trans ih (mem_nodes_of_mem_children hstep.mem_children)

theorem keyColumns_getElem? {sets : List ColumnSet} {set : ColumnSet} {source rest : Row}
    {key : List Value} {g : Nat} (hc : (groupColumns sets).columns[c]? = some g)
    (hkey : List.Forall₂ (fun c v => source[c]? = some v) set.columns key)
    (hv : (keyColumns (groupColumns sets) set key ++ rest)[c]? = some v) :
    g ∈ set ∧ source[g]? = some v ∨ g ∉ set ∧ v = .null := by
  have hlt : c < (keyColumns (groupColumns sets) set key).length := by
    rw [keyColumns, List.length_map]
    exact (List.getElem?_eq_some_iff.1 hc).1
  rw [List.getElem?_append_left hlt, keyColumns, List.getElem?_map, hc] at hv
  obtain rfl := Option.some.inj hv
  by_cases hg : g ∈ set
  · obtain ⟨i, hi, rfl⟩ := List.getElem_of_mem hg
    obtain ⟨v, hvalue, hsource⟩ := forall₂_exists_getElem? hkey (List.getElem?_eq_getElem hi)
    refine .inl ⟨hg, ?_⟩
    simp only [ColumnSet.position?_getElem hi, Option.bind_some, hvalue]
    exact hsource
  · have hnone : set.position? g = none := by
      refine List.findIdx?_eq_none_iff.2 fun x hx => beq_eq_false_iff_ne.2 ?_
      rintro rfl
      exact hg hx
    refine .inr ⟨hg, ?_⟩
    simp only [hnone]
    rfl

end Plan

namespace Metadata

namespace Basis
open Plan Grouping
variable {Q : Type} {b : Basis Q} {contents : Contents} {p child : Plan} {c i : Nat} {row : Row}
  {v : Value} {origins found : List ColumnOrigin}

/-- Where a value in a column without computed origins comes from. -/
inductive Stems (b : Basis Q) (contents : Contents) (p : Plan) (c : Nat)
    (origins : List ColumnOrigin) (v : Value) : Prop
  | copied {id : Nat} {table : TableRef} {shape : Schema} {notes : Notes} {x : ColumnOrigin}
      {source : Row} (hx : x ∈ origins) (hscan : .scan id table shape notes ∈ p.nodes)
      (hoccurrence : b.setting.occurrence? id = some x.table) (hsource : source ∈ contents table)
      (hv : source[x.column]? = some v)
  | padded {m : Plan} {d : Nat} (hcarries : p.Carries c m d) (hpads : m.Pads d) (hv : v = .null)
  | made {m : Plan} {d : Nat} {source : Row} (hcarries : p.Carries c m d)
      (hnone : b.Answers m ⟨.columnOrigin, .column d⟩ (.ok (some (.origins []))))
      (hsource : m.Emitted contents source) (hv : source[d]? = some v)

theorem Stems.above (hstep : Passes (p, c) (child, i)) (hfound : ∀ x ∈ found, x ∈ origins)
    (h : b.Stems contents child i found v) : b.Stems contents p c origins v := by
  cases h with
  | copied hx hscan hoccurrence hsource hv =>
    exact .copied (hfound _ hx)
      (mem_nodes_trans (mem_nodes_of_mem_children hstep.mem_children) hscan)
      hoccurrence hsource hv
  | padded hcarries hpads hv => exact .padded (.head hstep hcarries) hpads hv
  | made hcarries hnone hsource hv => exact .made (.head hstep hcarries) hnone hsource hv

theorem stems_made (hanswers : b.Answers p ⟨.columnOrigin, .column c⟩
      (.ok (some (.origins origins)))) (hcopied : ∀ x ∈ origins, x.derived = false)
    (hderived : ∀ x ∈ origins, x.derived = true) (hrow : p.Emitted contents row)
    (hv : row[c]? = some v) : b.Stems contents p c origins v := by
  have hnone : origins = [] := by
    refine List.eq_nil_iff_forall_not_mem.2 fun x hx => ?_
    cases (hcopied x hx).symm.trans (hderived x hx)
  exact .made .refl (hnone ▸ hanswers) hrow hv

/-- By induction over where the row comes from: every operator passes the column on from a row of an
input, or makes a value for it. -/
theorem stems_of_emitted [Quantity Q] (hrules : b.rules = .builtin) (hrow : p.Emitted contents row)
    (hanswers : b.Answers p ⟨.columnOrigin, .column c⟩ (.ok (some (.origins origins))))
    (hcopied : ∀ x ∈ origins, x.derived = false) (hv : row[c]? = some v) :
    b.Stems contents p c origins v := by
  induction hrow generalizing c origins with
  | scan hrow hwidth =>
    cases originsFrom_of_answers hrules hanswers with
    | scan ho hc =>
      exact .copied (List.mem_singleton_self _) (self_mem_nodes _) ho hrow hv
  | values hrow =>
    cases originsFrom_of_answers hrules hanswers with
    | values => exact stems_made hanswers hcopied (List.forall_mem_nil _) (.values hrow) hv
  | filter _ _ ih =>
    cases originsFrom_of_answers hrules hanswers with
    | filter h => exact (ih h hcopied hv).above .filter fun _ hx => hx
  | project hinput hcolumns ih =>
    cases originsFrom_of_answers hrules hanswers with
    | copied hc hcolumn h =>
      obtain ⟨w, hw, heval⟩ := forall₂_exists_getElem? hcolumns hc
      obtain rfl := Option.some.inj (hw.symm.trans hv)
      obtain ⟨code, hcode, hrun⟩ := Expr.evaluate_eq_ok.1 heval
      have hsource := Expr.eval_column hcolumn hcode hrun
      exact (ih h hcopied hsource).above (.project hc hcolumn) fun _ hx => hx
    | computed hc hcomputed =>
      exact stems_made hanswers hcopied hcomputed.derived (.project hinput hcolumns) hv
  | aggregate hinput hset hkey ih =>
    cases originsFrom_of_answers hrules hanswers with
    | group hc h =>
      rcases keyColumns_getElem? hc (eq_of_keyOf hkey) hv with ⟨-, hsource⟩ | ⟨hg, rfl⟩
      · exact (ih h hcopied hsource).above (.group hc) fun _ hx => hx
      · exact .padded .refl ⟨_, _, _, _, _, _, rfl, hc, _, hset, hg⟩ rfl
    | result hc hcomputed =>
      exact stems_made hanswers hcopied hcomputed.derived (.aggregate hinput hset hkey) hv
  | @emptyGroup id input sets calls indicator set rest hset hempty =>
    cases originsFrom_of_answers hrules hanswers with
    | @group _ g _ _ _ _ _ _ hc h =>
      have hkey : List.Forall₂ (fun c v => ([] : Row)[c]? = some v) set.columns [] := by
        rw [ColumnSet.isEmpty_iff.1 hempty]
        exact .nil
      obtain ⟨-, hsource⟩ | ⟨hg, rfl⟩ := keyColumns_getElem? hc hkey hv
      · cases hsource
      · exact .padded .refl ⟨_, _, _, _, _, _, rfl, hc, _, hset, hg⟩ rfl
    | result hc hcomputed =>
      exact stems_made hanswers hcopied hcomputed.derived (.emptyGroup hset hempty) hv
  | union hchild _ ih =>
    cases originsFrom_of_answers hrules hanswers with
    | @setOp _ _ _ _ _ lists hlists =>
      obtain ⟨list, hlist, h⟩ := forall₂_exists_mem hlists.flip hchild
      have hmerged : ∀ x ∈ list, x ∈ lists.foldl mergeOrigins [] := fun x hx =>
        mem_mergeAll.2 (.inr ⟨list, hlist, hx⟩)
      exact (ih h (fun x hx => hcopied x (hmerged x hx)) hv).above (.union hchild) hmerged
  | sort _ ih =>
    cases originsFrom_of_answers hrules hanswers with
    | sort h => exact (ih h hcopied hv).above .sort fun _ hx => hx
  | exchange _ ih =>
    cases originsFrom_of_answers hrules hanswers with
    | exchange h => exact (ih h hcopied hv).above .exchange fun _ hx => hx

end Basis

namespace Query
open Metadata.Basis
variable {Q : Type} [Quantity Q] {root node : Plan} {fresh q : Query Q}
  {registry : UserAggregate.Registry} {contents : Contents} {emission : Emission} {c : Nat}
  {origins : List ColumnOrigin}

/-- Whatever was asked before, in a column none of whose origins is computed from, every value that
a node emits stands in the column of one of them, or is a null of a grouping set without the column,
or comes from a column that has no origins. -/
theorem columnOrigins_copied {α : Type} {source : TableSource Q} {scanRows : Q} {splits : Nat}
    {caching : Bool} {earlier : List (Plan × Inquiry Q α)} {outcomes : List (Except Error α)}
    {q' : Query Q} (hfresh : ofPlan root .builtin source scanRows splits caching = .ok fresh)
    (hearlier : ∀ r ∈ earlier, r.1 ∈ root.nodes)
    (hserve : fresh.serve earlier = some (outcomes, q)) (hnode : node ∈ root.nodes)
    (hvalid : node.Valid) (hstart : node.start registry contents = .ok emission)
    (hc : c < node.width)
    (horigins : q.inquire node (columnOrigins .self c) = some (.ok (some origins), q'))
    (hcopied : ∀ x ∈ origins, x.derived = false) :
    ∀ row ∈ emission.rows, ∃ v, row[c]? = some v ∧
      ((∃ x ∈ origins, ∃ id table shape notes, .scan id table shape notes ∈ node.nodes ∧
          root.occurrences.lookup id = some x.table ∧
          ∃ read ∈ contents table, read[x.column]? = some v) ∨
        ∃ m d, node.Carries c m d ∧
          (m.Pads d ∧ v = .null ∨
            (∃ q'', q.inquire m (columnOrigins .self d) = some (.ok (some []), q'')) ∧
              ∃ made, m.Emitted contents made ∧ made[d]? = some v)) := by
  obtain ⟨hbasis, ids, hmemo⟩ := serve_fresh hfresh hearlier hserve
  have hrules : q.rules = .builtin := by rw [hbasis]
  have hoccurrences : q.setting.occurrence? = (root.occurrences.lookup ·) := by rw [hbasis]
  have hmem : node ∈ q.root.nodes := by rw [hbasis]; exact hnode
  obtain ⟨-, -, hgives⟩ := inquire_sound ids hmemo hmem horigins
  intro row hrow
  have hlength : c < row.length := by rwa [Plan.length_of_start hvalid hstart hrow]
  refine ⟨row[c], List.getElem?_eq_getElem hlength, ?_⟩
  have hstems := stems_of_emitted hrules (Plan.emitted_of_start hstart hrow)
    (answers_column rfl hgives) hcopied (List.getElem?_eq_getElem hlength)
  cases hstems with
  | copied hx hscan hoccurrence hsource hv =>
    rw [hoccurrences] at hoccurrence
    exact .inl ⟨_, hx, _, _, _, _, hscan, hoccurrence, _, hsource, hv⟩
  | padded hcarries hpads hv => exact .inr ⟨_, _, hcarries, .inl ⟨hpads, hv⟩⟩
  | made hcarries hnone hsource hv =>
    have hinside := Plan.mem_nodes_trans hmem hcarries.mem_nodes
    have hasked := inquire_of_gives ids hmemo hinside
      (gives_columnOrigins.2 (exists_self.2 hnone))
    exact .inr ⟨_, _, hcarries, .inr ⟨hasked, _, hsource, hv⟩⟩

theorem columnOrigins_copied_subtotals :
    let table : TableRef := ⟨7, "main", "orders"⟩
    let shape : Schema := [⟨"id", .int64 false, {}⟩, ⟨"customer", .int64 false, {}⟩]
    let source : TableSource Binary64 :=
      ⟨fun _ => .error (.planning (.unknownTableId 7)), fun _ => .ok none⟩
    let contents : Contents := fun _ => [[.int64 1, .int64 5], [.int64 2, .int64 5]]
    let p : Plan := .filter 2
      (.aggregate 1 (.scan 0 table shape) [.ofList [1], .ofList [0, 1]] [] false)
      (.literal (.boolean true) (.boolean false))
    let rows : List Row :=
      [[.null, .int64 5], [.int64 1, .int64 5], [.int64 2, .int64 5]]
    let origins : List ColumnOrigin := [⟨⟨"main.orders", 0⟩, 1, false⟩]
    ∃ fresh q', ofPlan p .builtin source Quantity.one 1 true = .ok fresh ∧ p.Valid ∧
      p.start {} contents = .ok ⟨rows, none⟩ ∧
      fresh.inquire p (columnOrigins .self 1) = some (.ok (some origins), q') ∧
      ∀ row ∈ rows, ∃ v, row[1]? = some v ∧
        ((∃ x ∈ origins, ∃ id table shape notes, .scan id table shape notes ∈ p.nodes ∧
            p.occurrences.lookup id = some x.table ∧
            ∃ read ∈ contents table, read[x.column]? = some v) ∨
          ∃ m d, p.Carries 1 m d ∧
            (m.Pads d ∧ v = .null ∨
              (∃ q'', fresh.inquire m (columnOrigins .self d) = some (.ok (some []), q'')) ∧
                ∃ made, m.Emitted contents made ∧ made[d]? = some v)) := by
  intro table shape source contents p rows origins
  obtain ⟨fresh, hfresh⟩ : ∃ fresh : Query Binary64,
      ofPlan p .builtin source Quantity.one 1 true = .ok fresh := ⟨_, rfl⟩
  have hnode : p ∈ p.nodes := Plan.self_mem_nodes p
  have hserve : fresh.serve ([] : List (Plan × Inquiry Binary64 Unit)) = some ([], fresh) := rfl
  have hvalid : p.Valid := by decide +kernel
  have hstart : p.start {} contents = .ok ⟨rows, none⟩ := rfl
  have hgives : fresh.Gives p (columnOrigins .self 1) (.ok (some origins)) := by
    obtain ⟨-, rfl⟩ := ofPlan_eq_ok hfresh
    refine gives_columnOrigins.2 ⟨p, rfl, answers_some.2 ⟨_, rfl, ?_⟩⟩
    refine gives_report.2 ⟨origins, ?_, rfl⟩
    refine gives_columnOrigins.2 ⟨_, rfl, answers_some.2 ⟨_, rfl, ?_⟩⟩
    refine gives_report.2 ⟨origins, ?_, rfl⟩
    exact gives_columnOrigins.2 ⟨_, rfl, answers_some.2 ⟨_, rfl, gives_known.2 rfl⟩⟩
  obtain ⟨q', hinquire⟩ := inquire_fresh hfresh hnode hgives
  exact ⟨fresh, q', hfresh, hvalid, hstart, hinquire, columnOrigins_copied hfresh (by simp) hserve
    hnode hvalid hstart (by decide +kernel) hinquire (by decide)⟩

/-- A null of the empty grouping set, where the only origin is a column without nulls. -/
theorem columnOrigins_padded :
    let table : TableRef := ⟨7, "main", "orders"⟩
    let shape : Schema := [⟨"id", .int64 false, {}⟩]
    let source : TableSource Binary64 :=
      ⟨fun _ => .error (.planning (.unknownTableId 7)), fun _ => .ok none⟩
    let contents : Contents := fun _ => [[.int64 5]]
    let p : Plan := .aggregate 1 (.scan 0 table shape) [.ofList [0], .empty] [] false
    let origin : ColumnOrigin := ⟨⟨"main.orders", 0⟩, 0, false⟩
    ∃ fresh q', ofPlan p .builtin source Quantity.one 1 true = .ok fresh ∧ p.Valid ∧
      p.start {} contents = .ok ⟨[[.int64 5], [.null]], none⟩ ∧
      fresh.inquire p (columnOrigins .self 0) = some (.ok (some [origin]), q') ∧
      p.occurrences.lookup 0 = some origin.table ∧
      ¬ ∀ row ∈ ([[.int64 5], [.null]] : List Row), ∃ v, row[0]? = some v ∧
        ∃ read ∈ contents table, read[origin.column]? = some v := by
  intro table shape source contents p origin
  obtain ⟨fresh, hfresh⟩ : ∃ fresh : Query Binary64,
      ofPlan p .builtin source Quantity.one 1 true = .ok fresh := ⟨_, rfl⟩
  have hgives : fresh.Gives p (columnOrigins .self 0) (.ok (some [origin])) := by
    obtain ⟨-, rfl⟩ := ofPlan_eq_ok hfresh
    refine gives_columnOrigins.2 ⟨p, rfl, answers_some.2 ⟨_, rfl, ?_⟩⟩
    refine gives_report.2 ⟨[origin], ?_, rfl⟩
    exact gives_columnOrigins.2 ⟨_, rfl, answers_some.2 ⟨_, rfl, gives_known.2 rfl⟩⟩
  obtain ⟨q', hinquire⟩ := inquire_fresh hfresh (Plan.self_mem_nodes p) hgives
  exact ⟨fresh, q', hfresh, by decide +kernel, rfl, hinquire, rfl, by simp [contents, origin]⟩

end Query
end Metadata
end Relational
