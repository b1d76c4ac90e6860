import Relational.Metadata.Pushing
import Relational.Metadata.Query

/-!
# What the built-in rules ask

Every built-in rule stays below the rank of its kind, asks its inputs only about predicates over
their rows, and fails only where it cannot make one.
-/
namespace Relational.Metadata
variable {Q α : Type}
open Inquiry

/-! Selectivity, keys, order and placement -/

section
variable [Quantity Q] {setting : Setting Q} {p : Plan} {args : Args} {node : Plan.Kind}
  {requested : Option Expr}

omit [Quantity Q] in
@[simp] theorem confined_constantly (r : Nat) (fact : Fact Q) :
    (constantly fact setting p args).Confined r node p requested := trivial

namespace Selectivity

@[simp] theorem confined_guessed (r : Nat) :
    (guessed setting p args).Confined r node p args.requested? := trivial

@[simp] theorem confined_ofFilter :
    (ofFilter setting p args).Confined 0 node p args.requested? := by
  unfold ofFilter
  split
  · simp
  next id input own requested hargs =>
    rw [Args.requested?_of_predicate? hargs]
    simp only
    split
    · simp
    · have hoffered : ∀ part ∈ requested.conjuncts.filter fun c => !own.conjuncts.contains c,
          Offered (.filter id input own) (some requested) part :=
        fun part hpart => .conjunct ((List.mem_filter.1 hpart).1)
      refine heeds_bind_ofExcept (fun _ => .offered hoffered) fun rest hrest => ?_
      refine heeds_report _ (confined_selectivity_input fun e he => ?_)
      cases he
      exact .conjoined hoffered hrest
  · simp

@[simp] theorem confined_ofProject :
    (ofProject setting p args).Confined 0 node p args.requested? := by
  unfold ofProject
  split
  · simp
  next hargs =>
    rw [Args.requested?_of_predicate? hargs]
    split
    next pushed hpushed =>
      refine heeds_report _ (confined_selectivity_input fun e he => ?_)
      cases he
      exact .offered (.projected hpushed)
    · simp
  · simp

theorem confined_guessRest {e : Expr} {es : List Expr} (hes : ∀ part ∈ es, part ∈ e.conjuncts)
    (share : Q) :
    (if es.isEmpty then do
        let rest ← pure one
        known (.number (share * rest))
      else do
        let kept ← Inquiry.ofExcept (Expr.conjunction es)
        let rest ← pure (guess (some kept))
        known (.number (share * rest)) : Inquiry Q (Option (Fact Q))).Confined
      0 node p (some e) := by
  split
  · exact heeds_known _
  · exact heeds_bind_ofExcept (fun _ => .requested rfl hes) fun _ _ => heeds_known _

@[simp] theorem confined_ofAggregate :
    (ofAggregate setting p args).Confined 0 node p args.requested? := by
  unfold ofAggregate
  split
  · simp
  next id input sets calls indicator requested hargs =>
    rw [Args.requested?_of_predicate? hargs]
    dsimp only
    have hoffered : ∀ part ∈ requested.conjuncts.filterMap
          (throughGrouping (Plan.groupColumns sets)),
        Offered (.aggregate id input sets calls indicator) (some requested) part := by
      intro part hpart
      obtain ⟨c, hc, hgrouped⟩ := List.mem_filterMap.1 hpart
      exact .grouped hc hgrouped
    have hkept : ∀ part ∈ requested.conjuncts.filter fun c =>
          (throughGrouping (Plan.groupColumns sets) c).isNone, part ∈ requested.conjuncts :=
      fun _ hpart => (List.mem_filter.1 hpart).1
    split
    · exact confined_guessRest hkept _
    · refine heeds_bind_ofExcept (fun _ => .offered hoffered) fun pushed hpushed => ?_
      refine heeds_bind (confined_selectivity_input fun e he => ?_) fun share => ?_
      · cases he
        exact .conjoined hoffered hpushed
      · split
        · simp
        · exact confined_guessRest hkept _
  · simp

@[simp] theorem confined_ofUnion (hnode : node ∈ [Plan.Kind.sort, .exchange, .union]) :
    (ofUnion setting p args).Confined 0 node p args.requested? := by
  unfold ofUnion
  refine heeds_bind (heeds_forInputs (fun i => ?_) _ _) fun inputs => ?_
  · refine heeds_bind (confined_tupleCount_input i) fun rows => ?_
    refine heeds_bind (confined_selectivity_input fun e he => ?_) fun share => ?_
    · exact .passed hnode (Args.requested?_of_predicate? he)
    · split <;> simp
  · split
    · dsimp only
      split <;> simp
    · simp

@[simp] theorem confined_passedOn (hnode : node ∈ [Plan.Kind.sort, .exchange, .union]) :
    (passedOn setting p args).Confined 0 node p args.requested? :=
  heeds_fromInput (confined_selectivity_input fun _ he =>
    .passed hnode (Args.requested?_of_predicate? he))

end Selectivity

namespace UniqueKeys
omit [Quantity Q]

@[simp] theorem confined_ofScan : (ofScan setting p args).Confined 0 node p args.requested? := by
  unfold ofScan
  split <;> simp

@[simp] theorem confined_ofValues :
    (ofValues setting p args).Confined 0 node p args.requested? := by
  unfold ofValues
  split
  · split <;> simp [singleRow]
  · simp

@[simp] theorem confined_passedOn :
    (passedOn setting p args).Confined 0 node p args.requested? := heeds_fromInput (by simp)

@[simp] theorem confined_ofSort : (ofSort setting p args).Confined 0 node p args.requested? := by
  unfold ofSort
  split
  · simp [singleRow]
  · exact confined_passedOn

@[simp] theorem confined_ofProject :
    (ofProject setting p args).Confined 0 node p args.requested? := by
  unfold ofProject
  split
  · exact heeds_report _ (by simp)
  · simp

@[simp] theorem confined_ofAggregate :
    (ofAggregate setting p args).Confined 0 node p args.requested? := by
  unfold ofAggregate
  split <;> simp

variable {fails : Error → Prop}

theorem heeds_uniqueOnEquated {P : Subject → Question → Prop} {s : Subject}
    (hP : ∀ c b, P s ⟨.columnUniqueness, .columns c b⟩) (equated : List Nat) (b : Bool) :
    (uniqueOnEquated s equated b : Inquiry Q _).Heeds P fails := by
  unfold uniqueOnEquated
  split
  · simp
  · exact heeds_bind (by simp [hP]) fun _ => by simp

theorem heeds_ofJoin (hfails : fails .overflow) :
    (ofJoin setting p args).Heeds (Allows 0 node p args.requested?) fails := by
  unfold ofJoin
  split
  · refine heeds_bind (by simp) fun leftKeys => ?_
    dsimp only
    split
    · simp
    · refine heeds_bind (by simp) fun rightKeys => ?_
      refine heeds_bind_ofExcept (fun e he => ?_) fun both _ => ?_
      · split at he
        · exact (pairedKeys_eq_error.1 he).1 ▸ hfails
        · cases he
      refine heeds_bind (heeds_uniqueOnEquated (by simp) _ _) fun _ => ?_
      refine heeds_bind (heeds_uniqueOnEquated (by simp) _ _) fun _ => ?_
      refine heeds_bind_ofExcept (fun e he => ?_) fun fromRight _ => by simp
      split at he
      · exact (shiftAll_eq_error.1 he).1 ▸ hfails
      · cases he
  · simp

@[simp] theorem confined_ofSetOp : (ofSetOp setting p args).Confined 0 node p args.requested? := by
  unfold ofSetOp
  split <;> simp

end UniqueKeys

namespace ColumnUniqueness

theorem confined_ofNoColumns : (ofNoColumns : Inquiry Q _).Confined 1 node p requested := by
  refine heeds_bind (heeds_askAmount ⟨Nat.one_pos, rfl⟩) fun rows => ?_
  split
  · split <;> simp [always]
  · simp

@[simp] theorem confined_byKeys : (byKeys setting p args).Confined 1 node p args.requested? := by
  unfold byKeys
  split
  · split
    · exact confined_ofNoColumns
    · refine heeds_bind (by simp [Kind.rank]) fun _ => ?_
      dsimp only
      split <;> simp [always]
  · simp

@[simp] theorem confined_ofScan : (ofScan setting p args).Confined 1 node p args.requested? := by
  unfold ofScan
  split
  · split
    · exact confined_ofNoColumns
    · split <;> simp
  · simp

omit [Quantity Q] in
@[simp] theorem confined_ofValues :
    (ofValues setting p args).Confined 1 node p args.requested? := by
  unfold ofValues
  split <;> simp

omit [Quantity Q] in
@[simp] theorem confined_passedOn :
    (passedOn setting p args).Confined 1 node p args.requested? := by
  unfold passedOn
  split
  · split
    · simp [always]
    · exact heeds_fromInput (by simp)
  · simp

@[simp] theorem confined_ofProject :
    (ofProject setting p args).Confined 1 node p args.requested? := by
  unfold ofProject
  split
  · split
    · exact confined_ofNoColumns
    · dsimp only
      split
      · simp
      · refine heeds_bind (by simp) fun answer => ?_
        split
        · simp [always]
        · split <;> simp
        · simp
  · simp

@[simp] theorem confined_ofAggregate :
    (ofAggregate setting p args).Confined 1 node p args.requested? := by
  unfold ofAggregate
  split
  · split
    · exact confined_ofNoColumns
    · split
      · simp
      · dsimp only
        split
        · simp [always]
        · split
          · simp
          · refine heeds_bind (by simp) fun _ => ?_
            split <;> simp [always]
  · simp

omit [Quantity Q] in
theorem confined_uniqueSide (r i : Nat) (c : ColumnSet) (b : Bool) :
    (uniqueSide (.input i) c b : Inquiry Q _).Confined r node p requested := by
  unfold uniqueSide
  split
  · simp
  · exact heeds_bind (by simp) fun _ => by simp

omit [Quantity Q] in
theorem confined_ite {r : Nat} {b : Bool} {x : Inquiry Q Bool} (h : x.Confined r node p requested) :
    (if b then x else pure false : Inquiry Q Bool).Confined r node p requested := by
  split
  · exact h
  · simp

@[simp] theorem confined_ofJoin : (ofJoin setting p args).Confined 1 node p args.requested? := by
  unfold ofJoin
  split
  · split
    · exact confined_ofNoColumns
    · dsimp only
      split
      · exact heeds_report _ (by simp)
      · refine heeds_bind (confined_uniqueSide _ _ _ _) fun leftUnique => ?_
        refine heeds_bind (confined_uniqueSide _ _ _ _) fun rightUnique => ?_
        split
        · simp [always]
        · refine heeds_bind (confined_ite (UniqueKeys.heeds_uniqueOnEquated (by simp) _ _)) fun _ => ?_
          split
          · simp [always]
          · refine heeds_bind (confined_ite (UniqueKeys.heeds_uniqueOnEquated (by simp) _ _)) fun _ => ?_
            split <;> simp [always]
  · simp

@[simp] theorem confined_ofSetOp : (ofSetOp setting p args).Confined 1 node p args.requested? := by
  unfold ofSetOp
  split
  · split
    · simp [always]
    · exact confined_byKeys
  · exact confined_byKeys

end ColumnUniqueness

namespace Orders
omit [Quantity Q]

@[simp] theorem confined_unordered (r : Nat) :
    (unordered setting p args).Confined r node p args.requested? := trivial

@[simp] theorem confined_ofScan : (ofScan setting p args).Confined 0 node p args.requested? := by
  unfold ofScan
  split <;> simp

@[simp] theorem confined_ofSort : (ofSort setting p args).Confined 0 node p args.requested? := by
  unfold ofSort
  split <;> simp

@[simp] theorem confined_passedOn : (passedOn setting p args).Confined 0 node p args.requested? :=
  heeds_fromInput (by simp [collations])

@[simp] theorem confined_ofProject :
    (ofProject setting p args).Confined 0 node p args.requested? := by
  unfold ofProject
  split
  · exact heeds_bind (by simp [collations]) fun _ => by simp
  · simp

end Orders

namespace Placement
omit [Quantity Q]

@[simp] theorem confined_ofOnePart (r : Nat) :
    (ofOnePart setting p args).Confined r node p args.requested? := trivial

@[simp] theorem confined_ofScan (r : Nat) :
    (ofScan setting p args).Confined r node p args.requested? := trivial

@[simp] theorem confined_ofValues (r : Nat) :
    (ofValues setting p args).Confined r node p args.requested? := trivial

@[simp] theorem confined_ofExchange :
    (ofExchange setting p args).Confined 0 node p args.requested? := by
  unfold ofExchange
  split <;> simp

@[simp] theorem confined_passedOn : (passedOn setting p args).Confined 0 node p args.requested? :=
  heeds_fromInput (by simp [distribution])

@[simp] theorem confined_ofProject :
    (ofProject setting p args).Confined 0 node p args.requested? := by
  unfold ofProject
  split
  · exact heeds_report _ (by simp [distribution])
  · simp

@[simp] theorem confined_splits : (splits setting p args).Confined 1 node p args.requested? :=
  heeds_report _ (by simp [distribution, Kind.rank])

end Placement

omit [Quantity Q] in
@[simp] theorem NodeTypes.confined_counted :
    (counted setting p args).Confined 0 node p args.requested? :=
  heeds_report _ (heeds_forInputs (fun _ => by simp [nodeTypes]) _ _)

/-! Numbers of rows -/

namespace RowBound

@[simp] theorem confined_unbounded (r : Nat) :
    (unbounded setting p args).Confined r node p args.requested? := trivial

@[simp] theorem confined_none (r : Nat) :
    (none setting p args).Confined r node p args.requested? := trivial

@[simp] theorem confined_ofValues (r : Nat) :
    (ofValues setting p args).Confined r node p args.requested? := by
  unfold ofValues
  split <;> simp

@[simp] theorem confined_maxPassedOn :
    (maxPassedOn setting p args).Confined 0 node p args.requested? :=
  heeds_fromInput (confined_askAmount_input rfl)

@[simp] theorem confined_minPassedOn :
    (minPassedOn setting p args).Confined 0 node p args.requested? :=
  heeds_fromInput (confined_askAmount_input rfl)

@[simp] theorem confined_maxOfAggregate :
    (maxOfAggregate setting p args).Confined 0 node p args.requested? := by
  unfold maxOfAggregate
  split
  · dsimp only
    split
    · simp
    · exact heeds_report _ (confined_askAmount_input rfl)
  · simp

@[simp] theorem confined_minOfAggregate :
    (minOfAggregate setting p args).Confined 0 node p args.requested? := by
  unfold minOfAggregate
  split
  · refine heeds_bind (confined_askAmount_input rfl) fun _ => ?_
    split
    · split <;> simp
    · simp
  · simp

@[simp] theorem confined_maxOfJoin :
    (maxOfJoin setting p args).Confined 0 node p args.requested? := by
  unfold maxOfJoin
  split
  · refine heeds_bind (confined_askAmount_input rfl) fun _ => ?_
    refine heeds_bind (confined_askAmount_input rfl) fun _ => ?_
    split <;> simp
  · simp

@[simp] theorem confined_minOfJoin :
    (minOfJoin setting p args).Confined 0 node p args.requested? := by
  unfold minOfJoin
  split
  · split
    · exact heeds_report _ (confined_askAmount_input rfl)
    · exact heeds_report _ (confined_askAmount_input rfl)
    · refine heeds_bind (confined_askAmount_input rfl) fun _ => ?_
      refine heeds_bind (confined_askAmount_input rfl) fun _ => ?_
      split <;> simp
    all_goals simp
  · simp

@[simp] theorem confined_maxOfUnion :
    (maxOfUnion setting p args).Confined 0 node p args.requested? := by
  unfold maxOfUnion
  split
  · exact heeds_report _ (heeds_forInputs (fun i => confined_askAmount_input rfl) _ _)
  · simp

@[simp] theorem confined_maxOfIntersect :
    (maxOfIntersect setting p args).Confined 0 node p args.requested? := by
  unfold maxOfIntersect
  split
  · exact heeds_report _ (heeds_forInputs (fun i => confined_askAmount_input rfl) _ _)
  · simp

@[simp] theorem confined_minOfUnion :
    (minOfUnion setting p args).Confined 0 node p args.requested? := by
  unfold minOfUnion
  split
  · exact heeds_report _ (heeds_forInputs (fun i => confined_askAmount_input rfl) _ _)
  · simp

@[simp] theorem confined_maxOfSort :
    (maxOfSort setting p args).Confined 0 node p args.requested? := by
  unfold maxOfSort
  split
  · exact heeds_bind (confined_askAmount_input rfl) fun _ => by simp
  · simp

@[simp] theorem confined_minOfSort :
    (minOfSort setting p args).Confined 0 node p args.requested? := by
  unfold minOfSort
  split
  · exact heeds_report _ (confined_askAmount_input rfl)
  · simp

end RowBound

namespace RowEstimate

omit [Quantity Q] in
@[simp] theorem confined_ofScan (r : Nat) :
    (ofScan setting p args).Confined r node p args.requested? := trivial

@[simp] theorem confined_passedOn (r : Nat) :
    (passedOn setting p args).Confined r node p args.requested? := by
  unfold passedOn
  split
  · simp
  · exact heeds_report _ (confined_tupleCount_input _)

@[simp] theorem confined_ofFilter (r : Nat) :
    (ofFilter setting p args).Confined r node p args.requested? := by
  unfold ofFilter
  split
  · refine heeds_bind (confined_tupleCount_input _) fun rows => ?_
    split
    · refine heeds_bind (confined_selectivity_input fun e he => ?_) fun _ => by simp
      cases he
      exact .offered .own
    · simp
  · simp

theorem confined_countGroups (r : Nat) (total : Q) (sets : List ColumnSet) :
    (countGroups total sets).Confined r node p requested := by
  induction sets generalizing total with
  | nil => simp [countGroups]
  | cons set rest ih =>
    unfold countGroups
    split
    · exact ih _
    · refine heeds_bind (confined_askAmount_input rfl) fun groups => ?_
      split
      · exact ih _
      · refine heeds_bind (confined_tupleCount_input _) fun rows => ?_
        split
        · exact ih _
        · simp

@[simp] theorem confined_ofAggregate (r : Nat) :
    (ofAggregate setting p args).Confined r node p args.requested? := by
  unfold ofAggregate
  split
  · exact heeds_report _ (confined_countGroups _ _ _)
  · simp

@[simp] theorem confined_ofJoin (r : Nat) :
    (ofJoin setting p args).Confined r node p args.requested? := by
  unfold ofJoin
  split
  · refine heeds_bind (confined_tupleCount_input _) fun _ => ?_
    refine heeds_bind (confined_tupleCount_input _) fun _ => ?_
    split <;> simp
  · simp

@[simp] theorem confined_ofUnion (r : Nat) :
    (ofUnion setting p args).Confined r node p args.requested? := by
  unfold ofUnion
  split
  · exact heeds_report _ (heeds_forInputs (fun i => confined_tupleCount_input i) _ _)
  · simp

@[simp] theorem confined_ofIntersect (r : Nat) :
    (ofIntersect setting p args).Confined r node p args.requested? := by
  unfold ofIntersect
  split
  · exact heeds_report _ (heeds_forInputs (fun i => confined_tupleCount_input i) _ _)
  · simp

@[simp] theorem confined_ofMinus (r : Nat) :
    (ofMinus setting p args).Confined r node p args.requested? := by
  unfold ofMinus
  split
  · exact heeds_report _ (heeds_forInputs (fun i => confined_tupleCount_input i) _ _)
  · simp

@[simp] theorem confined_ofSort (r : Nat) :
    (ofSort setting p args).Confined r node p args.requested? := by
  unfold ofSort
  split
  · exact heeds_report _ (confined_tupleCount_input _)
  · simp

end RowEstimate

namespace OriginalShare

theorem confined_rowsAndShare (r i : Nat) :
    (rowsAndShare (.input i) : Inquiry Q _).Confined r node p requested := by
  refine heeds_bind (confined_tupleCount_input i) fun _ => ?_
  refine heeds_bind (confined_percentage_input i) fun _ => ?_
  split <;> simp

@[simp] theorem confined_ofRows : (ofRows setting p args).Confined 2 node p args.requested? := by
  unfold ofRows
  split
  · simp
  · refine heeds_bind (confined_tupleCount_self (by decide)) fun rows => ?_
    split
    · refine heeds_bind (heeds_forInputs (fun i => confined_rowsAndShare _ i) _ _) fun inputs => ?_
      split <;> simp
    · simp

@[simp] theorem confined_passedOn : (passedOn setting p args).Confined 2 node p args.requested? :=
  heeds_fromInput (confined_percentage_input _)

@[simp] theorem confined_ofUnion : (ofUnion setting p args).Confined 2 node p args.requested? := by
  unfold ofUnion
  refine heeds_bind (heeds_forInputs (fun i => confined_rowsAndShare _ i) _ _) fun inputs => ?_
  split <;> simp

@[simp] theorem confined_ofJoin : (ofJoin setting p args).Confined 2 node p args.requested? := by
  unfold ofJoin
  split
  · refine heeds_bind (confined_percentage_input _) fun _ => ?_
    refine heeds_bind (confined_percentage_input _) fun _ => ?_
    split <;> simp
  · simp

end OriginalShare

namespace Distinct

theorem confined_estimate (key : ColumnSet) (e : Option Expr) :
    (estimate key e : Inquiry Q _).Confined 2 node p requested := by
  unfold estimate
  dsimp only
  split
  · simp
  · refine heeds_bind (confined_tupleCount_self (by decide)) fun rows => ?_
    split
    · refine heeds_bind (by simp [Kind.rank]) fun _ => ?_
      split <;> simp
    · simp

@[simp] theorem confined_estimated :
    (estimated setting p args).Confined 2 node p args.requested? := by
  unfold estimated
  split
  · exact heeds_report _ (confined_estimate _ _)
  · simp

@[simp] theorem confined_ofScan : (ofScan setting p args).Confined 2 node p args.requested? := by
  unfold ofScan
  split
  · split
    · exact heeds_report _ (confined_estimate _ _)
    · refine heeds_bind (confined_tupleCount_self (by decide)) fun rows => ?_
      split
      · refine heeds_bind (by simp [Kind.rank]) fun _ => ?_
        split
        · simp
        · split
          · simp
          · exact heeds_report _ (confined_estimate _ _)
      · simp
  · simp

@[simp] theorem confined_ofValues :
    (ofValues setting p args).Confined 2 node p args.requested? := by
  unfold ofValues
  split
  · split <;> simp
  · simp

@[simp] theorem confined_ofFilter :
    (ofFilter setting p args).Confined 2 node p args.requested? := by
  unfold ofFilter
  split
  next id input own key requested =>
    have hoffered : ∀ part ∈ own :: requested.toList,
        Offered (.filter id input own) requested part := by
      intro part hpart
      rcases List.mem_cons.1 hpart with rfl | hpart
      · exact .own
      · obtain rfl := Option.mem_toList.1 hpart
        exact .whole
    refine heeds_bind_ofExcept (fun _ => .offered hoffered) fun both hboth => ?_
    refine heeds_report _ (confined_distinctRowCount_input fun e he => ?_)
    cases he
    exact .conjoined hoffered hboth
  · simp

@[simp] theorem confined_passedOn (hnode : node ∈ [Plan.Kind.sort, .exchange, .union]) :
    (passedOn setting p args).Confined 2 node p args.requested? := by
  unfold passedOn
  split
  · exact heeds_fromInput (confined_distinctRowCount_input fun _ he => .passed hnode he)
  · simp

theorem confined_capped {x : Inquiry Q (Option Q)} (h : x.Confined 2 node p requested) :
    (capped x).Confined 2 node p requested := by
  refine heeds_bind h fun n => ?_
  split
  · exact heeds_bind (confined_tupleCount_self (by decide)) fun _ => by simp
  · simp

@[simp] theorem confined_ofProject :
    (ofProject setting p args).Confined 2 node p args.requested? := by
  unfold ofProject
  split
  · split
    · simp
    · refine heeds_report _ (confined_capped (confined_distinctRowCount_input fun e he => ?_))
      obtain ⟨requested, rfl, hpushed⟩ := Option.bind_eq_some_iff.1 he
      exact .offered (.projected hpushed)
  · simp

@[simp] theorem confined_ofAggregate :
    (ofAggregate setting p args).Confined 2 node p args.requested? := by
  unfold ofAggregate
  split
  · split
    · simp
    · exact heeds_report _ (confined_askAmount_input rfl)
  · simp

@[simp] theorem confined_ofJoin : (ofJoin setting p args).Confined 2 node p args.requested? := by
  unfold ofJoin
  split
  · dsimp only
    refine heeds_bind (confined_askAmount_input rfl) fun l => ?_
    split
    · split
      · refine heeds_bind (confined_askAmount_input rfl) fun r => ?_
        split
        · refine heeds_bind (confined_capped (by simp)) fun n => ?_
          split <;> simp
        · simp
      · refine heeds_bind (by simp) fun one => ?_
        split
        · refine heeds_bind (confined_capped (by simp)) fun n => ?_
          split <;> simp
        · simp
    · simp
  · simp

@[simp] theorem confined_ofUnion (hnode : node ∈ [Plan.Kind.sort, .exchange, .union]) :
    (ofUnion setting p args).Confined 2 node p args.requested? := by
  unfold ofUnion
  split
  · exact heeds_report _
      (heeds_forInputs (fun i => confined_distinctRowCount_input fun _ he => .passed hnode he) _ _)
  · simp

end Distinct

namespace Population

@[simp] theorem confined_ofUniqueKey :
    (ofUniqueKey setting p args).Confined 3 node p args.requested? := by
  unfold ofUniqueKey
  split
  · refine heeds_bind (by simp [Kind.rank]) fun _ => ?_
    split
    · exact heeds_report _ (confined_tupleCount_self (by decide))
    · simp
  · simp

@[simp] theorem confined_ofLeaf : (ofLeaf setting p args).Confined 3 node p args.requested? := by
  unfold ofLeaf
  split
  · exact heeds_report _ (heeds_askAmount (by simp [Kind.rank]))
  · simp

@[simp] theorem confined_passedOn :
    (passedOn setting p args).Confined 3 node p args.requested? := by
  unfold passedOn
  split
  · exact heeds_fromInput (confined_askAmount_input rfl)
  · simp

@[simp] theorem confined_ofProject :
    (ofProject setting p args).Confined 3 node p args.requested? := by
  unfold ofProject
  split
  · split
    · exact heeds_report _ (confined_askAmount_input rfl)
    · simp
  · simp

@[simp] theorem confined_ofAggregate :
    (ofAggregate setting p args).Confined 3 node p args.requested? := by
  unfold ofAggregate
  split
  · split
    · exact heeds_report _ (confined_askAmount_input rfl)
    · simp
  · simp

@[simp] theorem confined_ofJoin : (ofJoin setting p args).Confined 3 node p args.requested? := by
  unfold ofJoin
  split
  · dsimp only
    refine heeds_bind (confined_askAmount_input rfl) fun l => ?_
    split
    · split
      · exact heeds_report _ (confined_askAmount_input rfl)
      · simp
    · simp
  · simp

@[simp] theorem confined_ofUnion : (ofUnion setting p args).Confined 3 node p args.requested? := by
  unfold ofUnion
  split
  · exact heeds_report _ (heeds_forInputs (fun i => confined_askAmount_input rfl) _ _)
  · simp

end Population

/-! Sizes, lineage, cost and memory -/

namespace Size

@[simp] theorem confined_ofScan (r : Nat) :
    (ofScan setting p args).Confined r node p args.requested? := trivial

@[simp] theorem confined_bySchema (r : Nat) :
    (bySchema setting p args).Confined r node p args.requested? := trivial

@[simp] theorem confined_ofValues :
    (ofValues setting p args).Confined 0 node p args.requested? := by
  unfold ofValues
  split <;> simp

omit [Quantity Q] in
@[simp] theorem confined_passedOn : (passedOn setting p args).Confined 0 node p args.requested? :=
  heeds_fromInput (by simp [averageColumnSizes])

@[simp] theorem confined_ofProject :
    (ofProject setting p args).Confined 0 node p args.requested? := by
  unfold ofProject
  split
  · exact heeds_bind (by simp [averageColumnSizes]) fun _ => by simp
  · simp

@[simp] theorem confined_ofAggregate :
    (ofAggregate setting p args).Confined 0 node p args.requested? := by
  unfold ofAggregate
  split
  · exact heeds_bind (by simp [averageColumnSizes]) fun _ => by simp
  · simp

@[simp] theorem confined_ofJoin : (ofJoin setting p args).Confined 0 node p args.requested? := by
  unfold ofJoin
  split
  · refine heeds_bind (by simp [averageColumnSizes]) fun _ => ?_
    dsimp only
    split
    · exact heeds_bind (by simp [averageColumnSizes]) fun _ => by simp
    · simp
  · simp

@[simp] theorem confined_ofSetOp : (ofSetOp setting p args).Confined 0 node p args.requested? := by
  refine heeds_bind (heeds_forInputs (fun _ => ?_) _ _) fun _ => by simp
  exact heeds_bind (by simp [averageColumnSizes]) fun _ => by simp

@[simp] theorem confined_ofRow : (ofRow setting p args).Confined 1 node p args.requested? :=
  heeds_bind (by simp [averageColumnSizes, Kind.rank]) fun _ => by simp

end Size

namespace Origins
omit [Quantity Q]

variable {P : Subject → Question → Prop} {fails : Error → Prop}

@[simp] theorem heeds_nowhere : (nowhere setting p args).Heeds P fails := trivial

@[simp] theorem heeds_ofScan : (ofScan setting p args).Heeds P fails := by
  unfold ofScan
  split
  · split
    · simp
    · split <;> simp
  · simp

/-! Only the origins of columns of inputs are asked for. -/

section Inputs
variable (hP : ∀ i c, P (.input i) ⟨.columnOrigin, .column c⟩)
include hP

@[simp] theorem heeds_passedOn : (passedOn setting p args).Heeds P fails := by
  unfold passedOn
  split
  · exact heeds_fromInput (by simp [columnOrigins, hP])
  · simp

theorem heeds_derivedFrom (columns : List Nat) (found : List ColumnOrigin) :
    (derivedFrom columns found : Inquiry Q _).Heeds P fails := by
  induction columns generalizing found with
  | nil => simp [derivedFrom]
  | cons c rest ih =>
    refine heeds_bind (by simp [columnOrigins, hP]) fun origins => ?_
    split
    · exact ih _
    · simp

@[simp] theorem heeds_ofProject : (ofProject setting p args).Heeds P fails := by
  unfold ofProject
  split
  · split
    · simp
    · split
      · exact heeds_report _ (by simp [columnOrigins, hP])
      · exact heeds_report _ (heeds_derivedFrom hP _ _)
  · simp

theorem heeds_ofCall (calls : List AggregateCall) (c marked : Nat) :
    (if c < marked then known (.origins [])
      else match calls[c - marked]? with
        | some call => report .origins (derivedFrom call.args)
        | none => unknown : Inquiry Q _).Heeds P fails := by
  split
  · simp
  · split
    · exact heeds_report _ (heeds_derivedFrom hP _ _)
    · simp

@[simp] theorem heeds_ofAggregate : (ofAggregate setting p args).Heeds P fails := by
  unfold ofAggregate
  split
  · simp only
    split
    · exact heeds_report _ (by simp [columnOrigins, hP])
    · exact heeds_ofCall hP _ _ _
  · simp

@[simp] theorem heeds_ofJoin : (ofJoin setting p args).Heeds P fails := by
  unfold ofJoin
  split
  · split
    · exact heeds_report _ (by simp [columnOrigins, hP])
    · exact heeds_report _ (by simp [columnOrigins, hP])
  · simp

@[simp] theorem heeds_ofSetOp : (ofSetOp setting p args).Heeds P fails := by
  unfold ofSetOp
  split
  · exact heeds_report _ (heeds_forInputs (fun _ => by simp [columnOrigins, hP]) _ _)
  · simp

end Inputs
end Origins

namespace Lineage
omit [Quantity Q]

variable {P : Subject → Question → Prop} {fails : Error → Prop}

@[simp] theorem heeds_ofScan : (ofScan setting p args).Heeds P fails := by
  unfold ofScan
  split
  · dsimp only
    split <;> simp
  · simp

/-! Only the lineages of expressions over inputs are asked for. -/

section Inputs
variable (hP : ∀ i e, P (.input i) ⟨.expressionLineage, .expr e⟩)
include hP

@[simp] theorem heeds_passedOn : (passedOn setting p args).Heeds P fails := by
  unfold passedOn
  split
  · exact heeds_fromInput (by simp [expressionLineage, hP])
  · simp

@[simp] theorem heeds_ofProject : (ofProject setting p args).Heeds P fails := by
  unfold ofProject
  split
  · split
    · exact heeds_report _ (by simp [expressionLineage, hP])
    · simp
  · simp

@[simp] theorem heeds_ofAggregate : (ofAggregate setting p args).Heeds P fails := by
  unfold ofAggregate
  split
  · dsimp only
    split
    · exact heeds_report _ (by simp [expressionLineage, hP])
    · simp
  · simp

theorem heeds_perColumn (leftWidth : Nat) (columns : List (Nat × SqlType)) :
    (perColumn leftWidth columns : Inquiry Q _).Heeds P fails := by
  induction columns with
  | nil => simp [perColumn]
  | cons column rest ih =>
    obtain ⟨c, t⟩ := column
    unfold perColumn
    dsimp only
    refine heeds_bind ?_ fun found => ?_
    · split <;> simp [expressionLineage, hP]
    · split
      · refine heeds_bind ih fun others => ?_
        split <;> simp
      · simp

theorem heeds_ofJoin (hfails : fails .overflow) : (ofJoin setting p args).Heeds P fails := by
  unfold ofJoin
  split
  · refine heeds_bind (heeds_perColumn hP _ _) fun columns => ?_
    split
    · refine heeds_bind_ofExcept (fun e he => ?_) fun count _ => ?_
      · exact choiceCount_error he ▸ hfails
      · split <;> simp
    · simp
  · simp

@[simp] theorem heeds_ofUnion : (ofUnion setting p args).Heeds P fails := by
  unfold ofUnion
  split
  · refine heeds_bind (heeds_forInputs (fun _ => ?_) _ _) fun lists => ?_
    · simp [expressionLineage, hP]
    split
    · dsimp only
      split <;> simp
    · simp
  · simp

end Inputs
end Lineage

namespace TableReferences
omit [Quantity Q]

@[simp] theorem confined_ofScan : (ofScan setting p args).Confined 0 node p args.requested? := by
  unfold ofScan
  split <;> simp

@[simp] theorem confined_ofInputs : (ofInputs setting p args).Confined 0 node p args.requested? :=
  heeds_report _ (heeds_forInputs (fun _ => by simp [tableReferences]) _ _)

end TableReferences

namespace Cost

theorem confined_byRows (cpu : Q → Q) : (byRows cpu).Confined 2 node p requested :=
  heeds_report _ (confined_tupleCount_self (by decide))

@[simp] theorem confined_ofScan :
    (ofScan setting p args).Confined 2 node p args.requested? := confined_byRows _

@[simp] theorem confined_ofExchange :
    (ofExchange setting p args).Confined 2 node p args.requested? := confined_byRows _

@[simp] theorem confined_ofFields :
    (ofFields setting p args).Confined 2 node p args.requested? := confined_byRows _

theorem confined_rowsWithInputs (n : Nat) :
    (rowsWithInputs n : Inquiry Q _).Confined 2 node p requested := by
  have hcounts : ∀ n i,
      (rowsWithInputs.counts n i : Inquiry Q _).Confined 2 node p requested := by
    intro n
    induction n with
    | zero => intro i; simp [rowsWithInputs.counts]
    | succ n ih =>
      intro i
      exact heeds_bind (confined_tupleCount_input i) fun _ => heeds_bind (ih _) fun _ => by simp
  refine heeds_bind (confined_tupleCount_self (by decide)) fun _ => ?_
  refine heeds_bind (hcounts n 0) fun _ => ?_
  split <;> simp

@[simp] theorem confined_ofValues :
    (ofValues setting p args).Confined 2 node p args.requested? := by
  unfold ofValues
  split <;> simp

@[simp] theorem confined_ofFilter :
    (ofFilter setting p args).Confined 2 node p args.requested? := by
  unfold ofFilter
  split
  · exact heeds_report _ (confined_rowsWithInputs _)
  · simp

@[simp] theorem confined_ofProject :
    (ofProject setting p args).Confined 2 node p args.requested? := by
  unfold ofProject
  split
  · exact confined_byRows _
  · simp

@[simp] theorem confined_ofAggregate :
    (ofAggregate setting p args).Confined 2 node p args.requested? := by
  unfold ofAggregate
  split
  · exact heeds_report _ (confined_rowsWithInputs _)
  · simp

@[simp] theorem confined_ofJoin : (ofJoin setting p args).Confined 2 node p args.requested? := by
  unfold ofJoin
  split
  · exact heeds_report _ (confined_rowsWithInputs _)
  · simp

@[simp] theorem confined_ofSort : (ofSort setting p args).Confined 2 node p args.requested? := by
  unfold ofSort
  split
  · exact heeds_report _ (confined_rowsWithInputs _)
  · simp

@[simp] theorem confined_cumulative :
    (cumulative setting p args).Confined 3 node p args.requested? := by
  refine heeds_bind (by simp [ownCost, Kind.rank]) fun own => ?_
  split
  · exact heeds_report _ (heeds_forInputs (fun _ => by simp [cumulativeCost]) _ _)
  · simp

end Cost

namespace Memory

@[simp] theorem confined_none (r : Nat) :
    (none setting p args).Confined r node p args.requested? := trivial

@[simp] theorem confined_ofSort : (ofSort setting p args).Confined 2 node p args.requested? := by
  unfold ofSort
  split
  · refine heeds_bind (confined_tupleCount_input _) fun _ => ?_
    refine heeds_bind (by simp [averageRowSize]) fun _ => ?_
    split <;> simp
  · simp

@[simp] theorem confined_ofAggregate :
    (ofAggregate setting p args).Confined 2 node p args.requested? := by
  refine heeds_bind (confined_tupleCount_self (by decide)) fun _ => ?_
  refine heeds_bind (by simp [averageRowSize, Kind.rank]) fun _ => ?_
  split <;> simp

theorem confined_addInputs (total : Q) (n i : Nat) :
    (addInputs total n i).Confined 3 node p requested := by
  induction n generalizing total i with
  | zero => simp [addInputs]
  | succ n ih =>
    refine heeds_bind (by simp [isPhaseTransition]) fun _ => ?_
    split
    · exact ih _ _
    · refine heeds_bind (by simp [phaseMemory]) fun m => ?_
      split
      · exact ih _ _
      · simp

@[simp] theorem confined_withinPhase :
    (withinPhase setting p args).Confined 3 node p args.requested? := by
  refine heeds_bind (by simp [memory, Kind.rank]) fun own => ?_
  split
  · exact heeds_report _ (confined_addInputs _ _ _)
  · simp

@[simp] theorem confined_perSplit :
    (perSplit setting p args).Confined 4 node p args.requested? := by
  refine heeds_bind (by simp [phaseMemory, Kind.rank]) fun _ => ?_
  refine heeds_bind (by simp [splitCount, Kind.rank]) fun _ => ?_
  split <;> simp

end Memory

/-! The built-in table -/

/-- The rules that reckon in machine words. -/
def Counts (node : Plan.Kind) (kind : Kind) : Prop :=
  node = .join ∧ (kind = .uniqueKeys ∨ kind = .expressionLineage)

namespace RuleTable

theorem specificRule_confined {kind : Kind} {rule : Rule Q}
    (h : specificRule kind node = some rule) (hcounts : ¬ Counts node kind) :
    (rule setting p args).Confined kind.rank node p args.requested? := by
  cases kind <;> cases node <;> cases h <;>
    first | simp [Kind.rank]; done | simp [Counts] at hcounts

theorem generalRule_confined {kind : Kind} {rule : Rule Q} (h : generalRule kind = some rule) :
    (rule setting p args).Confined kind.rank node p args.requested? := by
  cases kind <;> cases h <;> simp [Kind.rank]

theorem builtin_heeds {kind : Kind} {rule : Rule Q} (h : builtin.lookup node kind = some rule) :
    (rule setting p args).Heeds (Allows kind.rank node p args.requested?) fun e =>
      Unconjoined p args.requested? e ∨ e = .overflow ∧ Counts node kind := by
  by_cases hcounts : Counts node kind
  · obtain ⟨rfl, rfl | rfl⟩ := id hcounts
    · cases h
      exact UniqueKeys.heeds_ofJoin (.inr ⟨rfl, hcounts⟩)
    · cases h
      exact Lineage.heeds_ofJoin (by simp) (.inr ⟨rfl, hcounts⟩)
  · refine heeds_weaken (fun _ => .inl) ?_
    rcases Option.or_eq_some_iff.1 h with h | ⟨-, h⟩
    · exact specificRule_confined h hcounts
    · exact generalRule_confined h

theorem builtin_ranked : (builtin : RuleTable Q).Ranked :=
  fun _ _ _ h _ _ _ => below_of_heeds (builtin_heeds h)

end RuleTable
end
end Relational.Metadata
