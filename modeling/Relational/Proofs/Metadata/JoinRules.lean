import Relational.Proofs.Metadata.Answering
import Relational.Proofs.Metadata.UniqueKeys

/-!
# Why a join is found unique

The grounds on which a key of a join is derived, or a set of its columns found unique.
-/
namespace Relational.Metadata.Basis
variable {Q : Type} {b : Basis Q} {p : Plan} {s : Subject} {ignoreNulls : Bool}
  {key columns : ColumnSet}

def KeyOf (b : Basis Q) (p : Plan) (s : Subject) (ignoreNulls : Bool) (key : ColumnSet) : Prop :=
  ∃ keys, b.Gives p (uniqueKeys s ignoreNulls) (.ok (some keys)) ∧ key ∈ keys

def UniqueOn (b : Basis Q) (p : Plan) (s : Subject) (columns : ColumnSet) (ignoreNulls : Bool) :
    Prop :=
  columns ≠ .empty ∧ b.Gives p (columnsUnique s columns ignoreNulls) (.ok (some true))

theorem keyOf_of_mem_getD {found : Option (List ColumnSet)}
    (h : b.Gives p (uniqueKeys s ignoreNulls) (.ok found)) (hkey : key ∈ found.getD []) :
    b.KeyOf p s ignoreNulls key := by
  cases found with
  | none => cases hkey
  | some keys => exact ⟨keys, h, hkey⟩

theorem uniqueOn_of_uniqueSide
    (h : b.Gives p (ColumnUniqueness.uniqueSide s columns ignoreNulls) (.ok true)) :
    b.UniqueOn p s columns ignoreNulls := by
  unfold ColumnUniqueness.uniqueSide at h
  split at h
  · cases gives_pure.1 h
  next hsome =>
    obtain ⟨found, hfound, h⟩ := gives_bind.1 h
    have hunique : found = some true := of_decide_eq_true (gives_pure.1 h).symm
    refine ⟨fun hnone => hsome (ColumnSet.isEmpty_iff.2 hnone), hunique ▸ hfound⟩

theorem uniqueOn_of_uniqueOnEquated {equated : List Nat}
    (h : b.Gives p (UniqueKeys.uniqueOnEquated s equated ignoreNulls) (.ok true)) :
    b.UniqueOn p s (.ofList equated) ignoreNulls := by
  unfold UniqueKeys.uniqueOnEquated at h
  split at h
  · cases gives_pure.1 h
  next hsome =>
    obtain ⟨found, hfound, h⟩ := gives_bind.1 h
    have hunique : found = some true := of_decide_eq_true (gives_pure.1 h).symm
    refine ⟨fun hnone => ?_, hunique ▸ hfound⟩
    obtain ⟨c, hc⟩ := List.isEmpty_eq_false_iff_exists_mem.1 (Bool.eq_false_iff.2 hsome)
    exact List.not_mem_nil (hnone ▸ ColumnSet.mem_ofList.2 hc)

theorem uniqueOn_of_guarded {guard : Bool} {equated : List Nat}
    (h : b.Gives p (if guard then UniqueKeys.uniqueOnEquated s equated ignoreNulls
      else pure false) (.ok true)) :
    guard = true ∧ b.UniqueOn p s (.ofList equated) ignoreNulls := by
  split at h
  next hguard => exact ⟨hguard, uniqueOn_of_uniqueOnEquated h⟩
  · cases gives_pure.1 h

section Joins
variable {id : Nat} {left right : Plan} {condition : Expr} {type : JoinType}

def equatedLeft (condition : Expr) (left : Plan) : ColumnSet :=
  .ofList ((equatedColumns condition left.width).map (·.1))

def equatedRight (condition : Expr) (left : Plan) : ColumnSet :=
  .ofList ((equatedColumns condition left.width).map (·.2))

inductive JoinKey (b : Basis Q) (p left : Plan) (condition : Expr) (type : JoinType)
    (ignoreNulls : Bool) : ColumnSet → Prop
  | kept {key : ColumnSet} (htype : type.keepsRight = false)
    (hkey : b.KeyOf p (.input 0) ignoreNulls key) : JoinKey b p left condition type ignoreNulls key
  | both {l r : ColumnSet} (htype : type = .inner) (hleft : b.KeyOf p (.input 0) ignoreNulls l)
    (hright : b.KeyOf p (.input 1) ignoreNulls r) :
    JoinKey b p left condition type ignoreNulls (l.union (UniqueKeys.shift left.width r))
  | fromLeft {key : ColumnSet} (htype : type = .inner ∨ type = .left)
    (hkey : b.KeyOf p (.input 0) ignoreNulls key)
    (hunique : b.UniqueOn p (.input 1) (equatedRight condition left) ignoreNulls) :
    JoinKey b p left condition type ignoreNulls key
  | fromRight {key : ColumnSet} (htype : type = .inner ∨ type = .right)
    (hkey : b.KeyOf p (.input 1) ignoreNulls key)
    (hunique : b.UniqueOn p (.input 0) (equatedLeft condition left) ignoreNulls) :
    JoinKey b p left condition type ignoreNulls (UniqueKeys.shift left.width key)

theorem joinKey_of_gives {keys : List ColumnSet} (hp : p = .join id left right condition type)
    (h : b.Gives p (UniqueKeys.ofJoin b.setting p (.ignoreNulls ignoreNulls))
      (.ok (some (.keys keys)))) :
    ∀ key ∈ keys, b.JoinKey p left condition type ignoreNulls key := by
  intro key hkey
  simp only [UniqueKeys.ofJoin, hp, Args.ignoresNulls] at h
  rw [← hp] at h
  obtain ⟨leftKeys, hleft, h⟩ := gives_bind.1 h
  split at h
  next htype =>
    cases gives_known.1 h
    exact .kept (by simpa using htype) (keyOf_of_mem_getD hleft hkey)
  obtain ⟨rightKeys, hright, h⟩ := gives_bind.1 h
  obtain ⟨both, hpaired, h⟩ := gives_bind.1 h
  obtain ⟨rightUnique, hrightUnique, h⟩ := gives_bind.1 h
  obtain ⟨leftUnique, hleftUnique, h⟩ := gives_bind.1 h
  obtain ⟨fromRight, hshifted, h⟩ := gives_bind.1 h
  replace hpaired := gives_ofExcept.1 hpaired
  replace hshifted := gives_ofExcept.1 hshifted
  cases gives_known.1 h
  have hkeys := mem_of_mem_keySet hkey
  simp only [List.mem_append] at hkeys
  rcases hkeys with (hboth | hleftKey) | hrightKey
  · split at hpaired
    next htype =>
      obtain ⟨l, hl, r, hr, rfl⟩ := UniqueKeys.exists_of_mem_pairedKeys hpaired.symm hboth
      exact .both htype (keyOf_of_mem_getD hleft hl) (keyOf_of_mem_getD hright hr)
    · cases hpaired
      cases hboth
  · split at hleftKey
    next hfrom =>
      simp only [Bool.and_eq_true, Bool.or_eq_true, decide_eq_true_eq] at hfrom
      exact .fromLeft hfrom.2 (keyOf_of_mem_getD hleft hleftKey)
        (uniqueOn_of_uniqueOnEquated (hfrom.1 ▸ hrightUnique))
    · cases hleftKey
  · split at hshifted
    next hfrom =>
      simp only [Bool.and_eq_true, Bool.or_eq_true, decide_eq_true_eq] at hfrom
      obtain ⟨-, rfl⟩ := UniqueKeys.shiftAll_eq_ok.1 hshifted.symm
      obtain ⟨r, hr, rfl⟩ := List.mem_map.1 hrightKey
      exact .fromRight hfrom.2 (keyOf_of_mem_getD hright hr)
        (uniqueOn_of_uniqueOnEquated (hfrom.1 ▸ hleftUnique))
    · cases hshifted
      cases hrightKey

inductive JoinUnique (b : Basis Q) (p left : Plan) (condition : Expr) (type : JoinType)
    (columns : ColumnSet) (ignoreNulls : Bool) : Prop
  | kept (htype : type.keepsRight = false)
    (hunique : b.Gives p
      (columnsUnique (.input 0) (splitColumns columns left.width).1 ignoreNulls) (.ok (some true)))
  | both (htype : type.keepsRight = true) (hpadded : ignoreNulls = true ∨ type = .inner)
    (hleft : b.UniqueOn p (.input 0) (splitColumns columns left.width).1 ignoreNulls)
    (hright : b.UniqueOn p (.input 1) (splitColumns columns left.width).2 ignoreNulls)
  | fromLeft (htype : type.keepsRight = true)
    (hpadded : ignoreNulls = true ∨ type = .inner ∨ type = .left)
    (hunique : b.UniqueOn p (.input 0) (splitColumns columns left.width).1 ignoreNulls)
    (hequated : b.UniqueOn p (.input 1) (equatedRight condition left) ignoreNulls)
  | fromRight (htype : type.keepsRight = true)
    (hpadded : ignoreNulls = true ∨ type = .inner ∨ type = .right)
    (hunique : b.UniqueOn p (.input 1) (splitColumns columns left.width).2 ignoreNulls)
    (hequated : b.UniqueOn p (.input 0) (equatedLeft condition left) ignoreNulls)

theorem joinUnique_of_gives [Quantity Q] (hp : p = .join id left right condition type)
    (hcolumns : columns ≠ .empty)
    (h : b.Gives p (ColumnUniqueness.ofJoin b.setting p (.columns columns ignoreNulls))
      (.ok (some (.flag true)))) :
    b.JoinUnique p left condition type columns ignoreNulls := by
  simp only [ColumnUniqueness.ofJoin, hp] at h
  rw [← hp, if_neg (mt ColumnSet.isEmpty_iff.1 hcolumns)] at h
  split at h
  next htype =>
    obtain ⟨flag, hunique, hfact⟩ := gives_report.1 h
    cases hfact
    exact .kept (by simpa using htype) hunique
  next htype =>
  have htype : type.keepsRight = true := by simpa using htype
  obtain ⟨leftUnique, hleft, h⟩ := gives_bind.1 h
  obtain ⟨rightUnique, hright, h⟩ := gives_bind.1 h
  split at h
  next hboth =>
    simp only [Bool.and_eq_true] at hboth
    obtain ⟨⟨⟨rfl, rfl⟩, hleftPadded⟩, hrightPadded⟩ := hboth
    refine .both htype ?_ (uniqueOn_of_uniqueSide hleft) (uniqueOn_of_uniqueSide hright)
    cases type <;> simp_all [JoinType.keepsRight]
  obtain ⟨fromLeft, hfromLeft, h⟩ := gives_bind.1 h
  split at h
  next hsome =>
    obtain ⟨hguard, hequated⟩ := uniqueOn_of_guarded (hsome ▸ hfromLeft)
    simp only [Bool.and_eq_true] at hguard
    obtain ⟨rfl, hpadded⟩ := hguard
    refine .fromLeft htype ?_ (uniqueOn_of_uniqueSide hleft) hequated
    cases type <;> simp_all [JoinType.keepsRight]
  obtain ⟨fromRight, hfromRight, h⟩ := gives_bind.1 h
  split at h
  next hsome =>
    obtain ⟨hguard, hequated⟩ := uniqueOn_of_guarded (hsome ▸ hfromRight)
    simp only [Bool.and_eq_true] at hguard
    obtain ⟨rfl, hpadded⟩ := hguard
    refine .fromRight htype ?_ (uniqueOn_of_uniqueSide hright) hequated
    cases type <;> simp_all [JoinType.keepsRight]
  · cases gives_unknown.1 h

end Joins
end Relational.Metadata.Basis
