import Relational.Plan.Kind
import Relational.Proofs.Execution.Repetition

/-!
# Rows of joins

What each type of join makes of the rows of two inputs, and on which columns the result repeats no
row. Rows without a match are padded with nulls, which repeat unless they are ignored.
-/
namespace Relational

namespace Row.Apart
variable {columns inner : ColumnSet} {ignoreNulls : Bool} {a a' b b' : Row}

theorem append_left (h : a.Apart inner ignoreNulls a') (hlength : a.length = a'.length)
    (hsub : ∀ c ∈ inner, c ∈ columns) : (a ++ b).Apart columns ignoreNulls (a' ++ b') := by
  intro hagree
  have hinner : a.Agree inner a' := by
    intro c hc
    by_cases hlt : c < a.length
    · have hsame := hagree c (hsub c hc)
      rwa [List.getElem?_append_left hlt, List.getElem?_append_left (hlength ▸ hlt)] at hsame
    · rw [List.getElem?_eq_none (by omega), List.getElem?_eq_none (by omega)]
  obtain ⟨hignore, c, hc, hnull⟩ := h hinner
  obtain ⟨hlt, -⟩ := List.getElem?_eq_some_iff.1 hnull
  exact ⟨hignore, c, hsub c hc, (List.getElem?_append_left hlt).trans hnull⟩

theorem append_right (h : b.Apart inner ignoreNulls b') (hlength : a.length = a'.length)
    (hsub : ∀ c ∈ inner, c + a.length ∈ columns) :
    (a ++ b).Apart columns ignoreNulls (a' ++ b') := by
  have hskip (x y : Row) (c : Nat) : (x ++ y)[c + x.length]? = y[c]? := by
    rw [List.getElem?_append_right (Nat.le_add_left _ _), Nat.add_sub_cancel]
  intro hagree
  have hinner : b.Agree inner b' := by
    intro c hc
    have hsame := hagree _ (hsub c hc)
    rwa [hskip, hlength, hskip] at hsame
  obtain ⟨hignore, c, hc, hnull⟩ := h hinner
  exact ⟨hignore, _, hsub c hc, (hskip a b c).trans hnull⟩

end Row.Apart

/-- Two inputs, and which rows of them a join puts side by side. -/
structure Joining where
  holds : Row → Row → Bool
  left : List Row
  right : List Row
  leftWidth : Nat
  rightWidth : Nat
  length_left : ∀ a ∈ left, a.length = leftWidth
  length_right : ∀ b ∈ right, b.length = rightWidth

namespace Joining
variable (j : Joining)

def matchesOf (a : Row) : List Row := j.right.filter (j.holds a)

def matchesTo (b : Row) : List Row := j.left.filter (j.holds · b)

def pairs : List Row := j.left.flatMap fun a => (j.matchesOf a).map (a ++ ·)

def leftOver : List Row := j.left.filter fun a => (j.matchesOf a).isEmpty

def rightOver : List Row := j.right.filter fun b => (j.matchesTo b).isEmpty

def leftPadded : List Row := j.leftOver.map (· ++ List.replicate j.rightWidth .null)

def rightPadded : List Row := j.rightOver.map (List.replicate j.leftWidth .null ++ ·)

def rows : JoinType → List Row
  | .inner => j.pairs
  | .left => j.pairs ++ j.leftPadded
  | .right => j.pairs ++ j.rightPadded
  | .full => j.pairs ++ j.leftPadded ++ j.rightPadded
  | .semi => j.left.filter fun a => !(j.matchesOf a).isEmpty
  | .anti => j.leftOver

/-- Some of the columns are columns of the left input that repeat no row of it. -/
structure TellsLeft (columns inner : ColumnSet) (ignoreNulls : Bool) : Prop where
  unique : NoRepeat inner ignoreNulls j.left
  subset : ∀ c ∈ inner, c ∈ columns

structure TellsRight (columns inner : ColumnSet) (ignoreNulls : Bool) : Prop where
  unique : NoRepeat inner ignoreNulls j.right
  subset : ∀ c ∈ inner, c + j.leftWidth ∈ columns

variable {j} {columns l r : ColumnSet} {ignoreNulls : Bool} {a a' b b' row : Row}
  {type : JoinType}

theorem mem_matchesOf : b ∈ j.matchesOf a ↔ b ∈ j.right ∧ j.holds a b = true := List.mem_filter

theorem mem_leftOver : a ∈ j.leftOver ↔ a ∈ j.left ∧ ∀ b ∈ j.right, j.holds a b = false := by
  simp [leftOver, matchesOf]

theorem mem_rightOver : b ∈ j.rightOver ↔ b ∈ j.right ∧ ∀ a ∈ j.left, j.holds a b = false := by
  simp [rightOver, matchesTo]

theorem mem_pairs :
    row ∈ j.pairs ↔ ∃ a ∈ j.left, ∃ b ∈ j.right, j.holds a b = true ∧ a ++ b = row := by
  simp [pairs, matchesOf, and_assoc]

theorem length_eq_of_mem (ha : a ∈ j.left) (ha' : a' ∈ j.left) : a.length = a'.length :=
  (j.length_left a ha).trans (j.length_left a' ha').symm

theorem TellsLeft.apart (h : j.TellsLeft columns l ignoreNulls) (ha : a ∈ j.left)
    (ha' : a' ∈ j.left) (hne : a ≠ a') : (a ++ b).Apart columns ignoreNulls (a' ++ b') :=
  (h.unique.apart ha ha' hne).append_left (length_eq_of_mem ha ha') h.subset

theorem TellsRight.append (h : j.TellsRight columns r ignoreNulls)
    (hapart : b.Apart r ignoreNulls b') (ha : a.length = j.leftWidth)
    (ha' : a'.length = j.leftWidth) : (a ++ b).Apart columns ignoreNulls (a' ++ b') :=
  hapart.append_right (ha.trans ha'.symm) (ha ▸ h.subset)

/-! Pairs -/

theorem noRepeat_pairs
    (hsame : ∀ a ∈ j.left, (j.matchesOf a).Pairwise fun b b' =>
      (a ++ b).Apart columns ignoreNulls (a ++ b'))
    (hother : j.left.Pairwise fun a a' => ∀ b ∈ j.matchesOf a, ∀ b' ∈ j.matchesOf a',
      (a ++ b).Apart columns ignoreNulls (a' ++ b')) : NoRepeat columns ignoreNulls j.pairs := by
  refine List.pairwise_flatMap.2 ⟨fun a ha => List.pairwise_map.2 (hsame a ha), ?_⟩
  refine hother.imp fun hapart x hx y hy => ?_
  obtain ⟨b, hb, rfl⟩ := List.mem_map.1 hx
  obtain ⟨b', hb', rfl⟩ := List.mem_map.1 hy
  exact hapart b hb b' hb'

theorem TellsLeft.pairwise (h : j.TellsLeft columns l ignoreNulls) :
    j.left.Pairwise fun a a' => ∀ b b' : Row,
      (a ++ b).Apart columns ignoreNulls (a' ++ b') := by
  refine h.unique.imp_of_mem fun ha ha' hapart b b' => ?_
  exact hapart.append_left (length_eq_of_mem ha ha') h.subset

theorem TellsRight.pairwise_matchesOf (h : j.TellsRight columns r ignoreNulls) (ha : a ∈ j.left) :
    (j.matchesOf a).Pairwise fun b b' => (a ++ b).Apart columns ignoreNulls (a ++ b') := by
  refine (h.unique.sublist List.filter_sublist).imp fun hapart => ?_
  exact h.append hapart (j.length_left a ha) (j.length_left a ha)

theorem pairs_of_both (hleft : j.TellsLeft columns l ignoreNulls)
    (hright : j.TellsRight columns r ignoreNulls) : NoRepeat columns ignoreNulls j.pairs :=
  noRepeat_pairs (fun _ ha => hright.pairwise_matchesOf ha)
    (hleft.pairwise.imp fun hapart b _ b' _ => hapart b b')

theorem pairs_of_left (hleft : j.TellsLeft columns l ignoreNulls)
    (hone : ∀ a ∈ j.left, (j.matchesOf a).length ≤ 1) : NoRepeat columns ignoreNulls j.pairs := by
  refine noRepeat_pairs (fun a ha => ?_) (hleft.pairwise.imp fun hapart b _ b' _ => hapart b b')
  match j.matchesOf a, hone a ha with
  | [], _ => exact .nil
  | [b], _ => exact List.pairwise_singleton _ _

theorem pairs_of_right (hright : j.TellsRight columns r ignoreNulls)
    (hone : ∀ b ∈ j.right, (j.matchesTo b).length ≤ 1) : NoRepeat columns ignoreNulls j.pairs := by
  refine noRepeat_pairs (fun _ ha => hright.pairwise_matchesOf ha) ?_
  -- not by the rows alone: the left input may hold a row twice, which then matches nothing
  refine List.pairwise_iff_forall_sublist.2 fun {a a'} hboth b hb b' hb' => ?_
  obtain ⟨hb, hholds⟩ := mem_matchesOf.1 hb
  obtain ⟨hb', hholds'⟩ := mem_matchesOf.1 hb'
  have hne : b ≠ b' := by
    rintro rfl
    have hsublist := (hboth.filter (j.holds · b)).length_le
    simp only [List.filter_cons, hholds, hholds', if_true, List.filter_nil,
      List.length_cons, List.length_nil] at hsublist
    have := hone b hb
    simp only [matchesTo] at this
    omega
  have ha : a ∈ j.left := hboth.subset (by simp)
  have ha' : a' ∈ j.left := hboth.subset (by simp)
  exact hright.append (hright.unique.apart hb hb' hne) (j.length_left a ha) (j.length_left a' ha')

/-! Padded rows -/

theorem TellsLeft.padded (h : j.TellsLeft columns l ignoreNulls)
    (hpairs : NoRepeat columns ignoreNulls j.pairs) :
    NoRepeat columns ignoreNulls (j.pairs ++ j.leftPadded) := by
  refine List.pairwise_append.2 ⟨hpairs, List.pairwise_map.2 ?_, fun x hx y hy => ?_⟩
  · exact (h.pairwise.sublist List.filter_sublist).imp fun hapart => hapart _ _
  · obtain ⟨a, ha, b, hb, hholds, rfl⟩ := mem_pairs.1 hx
    obtain ⟨a', hover, rfl⟩ := List.mem_map.1 hy
    obtain ⟨ha', hnone⟩ := mem_leftOver.1 hover
    refine h.apart ha ha' ?_
    rintro rfl
    simp [hnone b hb] at hholds

theorem TellsRight.padded (h : j.TellsRight columns r ignoreNulls)
    (hpairs : NoRepeat columns ignoreNulls j.pairs) :
    NoRepeat columns ignoreNulls (j.pairs ++ j.rightPadded) := by
  refine List.pairwise_append.2 ⟨hpairs, List.pairwise_map.2 ?_, fun x hx y hy => ?_⟩
  · refine (h.unique.sublist List.filter_sublist).imp fun hapart => ?_
    exact h.append hapart List.length_replicate List.length_replicate
  · obtain ⟨a, ha, b, hb, hholds, rfl⟩ := mem_pairs.1 hx
    obtain ⟨b', hover, rfl⟩ := List.mem_map.1 hy
    obtain ⟨hb', hnone⟩ := mem_rightOver.1 hover
    have hne : b ≠ b' := by
      rintro rfl
      simp [hnone a ha] at hholds
    exact h.append (h.unique.apart hb hb' hne) (j.length_left a ha) List.length_replicate

theorem hasNull_rightPadded {c : Nat} (hc : c ∈ columns) (hlt : c < j.leftWidth) :
    ∀ row ∈ j.rightPadded, row.HasNull columns := by
  intro row hrow
  obtain ⟨b, -, rfl⟩ := List.mem_map.1 hrow
  exact ⟨c, hc, by simp [List.getElem?_append_left, hlt]⟩

theorem hasNull_leftPadded {c : Nat} (hc : c + j.leftWidth ∈ columns) (hlt : c < j.rightWidth) :
    ∀ row ∈ j.leftPadded, row.HasNull columns := by
  intro row hrow
  obtain ⟨a, hover, rfl⟩ := List.mem_map.1 hrow
  have ha := j.length_left a (mem_leftOver.1 hover).1
  exact ⟨_, hc, by simp [List.getElem?_append_right, ha, hlt]⟩

/-! Results -/

theorem rows_of_kept (hkept : type.keepsRight = false)
    (h : NoRepeat columns ignoreNulls j.left) : NoRepeat columns ignoreNulls (j.rows type) := by
  cases type with
  | semi | anti => exact h.sublist List.filter_sublist
  | _ => cases hkept

theorem rows_of_left (hpairs : NoRepeat columns ignoreNulls j.pairs)
    (h : j.TellsLeft columns l ignoreNulls)
    (hpadded : (ignoreNulls = true ∧ ∃ c ∈ l, c < j.leftWidth) ∨ type = .inner ∨ type = .left) :
    NoRepeat columns ignoreNulls (j.rows type) := by
  rcases hpadded with ⟨rfl, c, hc, hlt⟩ | rfl | rfl
  · have hnull := hasNull_rightPadded (h.subset c hc) hlt
    cases type with
    | inner => exact hpairs
    | left => exact h.padded hpairs
    | right => exact hpairs.append_ignored hnull
    | full => exact (h.padded hpairs).append_ignored hnull
    | semi | anti => exact rows_of_kept rfl (h.unique.mono h.subset)
  · exact hpairs
  · exact h.padded hpairs

theorem rows_of_right (hkeeps : type.keepsRight = true)
    (hpairs : NoRepeat columns ignoreNulls j.pairs) (h : j.TellsRight columns r ignoreNulls)
    (hpadded : (ignoreNulls = true ∧ ∃ c ∈ r, c < j.rightWidth) ∨
      type = .inner ∨ type = .right) : NoRepeat columns ignoreNulls (j.rows type) := by
  rcases hpadded with ⟨rfl, c, hc, hlt⟩ | rfl | rfl
  · have hnull := hasNull_leftPadded (h.subset c hc) hlt
    cases type with
    | inner => exact hpairs
    | left => exact hpairs.append_ignored hnull
    | right => exact h.padded hpairs
    | full =>
      refine ((h.padded hpairs).append_ignored hnull).perm ?_
      simp only [rows, List.append_assoc]
      exact List.perm_append_comm.append_left _
    | semi | anti => cases hkeeps
  · exact hpairs
  · exact h.padded hpairs

end Joining
end Relational
