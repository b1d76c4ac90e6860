import Mathlib.Data.List.Basic
import Relational.Proofs.Text.Quoting

/-!
# Marked texts

A marked text is a number, a colon, a kind, a hash and a body. Marked texts can be read off the text
in which they are joined by commas if no mark ends in a body. Whether quotes hide what looks like a
mark depends on the kind.
-/
namespace Relational.Text

/-- No hash that would end a mark. -/
def unmarked (quotes : Bool) (p : Place) : List Char → Bool
  | [] => !p.isQuoted
  | c :: rest => !(p == .kind && c == '#') && unmarked quotes (p.next quotes c) rest

/-- What is ahead within a mark. -/
inductive Mark : Place → List Char → Prop
  | blank {cs : List Char} (after : Mark .blank cs) : Mark .plain (' ' :: cs)
  | digit {p : Place} {c : Char} {cs : List Char} (place : p = .blank ∨ p = .number)
      (digit : c.isDigit = true) (after : Mark .number cs) : Mark p (c :: cs)
  | colon {cs : List Char} (after : Mark .kind cs) : Mark .number (':' :: cs)
  | letter {c : Char} {cs : List Char} (letter : c.isAlpha = true) (after : Mark .kind cs) :
      Mark .kind (c :: cs)
  | hash {cs : List Char} : Mark .kind ('#' :: cs)

section
variable {quotes : Bool} {p : Place} {c : Char} {cs ds rest more : List Char}

theorem Mark.next (h : Mark p (c :: cs)) : p = .kind ∧ c = '#' ∨ Mark (p.next quotes c) cs := by
  cases h with
  | blank after => exact .inr (by simpa [Place.next] using after)
  | digit place digit after =>
    have hquote : c ≠ '"' := fun heq => absurd (heq ▸ digit) (by decide)
    have hblank : c ≠ ' ' := fun heq => absurd (heq ▸ digit) (by decide)
    refine .inr ?_
    rcases place with rfl | rfl <;> simpa [Place.next, hquote, hblank, digit] using after
  | colon after => exact .inr (by simpa [Place.next] using after)
  | letter letter after =>
    have hquote : c ≠ '"' := fun heq => absurd (heq ▸ letter) (by decide)
    have hblank : c ≠ ' ' := fun heq => absurd (heq ▸ letter) (by decide)
    have hcolon : c ≠ ':' := fun heq => absurd (heq ▸ letter) (by decide)
    exact .inr (by simpa [Place.next, hquote, hblank, hcolon, letter] using after)
  | hash => exact .inl ⟨rfl, rfl⟩

theorem unmarked_of_notMem (hp : p.isQuoted = false) (h : '#' ∉ cs) :
    unmarked false p cs = true := by
  induction cs generalizing p with
  | nil => rw [unmarked, hp]; rfl
  | cons c rest ih =>
    rw [List.mem_cons, not_or] at h
    have hhash : (c == '#') = false := beq_eq_false_iff_ne.2 (Ne.symm h.1)
    rw [unmarked, hhash, Bool.and_false,
      ih (Place.isQuoted_next hp fun hquote => Bool.noConfusion hquote.1) h.2]
    rfl

end

namespace Place

def isFree : Place → Bool
  | plain | blank | number => true
  | _ => false

variable {p : Place} {c : Char}

theorem isFree_next (hp : p.isFree = true) (h : ¬ (p = number ∧ c = ':')) :
    (p.next false c).isFree = true := by
  cases p <;> first | (simp_all [next]; split_ifs <;> rfl) | cases hp

theorem next_eq (hp : p.isFree = true) (hc : c ≠ ':') :
    p.next false c = number.next false c ∨ c.isDigit = true := by
  by_cases hdigit : c.isDigit = true
  · exact .inr hdigit
  · cases p <;> first | (simp [next, hdigit, hc]; done) | cases hp

end Place

/-- No colon right after digits that start the text or follow a blank. -/
def unnumbered (p : Place) : List Char → Bool
  | [] => true
  | c :: rest => !(p == .number && c == ':') && unnumbered (p.next false c) rest

def Plain (s : String) : Prop := unnumbered .number s.toList = true

instance (s : String) : Decidable (Plain s) := inferInstanceAs (Decidable (_ = true))

section
variable {p : Place} {cs ds : List Char}

theorem unnumbered_of_number (hp : p.isFree = true) (h : unnumbered .number cs = true) :
    unnumbered p cs = true := by
  induction cs generalizing p with
  | nil => rfl
  | cons c rest ih =>
    rw [unnumbered, Bool.and_eq_true] at h
    have hcolon : c ≠ ':' := by
      rintro rfl
      cases h.1
    have hhere : (p == Place.number && c == ':') = false := by simp [hcolon]
    rw [unnumbered, hhere, Bool.not_false, Bool.true_and]
    rcases Place.next_eq hp hcolon with hnext | hdigit
    · rw [hnext]
      exact h.2
    · have hblank : c ≠ ' ' := fun heq => absurd (heq ▸ hdigit) (by decide)
      have hnumber : Place.next false .number c = .number := by simp [Place.next, hdigit, hblank]
      exact ih (Place.isFree_next hp fun hmark => hcolon hmark.2) (hnumber ▸ h.2)

theorem unnumbered_append (hp : p.isFree = true) (hcs : unnumbered p cs = true)
    (hds : unnumbered .number ds = true) : unnumbered p (cs ++ ds) = true := by
  induction cs generalizing p with
  | nil => exact unnumbered_of_number hp hds
  | cons c rest ih =>
    rw [unnumbered, Bool.and_eq_true] at hcs
    have hmark : ¬ (p = .number ∧ c = ':') := by
      rintro ⟨rfl, rfl⟩
      cases hcs.1
    rw [List.cons_append, unnumbered, hcs.1, ih (Place.isFree_next hp hmark) hcs.2]
    rfl

theorem unnumbered_of_digits (h : ∀ c ∈ cs, c.isDigit = true) : unnumbered .number cs = true := by
  induction cs with
  | nil => rfl
  | cons c rest ih =>
    obtain ⟨hc, hrest⟩ := List.forall_mem_cons.1 h
    have hcolon : c ≠ ':' := fun heq => absurd (heq ▸ hc) (by decide)
    have hblank : c ≠ ' ' := fun heq => absurd (heq ▸ hc) (by decide)
    have hnext : Place.next false .number c = .number := by simp [Place.next, hc, hblank]
    rw [unnumbered, hnext, ih hrest]
    simp [hcolon]

theorem unmarked_append (hp : p.isFree = true) (hcs : unnumbered p cs = true)
    (hds : ∀ q : Place, q.isFree = true → unmarked false q ds = true) :
    unmarked false p (cs ++ ds) = true := by
  induction cs generalizing p with
  | nil => exact hds p hp
  | cons c rest ih =>
    rw [unnumbered, Bool.and_eq_true] at hcs
    have hmark : ¬ (p = .number ∧ c = ':') := by
      rintro ⟨rfl, rfl⟩
      cases hcs.1
    have hkind : (p == Place.kind) = false := by cases p <;> first | rfl | cases hp
    rw [List.cons_append, unmarked, hkind, ih (Place.isFree_next hp hmark) hcs.2]
    rfl

end

theorem Place.isFree.isQuoted {p : Place} (h : p.isFree = true) : p.isQuoted = false := by
  cases p <;> first | rfl | cases h

theorem stable_plain : Stable Plain where
  append hs ht := by
    rw [Plain, String.toList_append]
    exact unnumbered_append rfl hs ht
  number n := unnumbered_of_digits fun _ => isDigit_of_mem_toString

theorem Plain.append {s t : String} (hs : Plain s) (ht : Plain t) : Plain (s ++ t) :=
  stable_plain.append hs ht

def Unmarked (quotes : Bool) (s : String) : Prop := unmarked quotes .plain s.toList = true

theorem Unmarked.append {s t : String} (hs : Plain s) (ht : '#' ∉ t.toList) :
    Unmarked false (s ++ t) := by
  rw [Unmarked, String.toList_append]
  exact unmarked_append rfl (unnumbered_of_number rfl hs)
    fun q hq => unmarked_of_notMem (Place.isFree.isQuoted hq) ht

theorem Unmarked.plain {s : String} (h : Plain s) : Unmarked false s := by
  rw [← String.append_empty (s := s)]
  exact Unmarked.append h List.not_mem_nil

def marked (n : Nat) (body : String) : String := toString n ++ ":" ++ body

section
variable {quoting : String → Bool}

def tail : List String → String
  | [] => ""
  | s :: rest => ", " ++ ", ".intercalate (s :: rest)

end

end Relational.Text
