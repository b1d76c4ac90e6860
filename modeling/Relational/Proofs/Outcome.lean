import Mathlib.Data.List.Forall2
import Mathlib.Data.List.Perm.Basic
import Relational.Error

/-!
# Outcomes of steps that may fail

When a sequence of steps succeeds, and with which results. What works on a state that many calls
share may stop at any step, and what it has written by then stays. An update performs a step that
fails without a trace if nothing that can stop it follows what it writes.
-/
namespace Relational
variable {ε α β γ : Type}

theorem bind_eq_ok {x : Except ε α} {f : α → Except ε β} {b : β} :
    x >>= f = .ok b ↔ ∃ a, x = .ok a ∧ f a = .ok b := by
  cases x <;> simp [bind, Except.bind]

@[simp] theorem ok_bind (a : α) (f : α → Except ε β) : (.ok a : Except ε α) >>= f = f a := rfl

@[simp] theorem error_bind (e : ε) (f : α → Except ε β) :
    (.error e : Except ε α) >>= f = .error e := rfl

@[simp] theorem pure_eq_ok (a : α) : (pure a : Except ε α) = .ok a := rfl

@[simp] theorem throw_eq_error (e : ε) : (throw e : Except ε α) = .error e := rfl

theorem toOption_eq_some {x : Except ε α} {a : α} : x.toOption = some a ↔ x = .ok a := by
  cases x <;> simp [Except.toOption]

theorem mapM_eq_ok {f : α → Except ε β} {xs : List α} {ys : List β} :
    xs.mapM f = .ok ys ↔ List.Forall₂ (fun x y => f x = .ok y) xs ys := by
  induction xs generalizing ys with
  | nil => simp [eq_comm]
  | cons x rest ih =>
    simp only [List.mapM_cons, bind_eq_ok, pure_eq_ok, Except.ok.injEq]
    constructor
    · rintro ⟨y, hy, ys, hys, rfl⟩
      exact .cons hy (ih.1 hys)
    · intro h
      cases h with
      | cons hy hys => exact ⟨_, hy, _, ih.2 hys, rfl⟩

theorem mapM_unique {f g : α → Except ε β} {xs : List α} {ys zs : List β}
    (h : ∀ x ∈ xs, ∀ y z, f x = .ok y → g x = .ok z → y = z) (hf : xs.mapM f = .ok ys)
    (hg : xs.mapM g = .ok zs) : ys = zs := by
  induction xs generalizing ys zs with
  | nil =>
    cases hf
    cases hg
    rfl
  | cons x rest ih =>
    obtain ⟨hx, hrest⟩ := List.forall_mem_cons.1 h
    simp only [List.mapM_cons, bind_eq_ok, pure_eq_ok, Except.ok.injEq] at hf hg
    obtain ⟨y, hy, ys, hys, rfl⟩ := hf
    obtain ⟨z, hz, zs, hzs, rfl⟩ := hg
    rw [hx y z hy hz, ih hrest hys hzs]

theorem mapM_perm {f g : α → Except ε β} {xs xs' : List α} {ys zs : List β} (hperm : xs.Perm xs')
    (h : ∀ x ∈ xs, ∀ y z, f x = .ok y → g x = .ok z → y = z) (hf : xs.mapM f = .ok ys)
    (hg : xs'.mapM g = .ok zs) : ys.Perm zs := by
  obtain ⟨zs', hzs', hzs⟩ := List.perm_comp_forall₂ hperm (mapM_eq_ok.1 hg)
  rwa [mapM_unique h hf (mapM_eq_ok.2 hzs')]

theorem mapM_eq_some {f : α → Option β} {xs : List α} {ys : List β} :
    xs.mapM f = some ys ↔ List.Forall₂ (fun x y => f x = some y) xs ys := by
  induction xs generalizing ys with
  | nil => simp [eq_comm]
  | cons x rest ih =>
    simp only [List.mapM_cons, Option.bind_eq_bind, Option.bind_eq_some_iff, Option.pure_def,
      Option.some.injEq, ih]
    constructor
    · rintro ⟨y, hy, ys, hys, rfl⟩
      exact .cons hy hys
    · intro h
      cases h with
      | cons hy hys => exact ⟨_, hy, _, hys, rfl⟩

theorem forM_eq_ok {f : α → Except ε Unit} {xs : List α} :
    forM xs f = .ok () ↔ ∀ x ∈ xs, f x = .ok () := by
  induction xs with
  | nil => simp
  | cons x rest ih =>
    rw [List.forM_cons, bind_eq_ok, List.forall_mem_cons, ← ih]
    exact ⟨fun ⟨_, hx, hrest⟩ => ⟨hx, hrest⟩, fun ⟨hx, hrest⟩ => ⟨(), hx, hrest⟩⟩

theorem forall₂_comp {R : α → β → Prop} {S : β → γ → Prop} {xs : List α} {zs : List γ} :
    (∃ ys, List.Forall₂ R xs ys ∧ List.Forall₂ S ys zs) ↔
      List.Forall₂ (fun x z => ∃ y, R x y ∧ S y z) xs zs := by
  constructor
  · rintro ⟨ys, hys, hzs⟩
    induction hys generalizing zs with
    | nil => cases hzs; exact .nil
    | cons hy _ ih =>
      cases hzs with
      | cons hz hzs => exact .cons ⟨_, hy, hz⟩ (ih hzs)
  · intro h
    induction h with
    | nil => exact ⟨[], .nil, .nil⟩
    | cons hxz _ ih =>
      obtain ⟨y, hy, hz⟩ := hxz
      obtain ⟨ys, hys, hzs⟩ := ih
      exact ⟨y :: ys, .cons hy hys, .cons hz hzs⟩

theorem forall₂_congr {R S : α → β → Prop} {xs : List α} {ys : List β}
    (h : ∀ x ∈ xs, ∀ y, R x y ↔ S x y) : List.Forall₂ R xs ys ↔ List.Forall₂ S xs ys := by
  induction xs generalizing ys with
  | nil => simp
  | cons x rest ih =>
    obtain ⟨hx, hrest⟩ := List.forall_mem_cons.1 h
    simp only [List.forall₂_cons_left_iff, hx, ih hrest]

theorem forall₂_imp_of_mem {R S : α → β → Prop} {xs : List α} {ys : List β}
    (h : List.Forall₂ R xs ys) (hS : ∀ x ∈ xs, ∀ y, R x y → S x y) : List.Forall₂ S xs ys :=
  ((List.forall₂_and_left _ _).2 ⟨hS, h⟩).imp fun _ y ⟨hxy, hR⟩ => hxy y hR

theorem exists_forall₂ {R : α → β → Prop} {xs : List α} (h : ∀ x ∈ xs, ∃ y, R x y) :
    ∃ ys, List.Forall₂ R xs ys := by
  induction xs with
  | nil => exact ⟨[], .nil⟩
  | cons x rest ih =>
    obtain ⟨⟨y, hy⟩, hrest⟩ := List.forall_mem_cons.1 h
    obtain ⟨ys, hys⟩ := ih hrest
    exact ⟨y :: ys, .cons hy hys⟩

theorem forall₂_getElem? {R : α → β → Prop} {xs : List α} {ys : List β}
    (h : List.Forall₂ R xs ys) {i : Nat} {x : α} {y : β} (hx : xs[i]? = some x)
    (hy : ys[i]? = some y) : R x y := by
  obtain ⟨hi, rfl⟩ := List.getElem?_eq_some_iff.1 hx
  obtain ⟨hj, rfl⟩ := List.getElem?_eq_some_iff.1 hy
  exact h.get hi hj

theorem forall₂_exists_getElem? {R : α → β → Prop} {xs : List α} {ys : List β}
    (h : List.Forall₂ R xs ys) {i : Nat} {x : α} (hx : xs[i]? = some x) :
    ∃ y, ys[i]? = some y ∧ R x y := by
  obtain ⟨hi, rfl⟩ := List.getElem?_eq_some_iff.1 hx
  have hj : i < ys.length := h.length_eq ▸ hi
  exact ⟨ys[i], List.getElem?_eq_getElem hj, h.get hi hj⟩

theorem forall₂_exists_mem {R : α → β → Prop} {xs : List α} {ys : List β}
    (h : List.Forall₂ R xs ys) {y : β} (hy : y ∈ ys) : ∃ x ∈ xs, R x y := by
  obtain ⟨i, hi⟩ := List.getElem?_of_mem hy
  obtain ⟨x, hx, hR⟩ := forall₂_exists_getElem? (List.Forall₂.flip (R := fun y x => R x y) h) hi
  exact ⟨x, List.mem_of_getElem? hx, hR⟩

/-! ### Updates of a state -/

/-- What works on a shared state and may stop. What was written before stays. -/
abbrev Update (σ : Type) := ExceptT Error (StateM σ)

namespace Update
variable {σ α β : Type} {s s' : σ} {call : Update σ Unit} {step : σ → Except Error σ}

def on (m : Update σ α) (s : σ) : Except Error α × σ := (m.run.run s).run

@[simp] theorem on_pure (a : α) : (pure a : Update σ α).on s = (.ok a, s) := rfl

@[simp] theorem on_throw (error : Error) :
    (throw error : Update σ α).on s = (.error error, s) := rfl

@[simp] theorem on_get : (MonadState.get : Update σ σ).on s = (.ok s, s) := rfl

@[simp] theorem on_modify (f : σ → σ) : (modify f : Update σ Unit).on s = (.ok (), f s) := rfl

@[simp] theorem on_set (s' : σ) : (set s' : Update σ PUnit).on s = (.ok (), s') := rfl

@[simp] theorem on_ofExcept (x : Except Error α) : (ofExcept x : Update σ α).on s = (x, s) := by
  cases x <;> rfl

@[simp] theorem on_bind (m : Update σ α) (f : α → Update σ β) :
    (m >>= f).on s = match m.on s with
      | (.ok a, s') => (f a).on s'
      | (.error error, s') => (.error error, s') := by
  unfold on
  rw [ExceptT.run_bind, StateT.run_bind, Id.run_bind]
  rcases (m.run.run s).run with ⟨_ | _, s'⟩ <;> rfl

/-- The call takes the step, or fails as the step does and writes nothing. -/
def Performs (call : Update σ Unit) (step : σ → Except Error σ) : Prop :=
  ∀ s, call.on s = match step s with
    | .ok s' => (.ok (), s')
    | .error error => (.error error, s)

theorem Performs.unchanged (h : call.Performs step) {error : Error}
    (hfails : call.on s = (.error error, s')) : s' = s := by
  rw [h s] at hfails
  cases hstep : step s <;> simp_all

theorem Performs.next (h : call.Performs step) (s : σ) :
    (call.on s).2 = s ∨ step s = .ok (call.on s).2 := by
  rw [h s]
  cases step s with
  | error => exact .inl rfl
  | ok => exact .inr rfl

def history (call : α → Update σ Unit) (s : σ) (calls : List α) : σ :=
  calls.foldl (fun s a => ((call a).on s).2) s

end Update

end Relational
