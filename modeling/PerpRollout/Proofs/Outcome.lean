import Mathlib.Data.List.Forall2
import PerpRollout.Log

/-!
# Outcomes of steps taken one after the other

An operation made of several steps succeeds exactly when each step does, on what
the step before it gave. `bind_eq_ok_iff` says so for two steps and
`mapM_eq_ok_iff` for one step on each item of a list; the lemmas on
`Logged.result` carry a logged operation over to its plain outcome, so that the
lines it logs play no part in these arguments.
-/

namespace PerpRollout

variable {ε α β : Type}

theorem ok_bind (a : α) (f : α → Except ε β) : Except.ok a >>= f = f a := rfl

theorem bind_eq_ok_iff {x : Except ε α} {f : α → Except ε β} {b : β} :
    x >>= f = .ok b ↔ ∃ a, x = .ok a ∧ f a = .ok b := by
  cases x with
  | error e =>
      constructor
      · intro h
        cases h
      · intro h
        rcases h with ⟨a, h, _⟩
        cases h
  | ok a =>
      constructor
      · intro h
        exact ⟨a, rfl, h⟩
      · intro h
        rcases h with ⟨a', h, hf⟩
        cases h
        exact hf

theorem bind_eq_error_iff {x : Except ε α} {f : α → Except ε β} {e : ε} :
    x >>= f = .error e ↔ x = .error e ∨ ∃ a, x = .ok a ∧ f a = .error e := by
  cases x with
  | error e' =>
      constructor
      · intro h
        cases h
        exact .inl rfl
      · intro h
        rcases h with h | ⟨a, h, _⟩
        · cases h
          rfl
        · cases h
  | ok a =>
      constructor
      · intro h
        exact .inr ⟨a, rfl, h⟩
      · intro h
        rcases h with h | ⟨a', h, hf⟩
        · cases h
        · cases h
          exact hf

theorem map_eq_ok_iff {x : Except ε α} {f : α → β} {b : β} :
    x.map f = .ok b ↔ ∃ a, x = .ok a ∧ f a = b := by
  cases x <;> simp [Except.map]

theorem map_eq_error_iff {x : Except ε α} {f : α → β} {e : ε} :
    x.map f = .error e ↔ x = .error e := by
  cases x <;> simp [Except.map]

theorem toOption_eq_some_iff {x : Except ε α} {a : α} : x.toOption = some a ↔ x = .ok a := by
  cases x <;> simp [Except.toOption]

/-- A step on each item succeeds when it succeeds on every item, and the results
stand in the order of the items. -/
theorem mapM_eq_ok_iff {f : α → Except ε β} {items : List α} {results : List β} :
    items.mapM f = .ok results ↔ List.Forall₂ (fun a b => f a = .ok b) items results := by
  induction items generalizing results with
  | nil =>
      rw [List.mapM_nil, List.forall₂_nil_left_iff]
      constructor
      · intro h
        cases h
        rfl
      · intro h
        subst h
        rfl
  | cons a items ih =>
      rw [List.mapM_cons, bind_eq_ok_iff, List.forall₂_cons_left_iff]
      constructor
      · intro h
        rcases h with ⟨b, hb, h⟩
        obtain ⟨bs, hbs, h⟩ := bind_eq_ok_iff.mp h
        cases h
        exact ⟨b, bs, hb, ih.mp hbs, rfl⟩
      · intro h
        rcases h with ⟨b, bs, hb, hbs, rfl⟩
        exact ⟨b, hb, bind_eq_ok_iff.mpr ⟨bs, ih.mpr hbs, rfl⟩⟩

namespace Logged

@[simp] theorem result_pure (a : α) : (Pure.pure a : Logged α).result = .ok a := rfl

@[simp] theorem result_liftM (x : Except Failure α) : (liftM x : Logged α).result = x := rfl

@[simp] theorem result_fail (e : Failure) : (fail e : Logged α).result = .error e := rfl

@[simp] theorem lines_liftM (x : Except Failure α) : (liftM x : Logged α).lines = [] := rfl

/-- A line is logged by the first step, or by the second one on what the first gave. -/
theorem mem_lines_bind {x : Logged α} {f : α → Logged β} {l : Log.Line} :
    l ∈ (x >>= f).lines ↔ l ∈ x.lines ∨ ∃ a, x.result = .ok a ∧ l ∈ (f a).lines := by
  cases h : x.result with
  | error e => simp [lines_bind_of_error h]
  | ok a => simp [lines_bind_of_ok h]

theorem result_bind_eq_ok_iff {x : Logged α} {f : α → Logged β} {b : β} :
    (x >>= f).result = .ok b ↔ ∃ a, x.result = .ok a ∧ (f a).result = .ok b := by
  rw [result_bind, bind_eq_ok_iff]

end Logged

end PerpRollout
