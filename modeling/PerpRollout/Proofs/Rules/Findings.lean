import PerpRollout.Proofs.Check.Judgement
import PerpRollout.Proofs.Outcome
import PerpRollout.Proofs.Rules.Place

/-!
# What rules find

`Rules.Finds` says of rules, taken together, when they find something at all and at
which places. It holds of a single rule by what the check in it comes to, and of rules
in a row by what it says of each part, so that the rules for a record are gone through
once (`finds_template`, `finds_steps`).
-/

namespace PerpRollout.Rules

theorem gather_singleton (rule : Findings) : gather [rule] = rule := by
  cases rule with
  | ok found => exact congrArg Except.ok (List.append_nil found)
  | error e => rfl

theorem gather_append (xs ys : List Findings) :
    gather (xs ++ ys) = do
      let found ← gather xs
      let others ← gather ys
      return found ++ others := by
  induction xs with
  | nil =>
      cases h : gather ys with
      | ok others => exact h
      | error e => exact h
  | cons rule xs ih =>
      rw [List.cons_append, gather, gather, ih]
      cases rule <;> cases gather xs <;> cases gather ys <;>
        simp [bind, Except.bind, pure, Except.pure]

/-- Nothing is found when no rule finds anything. -/
theorem gather_eq_nil_iff {rules : List Findings} :
    gather rules = .ok [] ↔ ∀ rule ∈ rules, rule = .ok [] := by
  induction rules with
  | nil => simp [gather]
  | cons rule rules ih =>
      rw [List.forall_mem_cons, ← ih, gather]
      cases rule with
      | error e => simp [bind, Except.bind]
      | ok found =>
          cases gather rules with
          | error e => simp [bind, Except.bind]
          | ok others => simp [bind, Except.bind, pure, Except.pure]

/-- The findings are those of an environment, and at exactly these places. -/
structure Lists (env : Option String) (found : List Invalid) (broken : Place → Prop) : Prop where
  env_eq : ∀ e ∈ found, e.environment = env
  path : ∀ e ∈ found, ∃ p : Place, e.field = p.path
  mem_iff : ∀ p : Place, (∃ e ∈ found, e.field = p.path) ↔ broken p

/-- The rules break off unless `legible`, and then list the places that are broken. -/
structure Finds (env : Option String) (rules : List Findings) (legible : Prop)
    (broken : Place → Prop) : Prop where
  lists : legible → ∃ found, gather rules = .ok found ∧ Lists env found broken
  tooLong : ¬legible → ∃ e, gather rules = .error e ∧ e.IsTooLong

variable {env : Option String} {rules : List Findings} {legible legible' : Prop}
  {broken broken' : Place → Prop}

/-! ## Findings put together -/

theorem Lists.nil : Lists env [] fun _ => False where
  env_eq := by simp
  path := by simp
  mem_iff := by simp

theorem Lists.append {found found' : List Invalid} (h : Lists env found broken)
    (h' : Lists env found' broken') :
    Lists env (found ++ found') fun p => broken p ∨ broken' p where
  env_eq := List.forall_mem_append.mpr ⟨h.env_eq, h'.env_eq⟩
  path := List.forall_mem_append.mpr ⟨h.path, h'.path⟩
  mem_iff p := by
    rw [← h.mem_iff, ← h'.mem_iff]
    simp only [List.mem_append, or_and_right, exists_or]

/-- A finding under the path of a place. -/
theorem Lists.singleton (p : Place) (reason : Reason) :
    Lists env [⟨p.path, env, reason⟩] fun q => q = p where
  env_eq := by simp
  path := by simp
  mem_iff q := by
    simp only [List.mem_singleton, exists_eq_left]
    exact ⟨fun h => (Place.path_injective h).symm, fun h => by rw [h]⟩

theorem Lists.congr {found : List Invalid} (h : Lists env found broken)
    (hbroken : ∀ p, broken' p ↔ broken p) : Lists env found broken' where
  env_eq := h.env_eq
  path := h.path
  mem_iff p := (h.mem_iff p).trans (hbroken p).symm

theorem Finds.congr (h : Finds env rules legible broken) (hlegible : legible' ↔ legible)
    (hbroken : legible → ∀ p, broken' p ↔ broken p) : Finds env rules legible' broken' where
  lists hl := by
    obtain ⟨found, hfound, hlists⟩ := h.lists (hlegible.mp hl)
    exact ⟨found, hfound, hlists.congr (hbroken (hlegible.mp hl))⟩
  tooLong hl := h.tooLong fun hl' => hl (hlegible.mpr hl')

theorem Finds.nil : Finds env [] True fun _ => False where
  lists _ := ⟨[], rfl, .nil⟩
  tooLong h := absurd trivial h

theorem Finds.append {others : List Findings} (h : Finds env rules legible broken)
    (h' : Finds env others legible' broken') :
    Finds env (rules ++ others) (legible ∧ legible') fun p => broken p ∨ broken' p where
  lists hl := by
    obtain ⟨found, hfound, hlists⟩ := h.lists hl.1
    obtain ⟨found', hfound', hlists'⟩ := h'.lists hl.2
    refine ⟨found ++ found', ?_, hlists.append hlists'⟩
    rw [gather_append, hfound, hfound']
    rfl
  tooLong hl := by
    rw [gather_append]
    by_cases hleft : legible
    · obtain ⟨found, hfound, -⟩ := h.lists hleft
      obtain ⟨e, he, hlong⟩ := h'.tooLong fun hright => hl ⟨hleft, hright⟩
      refine ⟨e, ?_, hlong⟩
      rw [hfound, he]
      rfl
    · obtain ⟨e, he, hlong⟩ := h.tooLong hleft
      refine ⟨e, ?_, hlong⟩
      rw [he]
      rfl

theorem Finds.cons {rule : Findings} (h : Finds env [rule] legible broken)
    (h' : Finds env rules legible' broken') :
    Finds env (rule :: rules) (legible ∧ legible') fun p => broken p ∨ broken' p :=
  h.append h'

/-- Rules put together to one. -/
theorem Finds.gathered (h : Finds env rules legible broken) :
    Finds env [gather rules] legible broken where
  lists hl := (gather_singleton (gather rules)).symm ▸ h.lists hl
  tooLong hl := (gather_singleton (gather rules)).symm ▸ h.tooLong hl

/-- Rules in a row for each item of a list. -/
theorem Finds.flatMap {α : Type} {items : List α} {f : α → List Findings} {l : α → Prop}
    {b : α → Place → Prop} (h : ∀ a ∈ items, Finds env (f a) (l a) (b a)) :
    Finds env (items.flatMap f) (∀ a ∈ items, l a) fun p => ∃ a ∈ items, b a p := by
  induction items with
  | nil => exact Finds.nil.congr (by simp) (by simp)
  | cons a items ih =>
      have hrest := ih fun x hx => h x (List.mem_cons_of_mem a hx)
      rw [List.flatMap_cons]
      exact ((h a List.mem_cons_self).append hrest).congr (by simp) (by simp)

/-! ## Single rules -/

theorem finds_nothing (hlegible : legible) (hbroken : ∀ p, ¬broken p) :
    Finds env [.ok []] legible broken where
  lists _ := ⟨[], rfl, Lists.nil.congr fun p => by simp [hbroken p]⟩
  tooLong h := absurd hlegible h

theorem finds_of_isTooLong {e : Failure} (h : e.IsTooLong) (hlegible : ¬legible) :
    Finds env [.error e] legible broken where
  lists hl := absurd hl hlegible
  tooLong _ := ⟨e, rfl, h⟩

variable (env) in
theorem finds_finding {α : Type} {x : Except Failure α} {passes : Prop}
    (h : Check.Judges x legible passes) (p : Place) :
    Finds env [finding env p.path x] legible fun q => q = p ∧ ¬passes where
  lists hl := by
    rw [gather_singleton]
    by_cases hp : passes
    · obtain ⟨a, ha⟩ := h.pass hl hp
      refine ⟨[], ?_, Lists.nil.congr (by simp [hp])⟩
      rw [ha]
      rfl
    · obtain ⟨fault, hfault⟩ := h.fault hl hp
      refine ⟨_, ?_, (Lists.singleton p (.fault fault)).congr (by simp [hp])⟩
      rw [hfault]
      rfl
  tooLong hl := by
    obtain ⟨e, he, hlong⟩ := h.tooLong hl
    refine ⟨e, ?_, hlong⟩
    rw [gather_singleton, he]
    cases hlong <;> rfl

variable (env) in
theorem finds_findingIf (condition : Bool) (p : Place) (reason : Reason) :
    Finds env [findingIf condition env p.path reason]
      (condition = true → reason.isWritable = true) fun q => q = p ∧ condition = true where
  lists hl := by
    rw [gather_singleton, findingIf]
    cases condition with
    | false => exact ⟨[], rfl, Lists.nil.congr (by simp)⟩
    | true =>
        refine ⟨_, ?_, (Lists.singleton p reason).congr (by simp)⟩
        simp [hl rfl]
  tooLong hl := by
    rw [Classical.not_imp] at hl
    refine ⟨.integerTooLong, ?_, .shown⟩
    rw [gather_singleton, findingIf]
    simp [hl.1, hl.2]

end PerpRollout.Rules
