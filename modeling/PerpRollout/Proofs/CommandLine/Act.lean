import PerpRollout.CommandLine.Run
import PerpRollout.Proofs.Outcome

/-!
# What actions in a directory ensure

An action may fail after it has changed files, so two things are said of the files that it
leaves: what holds of them when there is a result, and what holds of them when there is none
(`Act.Ensures`). An action made of steps ensures what its steps do, one after the other
(`Act.Ensures.bind`), and a step that looks at no files changes none (`Act.ensures_lift`).
-/

namespace PerpRollout.CommandLine.Act

variable {α β : Type} {x : Act α} {f : α → Act β} {pre pre' fails fails' : Files Content → Prop}
  {mid post post' : α → Files Content → Prop} {final : β → Files Content → Prop}

/-- From files with `pre` the action comes to a result and files with `post`, or it fails and
leaves files with `fails`. -/
def Ensures (x : Act α) (pre : Files Content → Prop) (post : α → Files Content → Prop)
    (fails : Files Content → Prop) : Prop :=
  ∀ files, pre files →
    match (x files).1.result with
    | .ok a => post a (x files).2
    | .error _ => fails (x files).2

theorem Ensures.bind (hx : x.Ensures pre mid fails) (hf : ∀ a, (f a).Ensures (mid a) final fails) :
    (x >>= f).Ensures pre final fails := by
  intro files hpre
  have first := hx files hpre
  change match (Act.bind x f files).1.result with
    | .ok b => final b (Act.bind x f files).2
    | .error _ => fails (Act.bind x f files).2
  unfold Act.bind
  rcases hrun : x files with ⟨⟨lines, result⟩, files'⟩
  rw [hrun] at first
  cases result with
  | error e => exact first
  | ok a => exact hf a files' first

theorem Ensures.mono (hx : x.Ensures pre post fails)
    (hpost : ∀ a files, post a files → post' a files)
    (hfails : ∀ files, fails files → fails' files) : x.Ensures pre post' fails' := by
  intro files h
  have hx := hx files h
  cases hresult : (x files).1.result with
  | error e =>
      rw [hresult] at hx
      exact hfails _ hx
  | ok a =>
      rw [hresult] at hx
      exact hpost a _ hx

/-- What is known before the action starts, whatever the files are, can be used to say what it
ensures. -/
theorem Ensures.of_known {known : Prop} (hpre : ∀ files, pre files → known ∧ pre' files)
    (hx : known → x.Ensures pre' post fails) : x.Ensures pre post fails := by
  intro files h
  obtain ⟨hknown, h⟩ := hpre files h
  exact hx hknown files h

theorem ensures_lift (x : Logged α) (holds : Files Content → Prop) :
    Ensures (liftM x) holds (fun a files => x.result = .ok a ∧ holds files) fun files =>
      (∃ e, x.result = .error e) ∧ holds files := by
  intro files h
  change match x.result with
    | .ok a => x.result = .ok a ∧ holds files
    | .error _ => (∃ e, x.result = .error e) ∧ holds files
  cases hresult : x.result with
  | error e => exact ⟨⟨e, rfl⟩, h⟩
  | ok a => exact ⟨rfl, h⟩

theorem ensures_pure (a : α) (holds : Files Content → Prop) :
    Ensures (pure a) holds (fun b files => b = a ∧ holds files) fails :=
  fun _ h => ⟨rfl, h⟩

/-- A step that looks at no files comes first: what follows starts on the same files. -/
theorem Ensures.lift_bind {x : Logged α}
    (hok : ∀ a, x.result = .ok a → (f a).Ensures pre final fails)
    (herror : ∀ e, x.result = .error e → ∀ files, pre files → fails files) :
    Ensures (liftM x >>= f) pre final fails := by
  have hx : Ensures (liftM x) pre (fun a files => x.result = .ok a ∧ pre files) fails := by
    refine (ensures_lift x pre).mono (fun _ _ h => h) ?_
    rintro files ⟨⟨e, he⟩, h⟩
    exact herror e he files h
  exact hx.bind fun a => Ensures.of_known (fun _ h => h) (hok a)

/-- A step with a known result comes first. -/
theorem Ensures.lift_bind_of_ok {x : Logged α} {a : α} (hx : x.result = .ok a)
    (hf : (f a).Ensures pre final fails) : Ensures (liftM x >>= f) pre final fails := by
  refine Ensures.lift_bind (fun b hb => ?_) fun e he => ?_
  · rw [hx] at hb
    cases hb
    exact hf
  · rw [hx] at he
    cases he

/-! ## Actions that leave things as they are -/

/-- What holds of the files before the action holds after it, with a result or without. -/
def Preserves (x : Act α) (holds : Files Content → Prop) : Prop :=
  x.Ensures holds (fun _ => holds) holds

theorem Preserves.bind {holds : Files Content → Prop} (hx : x.Preserves holds)
    (hf : ∀ a, (f a).Preserves holds) : (x >>= f).Preserves holds :=
  Ensures.bind hx hf

theorem preserves_lift (x : Logged α) (holds : Files Content → Prop) :
    Preserves (liftM x) holds :=
  (ensures_lift x holds).mono (fun _ _ h => h.2) fun _ h => h.2

end PerpRollout.CommandLine.Act
