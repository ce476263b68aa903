import PerpRollout.Content
import PerpRollout.Proofs.Outcome

/-!
# A file that was written is read back

Giving a file a content leaves the directories alone, so a path leads where it led
before (`Files.locate_put`), and what is read there is what was written
(`Files.read_of_write`).
-/

namespace PerpRollout

namespace Files

variable {α : Type} {f f' : Files α}

theorem isDirectory_put (f : Files α) (names : List String) (a : α) (others : List String) :
    (f.put names a).isDirectory others = f.isDirectory others := by
  unfold put
  split <;> rfl

/-! ## Paths keep leading where they led -/

theorem enter_mono (dirs : ∀ d, f.isDirectory d = true → f'.isDirectory d = true)
    {place next : Place} (h : f.enter place = .ok next) : f'.enter place = .ok next := by
  cases place with
  | outside => exact h
  | «at» here =>
      simp only [enter] at h ⊢
      split at h
      next hdir => rw [if_pos (dirs here hdir), h]
      next =>
        split at h
        · cases h
        · cases h

theorem follow_mono (dirs : ∀ d, f.isDirectory d = true → f'.isDirectory d = true)
    {path : List String} {place goal : Place} (h : f.follow place path = .ok goal) :
    f'.follow place path = .ok goal := by
  induction path generalizing place with
  | nil => exact h
  | cons name path ih =>
      rw [follow] at h ⊢
      obtain ⟨next, hnext, h⟩ := bind_eq_ok_iff.mp h
      rw [enter_mono dirs hnext, ok_bind]
      cases next with
      | outside =>
          simp only at h ⊢
          split at h
          next hup =>
            rw [if_pos hup]
            exact ih h
          next => cases h
      | «at» here =>
          simp only at h ⊢
          split at h
          next hup =>
            rw [if_pos hup]
            exact ih h
          next hup =>
            rw [if_neg hup]
            split at h
            next => cases h
            next hlong =>
              rw [if_neg hlong]
              exact ih h

/-- With more directories a path still leads where it led. -/
theorem locate_mono (dirs : ∀ d, f.isDirectory d = true → f'.isDirectory d = true) {p : Path}
    {goal : Place} (h : f.locate p = .ok goal) : f'.locate p = .ok goal := by
  unfold locate at h ⊢
  split at h
  next => cases h
  next hlong =>
    rw [if_neg hlong]
    split at h
    next hroot =>
      rw [if_pos hroot]
      exact follow_mono dirs h
    next hroot =>
      rw [if_neg hroot]
      exact h

theorem locate_put (names : List String) (a : α) {p : Path} {goal : Place}
    (h : f.locate p = .ok goal) : (f.put names a).locate p = .ok goal := by
  apply locate_mono _ h
  intro d hd
  rw [isDirectory_put]
  exact hd

/-- Writing makes the directory, and puts the content where the path leads then. -/
theorem write_eq_ok_iff {p : Path} {a : α} :
    f.write p a = .ok f' ↔ ∃ made names, f.makeParent p = .ok made ∧
      made.target p = .ok names ∧ f' = made.put names a := by
  unfold write
  rw [bind_eq_ok_iff]
  constructor
  · intro h
    obtain ⟨made, hmade, h⟩ := h
    obtain ⟨names, hnames, h⟩ := bind_eq_ok_iff.mp h
    cases h
    exact ⟨made, names, hmade, hnames, rfl⟩
  · intro h
    obtain ⟨made, names, hmade, hnames, rfl⟩ := h
    exact ⟨made, hmade, bind_eq_ok_iff.mpr ⟨names, hnames, rfl⟩⟩

theorem target_eq_ok_iff {p : Path} {names : List String} :
    f.target p = .ok names ↔ f.locate p = .ok (.at names) ∧ f.isDirectory names = false := by
  unfold target
  rw [bind_eq_ok_iff]
  constructor
  · intro h
    obtain ⟨place, hplace, h⟩ := h
    cases place with
    | outside => cases h
    | «at» here =>
        simp only at h
        split at h
        next => cases h
        next hdir =>
          cases h
          exact ⟨hplace, by simpa using hdir⟩
  · intro h
    exact ⟨.at names, h.1, by simp [h.2]⟩

/-- What is read at a path is what was written there. -/
theorem read_of_write {p : Path} {a : α} (h : f.write p a = .ok f') : f'.read p = .ok a := by
  obtain ⟨made, names, -, htarget, rfl⟩ := write_eq_ok_iff.mp h
  obtain ⟨hlocate, hdir⟩ := target_eq_ok_iff.mp htarget
  rw [read, locate_put names a hlocate, ok_bind]
  simp [isDirectory_put, hdir, content?_put_self]

end Files

namespace Content

/-- The text of a file is the text that was written to it. -/
theorem text?_ofText (s : String) : (ofText s).text? = some s := by
  change String.fromUTF8? s.toByteArray = some s
  rw [String.fromUTF8?, dif_pos s.isValidUTF8]
  rfl

end Content

end PerpRollout
