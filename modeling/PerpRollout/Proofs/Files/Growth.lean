import PerpRollout.Proofs.Files

/-!
# What writing at a path does to other paths

A path that leads to a file leads to the place that its names spell (`Path.place`), and the
directories made for it are those that the names pass (`Path.way`). So all that writing at a
path does to the files, and to what is found at other paths, is known from the path alone
(`Files.Grows`): a file at another place is read as before, and a place that could be
written to still can be, unless one of the two paths passes through the end of the other.
-/

namespace PerpRollout

namespace Path

/-- The place one name further. -/
def advance (place : List String) (name : String) : List String :=
  if name = ".." then place.dropLast else place ++ [name]

/-- The place that the names of the path spell, from the current directory on. -/
def place (p : Path) : List String :=
  p.names.foldl advance []

/-- The places that names pass, from a place on. -/
def passed : List String → List String → List (List String)
  | _, [] => []
  | place, name :: rest =>
    if name = ".." then passed place.dropLast rest
    else (place ++ [name]) :: passed (place ++ [name]) rest

/-- The directories that are made for the path. -/
def way (p : Path) : List (List String) :=
  if p.root.isEmpty then passed [] p.parent.names else []

/-- Neither path ends where the other one ends or passes. -/
structure Apart (p q : Path) : Prop where
  place : p.place ≠ q.place
  left : p.place ∉ q.way
  right : q.place ∉ p.way

instance (p q : Path) : Decidable (Apart p q) :=
  decidable_of_iff (p.place ≠ q.place ∧ p.place ∉ q.way ∧ q.place ∉ p.way)
    ⟨fun h => ⟨h.1, h.2.1, h.2.2⟩, fun h => ⟨h.1, h.2, h.3⟩⟩

theorem passed_of_all_up {names : List String} (h : names.all (· = "..") = true)
    (place : List String) : passed place names = [] := by
  induction names generalizing place with
  | nil => rfl
  | cons name names ih =>
      rw [List.all_cons, Bool.and_eq_true] at h
      rw [passed, if_pos (by simpa using h.1)]
      exact ih h.2 _

end Path

namespace Files

variable {α : Type} {f f' : Files α} {p q : Path}

/-! ## The place that a path spells -/

theorem eq_outside_of_follow {names : List String} {goal : Place}
    (h : f.follow .outside names = .ok goal) : goal = .outside := by
  induction names with
  | nil =>
      cases h
      rfl
  | cons name names ih =>
      rw [follow, enter, ok_bind] at h
      simp only at h
      split at h
      · exact ih h
      · cases h

theorem eq_advance_of_follow {names start goal : List String}
    (h : f.follow (.at start) names = .ok (.at goal)) : goal = names.foldl Path.advance start := by
  induction names generalizing start with
  | nil =>
      cases h
      rfl
  | cons name names ih =>
      rw [follow] at h
      obtain ⟨next, hnext, h⟩ := bind_eq_ok_iff.mp h
      have hstart : next = .at start := by
        simp only [enter] at hnext
        split at hnext
        · cases hnext
          rfl
        · split at hnext
          · cases hnext
          · cases hnext
      subst hstart
      simp only at h
      rw [List.foldl_cons, Path.advance]
      split at h
      next hup =>
        rw [if_pos hup]
        split at h
        · cases eq_outside_of_follow h
        · exact ih h
      next hup =>
        rw [if_neg hup]
        split at h
        · cases h
        · exact ih h

/-- A path with a place below the current directory starts there, and spells the place. -/
theorem eq_place_of_locate {names : List String} (h : f.locate p = .ok (.at names)) :
    p.root.isEmpty = true ∧ names = p.place := by
  unfold locate at h
  split at h
  · cases h
  · split at h
    next hroot => exact ⟨hroot, eq_advance_of_follow h⟩
    · split at h
      · cases h
      · cases h

/-! ## The directories that are made -/

theorem content?_addDirectory (f : Files α) (names others : List String) :
    (f.addDirectory names).content? others = f.content? others := by
  unfold addDirectory
  split <;> rfl

theorem isDirectory_addDirectory (f : Files α) (names others : List String) :
    (f.addDirectory names).isDirectory others = true ↔
      f.isDirectory others = true ∨ others = names := by
  unfold addDirectory
  split
  next h =>
    constructor
    · exact .inl
    · intro hothers
      rcases hothers with hothers | rfl
      · exact hothers
      · exact h
  next =>
    simp only [isDirectory, Bool.or_eq_true, List.contains_eq_mem, decide_eq_true_eq,
      List.mem_append, List.mem_singleton, or_assoc]

/-- What making directories does: it leaves the files alone, and adds the directories given,
none of which is a file. -/
structure Makes (f f' : Files α) (way : List (List String)) : Prop where
  contents : ∀ d, f'.content? d = f.content? d
  directories : ∀ d, f'.isDirectory d = true ↔ f.isDirectory d = true ∨ d ∈ way
  clear : ∀ d ∈ way, f.content? d = none

theorem makes_nothing (f : Files α) : Makes f f [] where
  contents _ := rfl
  directories _ := by simp
  clear := by simp

theorem makes_of_makeFrom {place names : List String} (h : f.makeFrom place names = .ok f') :
    Makes f f' (Path.passed place names) := by
  induction names generalizing f place with
  | nil =>
      cases h
      exact makes_nothing _
  | cons name names ih =>
      rw [makeFrom] at h
      rw [Path.passed]
      split at h
      next hup =>
        rw [if_pos hup]
        split at h
        · cases h
        · exact ih h
      next hup =>
        rw [if_neg hup]
        split at h
        · cases h
        · simp only at h
          split at h
          · cases h
          next hnone =>
            have hrest := ih h
            constructor
            · intro d
              rw [hrest.contents, content?_addDirectory]
            · intro d
              rw [hrest.directories, isDirectory_addDirectory, List.mem_cons, or_assoc]
            · intro d hd
              rcases List.mem_cons.mp hd with rfl | hd
              · simpa using hnone
              · have hclear := hrest.clear d hd
                rw [content?_addDirectory] at hclear
                exact hclear

/-- Directories that could be made can be made again where no file stands in the way. -/
theorem exists_makeFrom {place names : List String} {made : Files α}
    (h : f.makeFrom place names = .ok made)
    (clear : ∀ d ∈ Path.passed place names, f'.content? d = none) :
    ∃ made', f'.makeFrom place names = .ok made' := by
  induction names generalizing f f' place with
  | nil => exact ⟨f', rfl⟩
  | cons name names ih =>
      rw [makeFrom] at h ⊢
      rw [Path.passed] at clear
      split at h
      next hup =>
        rw [if_pos hup] at clear ⊢
        split at h
        · cases h
        next hplace =>
          rw [if_neg hplace]
          exact ih h clear
      next hup =>
        rw [if_neg hup] at clear ⊢
        split at h
        · cases h
        next hlong =>
          simp only at h ⊢
          rw [if_neg hlong]
          split at h
          · cases h
          · rw [clear _ List.mem_cons_self, if_neg (by simp)]
            apply ih h
            intro d hd
            rw [content?_addDirectory]
            exact clear d (List.mem_cons_of_mem _ hd)

theorem makes_of_makeParent (h : f.makeParent p = .ok f') : Makes f f' p.way := by
  unfold makeParent at h
  unfold Path.way
  split at h
  next hroot =>
    cases h
    rw [if_neg (by simpa using hroot)]
    exact makes_nothing _
  next hroot =>
    rw [if_pos (by simpa using hroot)]
    split at h
    · cases h
    · split at h
      next hup =>
        cases h
        rw [Path.passed_of_all_up hup]
        exact makes_nothing _
      next => exact makes_of_makeFrom h

theorem exists_makeParent {made : Files α} (h : f.makeParent p = .ok made)
    (clear : ∀ d ∈ p.way, f'.content? d = none) : ∃ made', f'.makeParent p = .ok made' := by
  unfold makeParent at h ⊢
  unfold Path.way at clear
  split at h
  next hroot => exact ⟨f', by rw [if_pos hroot]⟩
  next hroot =>
    rw [if_neg hroot]
    rw [if_pos (by simpa using hroot)] at clear
    split at h
    · cases h
    next hlong =>
      rw [if_neg hlong]
      split at h
      next hup => exact ⟨f', by rw [if_pos hup]⟩
      next hup =>
        rw [if_neg hup]
        exact exists_makeFrom h clear

/-! ## Writing at one path -/

/-- The files `f'` come from `f` by writing at the path, nothing or more. -/
structure Grows (f f' : Files α) (p : Path) : Prop where
  contents : ∀ d, d ≠ p.place → f'.content? d = f.content? d
  kept : ∀ d, f.isDirectory d = true → f'.isDirectory d = true
  made : ∀ d, f'.isDirectory d = true → f.isDirectory d = true ∨ d ∈ p.way ∧ f.content? d = none

theorem target_put {names : List String} (others : List String) (a : α)
    (h : f.target p = .ok names) : (f.put others a).target p = .ok names := by
  obtain ⟨hlocate, hdir⟩ := target_eq_ok_iff.mp h
  exact target_eq_ok_iff.mpr ⟨locate_put others a hlocate, by rw [isDirectory_put, hdir]⟩

theorem eq_place_of_target {names : List String} (h : f.target p = .ok names) :
    p.root.isEmpty = true ∧ names = p.place :=
  eq_place_of_locate (target_eq_ok_iff.mp h).1

theorem grows_of_write {made : Files α} (h : f.makeParent p = .ok made) (a : α) :
    Grows f (made.put p.place a) p := by
  have makes := makes_of_makeParent h
  constructor
  · intro d hd
    rw [content?_put_of_ne made hd a, makes.contents]
  · intro d hd
    rw [isDirectory_put]
    exact (makes.directories d).mpr (.inl hd)
  · intro d hd
    rw [isDirectory_put] at hd
    rcases (makes.directories d).mp hd with hd | hd
    · exact .inl hd
    · exact .inr ⟨hd, makes.clear d hd⟩

theorem grows_of_put (f : Files α) (p : Path) (a : α) : Grows f (f.put p.place a) p where
  contents d hd := content?_put_of_ne f hd a
  kept d hd := by
    rw [isDirectory_put]
    exact hd
  made d hd := by
    rw [isDirectory_put] at hd
    exact .inl hd

/-- A file whose content is kept is read as before, where directories are only added, and none
in its place. -/
theorem read_of_kept {a : α} (h : f.read p = .ok a)
    (kept : ∀ d, f.isDirectory d = true → f'.isDirectory d = true)
    (made : f'.isDirectory p.place = true →
      f.isDirectory p.place = true ∨ f.content? p.place = none)
    (same : f'.content? p.place = f.content? p.place) : f'.read p = .ok a := by
  unfold Files.read at h ⊢
  obtain ⟨place, hplace, h⟩ := bind_eq_ok_iff.mp h
  cases place with
  | outside => cases h
  | «at» names =>
      obtain ⟨-, rfl⟩ := eq_place_of_locate hplace
      rw [locate_mono kept hplace, ok_bind]
      simp only at h ⊢
      split at h
      · cases h
      next hdir =>
        have hdir' : ¬f'.isDirectory p.place = true := by
          intro hd
          rcases made hd with hd | hd
          · exact hdir hd
          · rw [hd] at h
            cases h
        rw [if_neg hdir', same]
        exact h

theorem Makes.read {way : List (List String)} (makes : Makes f f' way) {a : α}
    (h : f.read p = .ok a) : f'.read p = .ok a :=
  read_of_kept h (fun d hd => (makes.directories d).mpr (.inl hd))
    (fun hd => ((makes.directories _).mp hd).imp_right (makes.clear _)) (makes.contents _)

/-- A file is read as before when something is written at another place. -/
theorem Grows.read (grows : Grows f f' q) {a : α} (h : f.read p = .ok a)
    (hne : p.place ≠ q.place) : f'.read p = .ok a :=
  read_of_kept h grows.kept (fun hd => (grows.made _ hd).imp_right And.right)
    (grows.contents _ hne)

/-- A file can be written at the path, in a directory made for it. -/
def Reaches (f : Files α) (p : Path) : Prop :=
  ∃ made, f.makeParent p = .ok made ∧ made.target p = .ok p.place

theorem reaches_mono (h : f.Reaches p) (kept : ∀ d, f.isDirectory d = true → f'.isDirectory d = true)
    (clear : ∀ d ∈ p.way, f.content? d = none → f'.content? d = none)
    (free : f'.isDirectory p.place = true → f.isDirectory p.place = true ∨ p.place ∈ p.way) :
    f'.Reaches p := by
  obtain ⟨made, hmade, htarget⟩ := h
  have makes := makes_of_makeParent hmade
  obtain ⟨hlocate, hdir⟩ := target_eq_ok_iff.mp htarget
  have hno : ¬(f.isDirectory p.place = true ∨ p.place ∈ p.way) := by
    rw [← makes.directories, hdir]
    exact Bool.false_ne_true
  obtain ⟨made', hmade'⟩ := exists_makeParent hmade fun d hd => clear d hd (makes.clear d hd)
  have makes' := makes_of_makeParent hmade'
  refine ⟨made', hmade', target_eq_ok_iff.mpr ⟨locate_mono ?_ hlocate, ?_⟩⟩
  · intro d hd
    rcases (makes.directories d).mp hd with hd | hd
    · exact (makes'.directories d).mpr (.inl (kept d hd))
    · exact (makes'.directories d).mpr (.inr hd)
  · rw [Bool.eq_false_iff]
    intro hd
    rcases (makes'.directories p.place).mp hd with hd | hd
    · exact hno (free hd)
    · exact hno (.inr hd)

theorem Reaches.place_not_mem_way (h : f.Reaches p) : p.place ∉ p.way := by
  obtain ⟨made, hmade, htarget⟩ := h
  intro hd
  have hdir := ((makes_of_makeParent hmade).directories p.place).mpr (.inr hd)
  rw [(target_eq_ok_iff.mp htarget).2] at hdir
  cases hdir

/-- A place that could be written to still can be after writing at a path apart from it. -/
theorem Grows.reaches (grows : Grows f f' q) (apart : Path.Apart q p) (h : f.Reaches p) :
    f'.Reaches p := by
  refine reaches_mono h grows.kept ?_ ?_
  · intro d hd hnone
    have hne : d ≠ q.place := by
      intro heq
      exact apart.left (heq ▸ hd)
    rw [grows.contents d hne, hnone]
  · intro hd
    rcases grows.made p.place hd with hd | ⟨hd, -⟩
    · exact .inl hd
    · exact absurd hd apart.right

/-- A place that was written to can be written to again. -/
theorem Grows.reaches_self (grows : Grows f f' p) (h : f.Reaches p) : f'.Reaches p := by
  refine reaches_mono h grows.kept ?_ ?_
  · intro d hd hnone
    have hne : d ≠ p.place := by
      intro heq
      exact h.place_not_mem_way (heq ▸ hd)
    rw [grows.contents d hne, hnone]
  · intro hd
    rcases grows.made p.place hd with hd | ⟨hd, -⟩
    · exact .inl hd
    · exact .inr hd

end Files

end PerpRollout
