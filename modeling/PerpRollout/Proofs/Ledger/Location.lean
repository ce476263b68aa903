import PerpRollout.Ledger.Location
import PerpRollout.Proofs.Files.Growth

/-!
# A ledger in a file

What a file keeps as a ledger (`Ledger.Keeps`) is what opening it gives, with tables created
in it when there are none yet. Opening changes no row, and a ledger that is kept where it
was opened is the one that is opened next. Writing at any path apart from the ledger's
leaves it as it is.
-/

namespace PerpRollout.Ledger

variable {url : String} {path q : Path} {files files' : Files Content} {t : Tables}

/-- The ledger of the URL can be opened, and has these tables then. -/
def Opens (url : String) (files : Files Content) (t : Tables) : Prop :=
  (openAt url true files).1.result = .ok ⟨some t⟩

/-- At the path a ledger with these tables can be opened; they are empty when there is no
such file yet. -/
structure Keeps (path : Path) (files : Files Content) (t : Tables) : Prop where
  reaches : files.Reaches path
  content : ∃ l, ofContent (files.content? path.place) = .ok l ∧ l.tables?.getD {} = t

/-- What opening the ledger comes to, where its directory can be made. -/
theorem openAt_of_makeParent (location : (Url.ofText url).location = .file path)
    {made : Files Content} (hmade : files.makeParent path = .ok made) :
    openAt url true files =
      match fileOf made path with
      | .error e => (.fail e, made)
      | .ok names =>
        match ofContent (made.content? names) with
        | .error e => (.fail e, made)
        | .ok l => (⟨l.create.1 ++ [openedLine (.ofText url)], .ok l.create.2⟩,
            made.put names (.ledger l.create.2)) := by
  unfold openAt
  rw [location]
  dsimp only
  rw [hmade]
  rfl

theorem Opens.keeps (location : (Url.ofText url).location = .file path)
    (h : Opens url files t) : Keeps path files t := by
  unfold Opens at h
  cases hmade : files.makeParent path with
  | error fault =>
      unfold openAt at h
      simp only [location, hmade] at h
      cases h
  | ok made =>
      rw [openAt_of_makeParent location hmade] at h
      unfold fileOf at h
      cases htarget : made.target path with
      | error fault =>
          rw [htarget] at h
          cases h
      | ok names =>
          obtain ⟨-, rfl⟩ := Files.eq_place_of_target htarget
          rw [htarget] at h
          simp only [(Files.makes_of_makeParent hmade).contents] at h
          cases hcontent : ofContent (files.content? path.place) with
          | error e =>
              rw [hcontent] at h
              cases h
          | ok l =>
              rw [hcontent] at h
              cases h
              exact ⟨⟨made, hmade, htarget⟩, l, hcontent, rfl⟩

/-- A ledger opens with the tables that the file keeps, and can be written to then. -/
theorem Keeps.openAt (location : (Url.ofText url).location = .file path)
    (keeps : Keeps path files t) :
    ∃ lines files', Ledger.openAt url true files = (⟨lines, .ok ⟨some t⟩⟩, files') ∧
      Files.Grows files files' path ∧ files'.target path = .ok path.place ∧
      Keeps path files' t := by
  obtain ⟨reaches, l, hcontent, rfl⟩ := keeps
  obtain ⟨made, hmade, htarget⟩ := reaches
  have grows := Files.grows_of_write hmade (Content.ledger l.create.2)
  have reaches := grows.reaches_self ⟨made, hmade, htarget⟩
  refine ⟨l.create.1 ++ [openedLine (.ofText url)], _, ?_, grows,
    Files.target_put _ _ htarget, reaches, l.create.2, ?_, rfl⟩
  · rw [openAt_of_makeParent location hmade, fileOf, htarget]
    simp only [(Files.makes_of_makeParent hmade).contents, hcontent]
    rfl
  · rw [Files.content?_put_self]
    rfl

theorem Keeps.opens (location : (Url.ofText url).location = .file path)
    (keeps : Keeps path files t) : Opens url files t := by
  obtain ⟨lines, files', hopen, -⟩ := keeps.openAt location
  rw [Opens, hopen]

/-- A ledger is kept where it was opened. -/
theorem Keeps.keep (location : (Url.ofText url).location = .file path)
    (keeps : Keeps path files t) (target : files.target path = .ok path.place) (t' : Tables) :
    Files.Grows files (Ledger.keep url ⟨some t'⟩ files) path ∧
      Keeps path (Ledger.keep url ⟨some t'⟩ files) t' := by
  have grows := Files.grows_of_put files path (Content.ledger ⟨some t'⟩)
  unfold Ledger.keep
  simp only [location, target]
  refine ⟨grows, grows.reaches_self keeps.reaches, ⟨some t'⟩, ?_, rfl⟩
  rw [Files.content?_put_self]
  rfl

/-- What is written apart from the ledger leaves it as it is. -/
theorem Keeps.of_grows (keeps : Keeps path files t) (grows : Files.Grows files files' q)
    (apart : Path.Apart q path) : Keeps path files' t := by
  refine ⟨grows.reaches apart keeps.reaches, ?_⟩
  rw [grows.contents path.place (Ne.symm apart.place)]
  exact keeps.content

end PerpRollout.Ledger
