import PerpRollout.Proofs.Files.Growth
import PerpRollout.Proofs.Registry.File

/-!
# What a failed save leaves

A registry file is emptied before the registry is written to it, and writing stops at the
first integer that is too long to be written. So a save can fail in two ways: before the file
is opened, and then no file is touched, or on such an integer, and then the file holds the
beginning of the text in place of what was there (`save_of_error`).
-/

namespace PerpRollout

/-! ## Text that is written in part -/

namespace Json

/-- What is written of a value with an integer that is too long: all that stands before it. -/
theorem exists_render_of_not_isWritable (l : Layout) {v : Json} (h : v.isWritable = false) :
    ∃ before n after, pieces l 0 v = before ++ .integer n :: after ∧
      (∀ p ∈ before, p.isWritable = true) ∧ Numeral.isWritable n = false ∧
      v.render l = (String.ofList (before.flatMap Piece.chars), false) := by
  have hall := all_isWritable_pieces l 0 v
  rw [h] at hall
  obtain ⟨first, hfirst⟩ : ∃ first, (pieces l 0 v).find? (fun p => !p.isWritable) = some first := by
    rw [← Option.isSome_iff_exists, List.find?_isSome]
    obtain ⟨p, hp, hno⟩ := List.all_eq_false.mp hall
    exact ⟨p, hp, by simpa using hno⟩
  obtain ⟨hno, before, after, hpieces, hbefore⟩ := List.find?_eq_some_iff_append.mp hfirst
  rw [Bool.not_eq_true'] at hno
  simp only [Bool.not_not] at hbefore
  cases first with
  | text cs => cases hno
  | integer n =>
      refine ⟨before, n, after, hpieces, hbefore, hno, ?_⟩
      rw [render, write, hall, hpieces, List.takeWhile_append_of_pos hbefore,
        List.takeWhile_cons_of_neg (by simp [hno]), List.append_nil]

end Json

namespace Registry

variable {r : Registry} {path : Path} {files : Files Content} {e : Failure}

/-! ## The text of a registry -/

theorem isWritable_toJson_iff :
    r.toJson.isWritable = true ↔ ∀ e ∈ r.entries, e.edition.record.IsWritable := by
  rw [toJson, Json.isWritable, Json.membersWritable_iff, List.forall_mem_map]
  exact forall₂_congr fun e _ => ⟨Record.isWritable_of_toJson, Record.isWritable_toJson⟩

theorem isWritable_toJson_eq_false_iff :
    r.toJson.isWritable = false ↔ ∃ e ∈ r.entries, ¬e.edition.record.IsWritable := by
  rw [← Bool.not_eq_true, isWritable_toJson_iff]
  simp only [not_forall, exists_prop]

theorem fileText_snd (r : Registry) : r.fileText.2 = r.toJson.isWritable := by
  have hrender : (r.toJson.render .indented).2 = r.toJson.isWritable :=
    Json.all_isWritable_pieces .indented 0 r.toJson
  rw [fileText, ← hrender]
  split
  next h => rw [h]
  next h => rw [h]

/-- What is written of a registry with an integer that is too long. -/
theorem exists_fileText_of_not_isWritable (h : r.toJson.isWritable = false) :
    ∃ before n after, Json.pieces .indented 0 r.toJson = before ++ .integer n :: after ∧
      (∀ p ∈ before, p.isWritable = true) ∧ Numeral.isWritable n = false ∧
      r.fileText = (String.ofList (before.flatMap Json.Piece.chars), false) := by
  obtain ⟨before, n, after, hpieces, hbefore, hn, hrender⟩ :=
    Json.exists_render_of_not_isWritable .indented h
  exact ⟨before, n, after, hpieces, hbefore, hn, by rw [fileText, hrender]⟩

/-! ## Saving -/

/-- A save stops before the file is opened, where there is no way to it, or writes to it. -/
theorem save_cases (r : Registry) (path : Path) (files : Files Content) :
    (¬(path.hasNull = false ∧ files.Reaches path) ∧
      (∃ e, (r.save path files).1.result = .error e ∧ e ≠ .integerTooLong) ∧
      ∃ way, Files.Makes files (r.save path files).2 way) ∨
    ((path.hasNull = false ∧ files.Reaches path) ∧
      (r.save path files).1.result = (if r.fileText.2 then .ok () else .error .integerTooLong) ∧
      files.write path (.ofText r.fileText.1) = .ok (r.save path files).2) := by
  cases hnull : path.hasNull with
  | true =>
      have hsave : r.save path files = (.fail .nullInPath, files) := by simp [save, hnull]
      rw [hsave]
      exact .inl ⟨by simp, ⟨_, rfl, by simp⟩, [], Files.makes_nothing files⟩
  | false =>
      cases hmade : files.makeParent path with
      | error fault =>
          have hsave : r.save path files = (.fail (.unwritable fault), files) := by
            simp [save, hnull, hmade]
          rw [hsave]
          refine .inl ⟨?_, ⟨_, rfl, by simp⟩, [], Files.makes_nothing files⟩
          rintro ⟨-, made, hreach, -⟩
          cases hmade.symm.trans hreach
      | ok made =>
          cases htarget : made.target path with
          | error fault =>
              have hsave : r.save path files = (.fail (.unwritable fault), made) := by
                simp [save, hnull, hmade, htarget]
              rw [hsave]
              refine .inl ⟨?_, ⟨_, rfl, by simp⟩, path.way, Files.makes_of_makeParent hmade⟩
              rintro ⟨-, made', hreach, htarget'⟩
              cases hmade.symm.trans hreach
              cases htarget.symm.trans htarget'
          | ok names =>
              obtain ⟨-, rfl⟩ := Files.eq_place_of_target htarget
              have hwrite (a : Content) : files.write path a = .ok (made.put path.place a) :=
                Files.write_eq_ok_iff.mpr ⟨made, path.place, hmade, htarget, rfl⟩
              refine .inr ⟨⟨rfl, made, hmade, htarget⟩, ?_⟩
              rw [hwrite]
              cases hcomplete : r.fileText.2 <;> simp [save, hnull, hmade, htarget, hcomplete]

/-- A save that fails before the file is opened leaves all files as they were. It fails later
exactly when a record has an integer that is too long to be written; then the file holds what
stands before the first such integer in place of what was there, and the other files are as
they were. -/
theorem save_of_error (h : (r.save path files).1.result = .error e) :
    (e ≠ .integerTooLong → ∀ p a, files.read p = .ok a → (r.save path files).2.read p = .ok a) ∧
    (e = .integerTooLong ↔ path.hasNull = false ∧ files.Reaches path ∧
      ∃ entry ∈ r.entries, ¬entry.edition.record.IsWritable) ∧
    (e = .integerTooLong →
      (∀ p a, p.place ≠ path.place → files.read p = .ok a →
        (r.save path files).2.read p = .ok a) ∧
      ∃ before n after, Json.pieces .indented 0 r.toJson = before ++ .integer n :: after ∧
        (∀ p ∈ before, p.isWritable = true) ∧ Numeral.isWritable n = false ∧
        (r.save path files).2.read path =
          .ok (.ofText (String.ofList (before.flatMap Json.Piece.chars)))) := by
  rw [← isWritable_toJson_eq_false_iff]
  rcases save_cases r path files with
    ⟨hclosed, ⟨e', he', hne⟩, way, makes⟩ | ⟨hopen, hresult, hwrite⟩
  · cases h.symm.trans he'
    refine ⟨fun _ p a hread => makes.read hread, ?_, fun heq => absurd heq hne⟩
    exact ⟨fun heq => absurd heq hne, fun ⟨hnull, hreach, _⟩ => absurd ⟨hnull, hreach⟩ hclosed⟩
  · rw [h, fileText_snd] at hresult
    cases hcomplete : r.toJson.isWritable with
    | true =>
        rw [hcomplete] at hresult
        cases hresult
    | false =>
        rw [hcomplete] at hresult
        cases hresult
        obtain ⟨before, n, after, hpieces, hbefore, hn, htext⟩ :=
          exists_fileText_of_not_isWritable hcomplete
        rw [htext] at hwrite
        refine ⟨fun hne => absurd rfl hne, ⟨fun _ => ⟨hopen.1, hopen.2, rfl⟩, fun _ => rfl⟩,
          fun _ => ⟨?_, ?_⟩⟩
        · intro p a hplace hread
          obtain ⟨made, names, hmade, htarget, hfiles⟩ := Files.write_eq_ok_iff.mp hwrite
          obtain ⟨-, rfl⟩ := Files.eq_place_of_target htarget
          rw [hfiles]
          exact (Files.grows_of_write hmade _).read hread hplace
        · exact ⟨before, n, after, hpieces, hbefore, hn, Files.read_of_write hwrite⟩

/-- A record with the least integer that is too long to be written. -/
def wide : Record :=
  { escaping with priceFeed := ⟨(10 ^ Numeral.digitLimit : Nat), none⟩ }

/-- A registry with that record. -/
def wideRegistry : Registry where
  entries := [⟨"main", ⟨wide, 0⟩, []⟩]
  issued := 1

theorem reachable_wideRegistry : Reachable wideRegistry := by
  have hcall : attempt {} (.register (.str "main") (.record wide)) = .ok wideRegistry := rfl
  refine .call (.empty 0) (fun c hc => ?_) hcall
  cases hc
  change ∀ value ∈ wide.values, value.2.IsProper
  decide

theorem not_isWritable_wideRegistry : wideRegistry.toJson.isWritable = false := by
  refine isWritable_toJson_eq_false_iff.mpr ⟨_, List.mem_cons_self, fun h => ?_⟩
  have hdecimals : Numeral.isWritable ((10 ^ Numeral.digitLimit : Nat) : Int) = true :=
    h ("decimals", .integer _) List.mem_cons_self
  exact Nat.lt_irrefl _ ((Numeral.isWritable_natCast_iff _).mp hdecimals)

/-- A directory with a registry file that has no environments in it. -/
def vacant : Files Content where
  contents := [(["c.json"], .ofText "\x7b\x7d\n")]

theorem save_wideRegistry :
    (wideRegistry.save ⟨"", ["c.json"]⟩ vacant).1.result = .error .integerTooLong := by
  have hreach : vacant.Reaches ⟨"", ["c.json"]⟩ := ⟨vacant, rfl, rfl⟩
  rcases save_cases wideRegistry ⟨"", ["c.json"]⟩ vacant with ⟨hclosed, -⟩ | ⟨-, hresult, -⟩
  · exact absurd ⟨rfl, hreach⟩ hclosed
  · rw [hresult, fileText_snd, not_isWritable_wideRegistry]
    rfl

/-- The first line of the text is written, and what was in the file is lost. -/
theorem save_of_error_of_wide : ∃ text,
    (wideRegistry.save ⟨"", ["c.json"]⟩ vacant).2.read ⟨"", ["c.json"]⟩ = .ok (.ofText text) ∧
    ∃ n rest, Numeral.isWritable n = false ∧
      Json.renderAll .indented wideRegistry.toJson = text ++ Numeral.ofInt n ++ rest := by
  obtain ⟨-, -, hlost⟩ := save_of_error save_wideRegistry
  obtain ⟨-, before, n, after, hpieces, -, hn, hread⟩ := hlost rfl
  refine ⟨_, hread, n, String.ofList (after.flatMap Json.Piece.chars), hn, ?_⟩
  rw [Json.renderAll, hpieces, List.flatMap_append, List.flatMap_cons, String.ofList_append,
    String.ofList_append, Json.Piece.chars, String.ofList_toList, String.append_assoc]

/-- The first line of the text is another than that of the file. -/
theorem fileText_wideRegistry_ne : wideRegistry.fileText.1 ≠ "\x7b\x7d\n" := by
  obtain ⟨before, n, after, hpieces, -, -, htext⟩ :=
    exists_fileText_of_not_isWritable not_isWritable_wideRegistry
  obtain ⟨cs, rest, hfirst⟩ : ∃ cs rest, Json.pieces .indented 0 wideRegistry.toJson =
      .text ('\x7b' :: '\n' :: cs) :: rest := ⟨_, _, rfl⟩
  rw [hfirst] at hpieces
  intro h
  rw [htext] at h
  have hchars := congrArg String.toList h
  rw [String.toList_ofList] at hchars
  cases before with
  | nil => cases hpieces
  | cons piece before =>
      cases hpieces
      cases hchars

/-- The file does not hold what it held, but the beginning of another text. -/
theorem not_kept_of_failed_save :
    ¬∀ (r : Registry) (path : Path) (files : Files Content) (e : Failure) (a : Content),
      Reachable r → (r.save path files).1.result = .error e → files.read path = .ok a →
        (r.save path files).2.read path = .ok a := by
  intro h
  have hkept := h wideRegistry ⟨"", ["c.json"]⟩ vacant _ _ reachable_wideRegistry
    save_wideRegistry rfl
  rcases save_cases wideRegistry ⟨"", ["c.json"]⟩ vacant with ⟨-, ⟨e, he, hne⟩, -⟩ | ⟨-, -, hwrite⟩
  · cases save_wideRegistry.symm.trans he
    exact hne rfl
  · rw [Files.read_of_write hwrite, Except.ok.injEq] at hkept
    have htext := congrArg Content.text? hkept
    rw [Content.text?_ofText, Content.text?_ofText, Option.some.injEq] at htext
    exact fileText_wideRegistry_ne htext

end Registry

end PerpRollout
