import PerpRollout.Proofs.Json.WellFormed
import PerpRollout.Proofs.Registry.Entries
import PerpRollout.Registry.File

/-!
# What loading a registry file fails with

Loading gives a registry or tells what in the file is invalid, with four exceptions
(`Escapes`): a null character in the path, bytes that are no text, an integer of too many
digits, and a blank name for an environment. `load_eq_error_iff` says that there are no
others: the value of a file is well-formed, so names are distinct when they come to be
registered, and whatever is wrong with a record can be told. The records are registered up
to the first environment that is refused (`result_registerAll_eq_error_iff`).
-/

namespace PerpRollout.Registry

/-! ## Failures that tell what is invalid -/

/-- Whatever it fails with, it tells what is invalid. -/
def FailsInvalid {α : Type} (x : Except Failure α) : Prop :=
  ∀ e, x = .error e → ∃ i, e = .invalid i

namespace FailsInvalid

variable {α β : Type}

theorem ok (a : α) : FailsInvalid (.ok a) := by
  intro e h
  cases h

theorem reject (field : String) (environment : Option String) {reason : Reason}
    (h : reason.isWritable = true) :
    FailsInvalid (PerpRollout.reject field environment reason : Except Failure α) := by
  intro e he
  rw [PerpRollout.reject, if_pos h] at he
  cases he
  exact ⟨_, rfl⟩

theorem bind {x : Except Failure α} {f : α → Except Failure β} (hx : FailsInvalid x)
    (hf : ∀ a, x = .ok a → FailsInvalid (f a)) : FailsInvalid (x >>= f) := by
  intro e h
  rcases bind_eq_error_iff.mp h with h | ⟨a, ha, h⟩
  · exact hx e h
  · exact hf a ha e h

theorem mapM {f : α → Except Failure β} {items : List α} (h : ∀ a ∈ items, FailsInvalid (f a)) :
    FailsInvalid (items.mapM f) := by
  induction items with
  | nil => exact ok []
  | cons a items ih =>
      rw [List.mapM_cons]
      refine (h a List.mem_cons_self).bind fun b _ => ?_
      exact (ih fun x hx => h x (List.mem_cons_of_mem a hx)).bind fun bs _ => ok (b :: bs)

theorem of_ofJson {raw : Json} (hraw : raw.isWritable = true) :
    FailsInvalid (Record.ofJson raw) := by
  intro e h
  have hreports := Record.reports_ofJson hraw
  cases hviolations : Record.violations raw with
  | nil =>
      obtain ⟨r, hr⟩ := hreports.exists_ok_iff.mpr hviolations
      rw [hr] at h
      cases h
  | cons field rest =>
      obtain ⟨_, _, reason, -, hr⟩ := hreports.exists_error (by simp [hviolations])
      rw [hr] at h
      cases h
      exact ⟨_, rfl⟩

end FailsInvalid

/-! ## Written records -/

theorem failsInvalid_part (value : Json) (field : String) (environment : Option String) :
    FailsInvalid (part value field environment) := by
  unfold part
  split
  next => exact .ok []
  next =>
    intro e h
    cases hobject : Check.object value [] none field with
    | ok members =>
        rw [hobject] at h
        cases h
    | error e' =>
        obtain ⟨fault, rfl⟩ := Check.object_eq_error hobject
        rw [hobject] at h
        cases h
        exact ⟨_, rfl⟩

theorem wellFormed_of_part {value : Json} (h : value.WellFormed) {field : String}
    {environment : Option String} {members : List (String × Json)}
    (hpart : part value field environment = .ok members) : (Json.obj members).WellFormed := by
  unfold part at hpart
  split at hpart
  next =>
    cases hpart
    exact ⟨List.nodup_nil, trivial⟩
  next =>
    obtain ⟨rfl, -⟩ := Check.object_eq_ok_iff.mp (within_eq_ok_iff.mp hpart)
    exact h

theorem wellFormed_getD {members : List (String × Json)} (h : (Json.obj members).WellFormed)
    (key : String) : ((Json.member? key members).getD .null).WellFormed := by
  cases hmember : Json.member? key members with
  | none => exact trivial
  | some v => exact Json.wellFormed_of_member? h hmember

theorem failsInvalid_templateRecords (members : List (String × Json)) :
    FailsInvalid (templateRecords members) := by
  refine (failsInvalid_part _ _ _).bind fun defaults _ => ?_
  refine (failsInvalid_part _ _ _).bind fun overrides _ => ?_
  refine .mapM fun override _ => ?_
  exact (failsInvalid_part _ _ _).bind fun changes _ => .ok _

theorem wellFormed_of_templateRecords {members records : List (String × Json)}
    (h : (Json.obj members).WellFormed) (hrecords : templateRecords members = .ok records) :
    (Json.obj records).WellFormed := by
  obtain ⟨defaults, hdefaults, hrecords⟩ := bind_eq_ok_iff.mp hrecords
  obtain ⟨overrides, hoverrides, hrecords⟩ := bind_eq_ok_iff.mp hrecords
  have hdefaults := wellFormed_of_part (wellFormed_getD h _) hdefaults
  have hoverrides := wellFormed_of_part (wellFormed_getD h _) hoverrides
  refine Json.wellFormed_of_forall₂ ((mapM_eq_ok_iff.mp hrecords).imp ?_) hoverrides
  rintro ⟨name, override⟩ record h
  obtain ⟨changes, hchanges, h⟩ := bind_eq_ok_iff.mp h
  cases h
  refine ⟨rfl, fun hoverride => ?_⟩
  exact Json.wellFormed_overlayMembers hdefaults (wellFormed_of_part hoverride hchanges).2

theorem failsInvalid_writtenRecords (raw : Json) : FailsInvalid (writtenRecords raw) := by
  unfold writtenRecords
  split
  next members =>
    split
    next => exact failsInvalid_templateRecords members
    next =>
      dsimp only
      split
      next => exact .ok members
      next => exact .reject _ _ rfl
  next => exact .reject _ _ rfl

theorem wellFormed_of_writtenRecords {raw : Json} (h : raw.WellFormed)
    {records : List (String × Json)} (hrecords : writtenRecords raw = .ok records) :
    (Json.obj records).WellFormed := by
  unfold writtenRecords at hrecords
  split at hrecords
  next members =>
    split at hrecords
    next => exact wellFormed_of_templateRecords h hrecords
    next =>
      dsimp only at hrecords
      split at hrecords
      next =>
        cases hrecords
        exact h
      next => cases hrecords
  next => cases hrecords

/-! ## Registering -/

/-- The first blank name, after names that are not and with records that can be read. -/
inductive MeetsBlank : List (String × Json) → String → Prop
  | here {name : String} {raw : Json} {record : Record} {rest : List (String × Json)}
      (hread : Record.ofJson raw = .ok record) (hblank : Text.blank name = true) :
      MeetsBlank ((name, raw) :: rest) name
  | later {first name : String} {raw : Json} {record : Record} {rest : List (String × Json)}
      (hread : Record.ofJson raw = .ok record) (hvisible : Text.blank first = false)
      (h : MeetsBlank rest name) : MeetsBlank ((first, raw) :: rest) name

/-- A record that can be read, under a name that is not blank. -/
def Accepted (x : String × Json) : Prop :=
  (∃ c, Record.ofJson x.2 = .ok c) ∧ Text.blank x.1 = false

/-- What an environment is refused with: what is invalid in its record, told with its
name, or else its blank name. -/
inductive Refused : String × Json → Failure → Prop
  | record {name : String} {raw : Json} {i : Invalid}
      (hread : Record.ofJson raw = .error (.invalid i)) :
      Refused (name, raw) (.invalid (i.tagged name))
  | name {name : String} {raw : Json} {c : Record} (hread : Record.ofJson raw = .ok c)
      (hblank : Text.blank name = true) : Refused (name, raw) (.badName (.str name))

/-- What the first environment that is refused is refused with. -/
inductive FirstRefused : List (String × Json) → Failure → Prop
  | here {x : String × Json} {rest : List (String × Json)} {e : Failure} (h : Refused x e) :
      FirstRefused (x :: rest) e
  | later {x : String × Json} {rest : List (String × Json)} {e : Failure} (hx : Accepted x)
      (h : FirstRefused rest e) : FirstRefused (x :: rest) e

theorem Accepted.not_refused {x : String × Json} (hx : Accepted x) (e : Failure) :
    ¬Refused x e := by
  obtain ⟨⟨c, hc⟩, hvisible⟩ := hx
  rintro (hread | ⟨-, hblank⟩)
  · cases hc.symm.trans hread
  · cases hvisible.symm.trans hblank

theorem Refused.unique {x : String × Json} {e e' : Failure} (h : Refused x e)
    (h' : Refused x e') : e = e' := by
  cases h with
  | record hread =>
      cases h' with
      | record hread' =>
          cases hread.symm.trans hread'
          rfl
      | name hread' => cases hread.symm.trans hread'
  | name hread =>
      cases h' with
      | record hread' => cases hread.symm.trans hread'
      | name => rfl

theorem accepted_or_refused {raw : Json} (hraw : raw.isWritable = true) (name : String) :
    Accepted (name, raw) ∨ ∃ e, Refused (name, raw) e := by
  cases hread : Record.ofJson raw with
  | error e =>
      obtain ⟨i, rfl⟩ := FailsInvalid.of_ofJson hraw e hread
      exact .inr ⟨_, .record hread⟩
  | ok c =>
      cases hblank : Text.blank name with
      | true => exact .inr ⟨_, .name hread hblank⟩
      | false => exact .inl ⟨⟨c, hread⟩, hblank⟩

theorem firstRefused_cons_iff {x : String × Json} {rest : List (String × Json)} {e : Failure} :
    FirstRefused (x :: rest) e ↔ Refused x e ∨ Accepted x ∧ FirstRefused rest e := by
  constructor
  · intro h
    cases h with
    | here h => exact .inl h
    | later hx h => exact .inr ⟨hx, h⟩
  · rintro (h | ⟨hx, h⟩)
    · exact .here h
    · exact .later hx h

theorem firstRefused_badName_iff {records : List (String × Json)} {name : String} :
    FirstRefused records (.badName (.str name)) ↔ MeetsBlank records name := by
  induction records with
  | nil => exact ⟨nofun, nofun⟩
  | cons x rest ih =>
      obtain ⟨first, raw⟩ := x
      constructor
      · intro h
        cases h with
        | here h =>
            cases h with
            | name hread hblank => exact .here hread hblank
        | later hx h =>
            obtain ⟨⟨c, hread⟩, hvisible⟩ := hx
            exact .later hread hvisible (ih.mp h)
      · intro h
        cases h with
        | here hread hblank => exact .here (.name hread hblank)
        | later hread hvisible h => exact .later ⟨⟨_, hread⟩, hvisible⟩ (ih.mpr h)

/-- Whatever is refused is refused for what is invalid in a record or for a blank name. -/
theorem FirstRefused.cases {records : List (String × Json)} {e : Failure}
    (h : FirstRefused records e) : (∃ i, e = .invalid i) ∨ ∃ name, e = .badName (.str name) := by
  induction h with
  | here h =>
      cases h with
      | record => exact .inl ⟨_, rfl⟩
      | name => exact .inr ⟨_, rfl⟩
  | later _ _ ih => exact ih

theorem result_registerAll_cons (r : Registry) (name : String) (raw : Json)
    (rest : List (String × Json)) :
    (registerAll r ((name, raw) :: rest)).result = (do
      let record ← (tag name (.ofExcept (Record.ofJson raw))).result
      let r' ← (r.register (.str name) (.record record)).result
      (registerAll r' rest).result) := by
  rw [registerAll, Logged.result_bind]
  refine congrArg _ (funext fun record => ?_)
  rw [Logged.result_bind]

theorem result_register_of_blank {r : Registry} {name : String} (h : Text.blank name = true)
    (offer : Submission) :
    (r.register (.str name) offer).result = .error (.badName (.str name)) := by
  rw [register, Logged.result_bind]
  simp only [nameOf, h, if_true]
  rfl

/-- A name that is new registers a record, and leaves other names new. -/
theorem exists_result_register {r : Registry} {name : String} (hvisible : Text.blank name = false)
    (hnew : r.find? name = none) (record : Record) :
    ∃ r', (r.register (.str name) (.record record)).result = .ok r' ∧
      ∀ other, other ≠ name → r.find? other = none → r'.find? other = none := by
  refine ⟨_, result_register_eq_ok_iff.mpr
    ⟨name, _, _, rfl, hvisible, hnew, rfl, rfl⟩, fun other hne hother => ?_⟩
  rw [find?, find?_insertEntry (find?_eq_none_iff.mp hnew), if_neg (Ne.symm hne)]
  exact hother

theorem result_registerAll_of_refused {name : String} {raw : Json} {e : Failure}
    (h : Refused (name, raw) e) (r : Registry) (rest : List (String × Json)) :
    (registerAll r ((name, raw) :: rest)).result = .error e := by
  rw [result_registerAll_cons]
  cases h with
  | record hread =>
      rw [hread]
      rfl
  | name hread hblank =>
      rw [hread, result_tag_eq_ok_iff.mpr rfl, ok_bind, result_register_of_blank hblank]
      rfl

/-- An accepted environment under a new name is registered, and leaves other names new. -/
theorem exists_result_registerAll_of_accepted {name : String} {raw : Json}
    (h : Accepted (name, raw)) {r : Registry} (hnew : r.find? name = none)
    (rest : List (String × Json)) :
    ∃ r', (registerAll r ((name, raw) :: rest)).result = (registerAll r' rest).result ∧
      ∀ other, other ≠ name → r.find? other = none → r'.find? other = none := by
  obtain ⟨⟨c, hread⟩, hvisible⟩ := h
  obtain ⟨r', hregister, hkept⟩ := exists_result_register hvisible hnew c
  refine ⟨r', ?_, hkept⟩
  rw [result_registerAll_cons, hread, result_tag_eq_ok_iff.mpr rfl, ok_bind, hregister, ok_bind]

/-- Records under distinct new names are registered up to the first that is refused. -/
theorem result_registerAll_eq_error_iff {records : List (String × Json)}
    (hrecords : (Json.obj records).WellFormed) {r : Registry}
    (hnew : ∀ name ∈ Json.keys records, r.find? name = none) {e : Failure} :
    (registerAll r records).result = .error e ↔ FirstRefused records e := by
  -- Keys are distinct, so a name that is registered leaves the names to come new.
  induction records generalizing r with
  | nil => exact ⟨nofun, nofun⟩
  | cons m rest ih =>
      obtain ⟨name, raw⟩ := m
      have hnodup := List.nodup_cons.mp hrecords.1
      rw [firstRefused_cons_iff]
      rcases accepted_or_refused hrecords.2.1.isWritable name with hx | ⟨e', hx⟩
      · obtain ⟨r', hrest, hkept⟩ :=
          exists_result_registerAll_of_accepted hx (hnew name List.mem_cons_self) rest
        rw [hrest, ih ⟨hnodup.2, hrecords.2.2⟩]
        · simp [hx, hx.not_refused]
        · intro other hother
          have hne : other ≠ name := fun heq => hnodup.1 (heq ▸ hother)
          exact hkept other hne (hnew other (List.mem_cons_of_mem name hother))
      · rw [result_registerAll_of_refused hx]
        constructor
        · intro h
          cases h
          exact .inl hx
        · rintro (h | ⟨haccepted, -⟩)
          · rw [hx.unique h]
          · exact absurd hx (haccepted.not_refused _)

/-! ## Loading -/

/-- What loading fails with, besides telling what in the file is invalid. -/
inductive Escapes (files : Files Content) (path : Path) : Failure → Prop
  | nullInPath (hnull : path.hasNull = true) : Escapes files path .nullInPath
  | notUtf8 {content : Content} (hnull : path.hasNull = false)
      (hread : files.read path = .ok content) (htext : content.text? = none) :
      Escapes files path .notUtf8
  | numeralTooLong {content : Content} {text : String} {digits : Nat}
      (hnull : path.hasNull = false) (hread : files.read path = .ok content)
      (htext : content.text? = some text)
      (hparse : Json.parse Numeral.digitLimit (unifyBreaks text.toList) =
        .error (.numeralTooLong digits)) : Escapes files path (.numeralTooLong digits)
  | badName {raw : Json} {records : List (String × Json)} {name : String}
      (hvalue : valueOfFile files path = .ok raw) (hrecords : writtenRecords raw = .ok records)
      (hmeets : MeetsBlank records name) : Escapes files path (.badName (.str name))

variable {files : Files Content} {path : Path} {raw : Json} {e : Failure}

theorem wellFormed_of_valueOfFile (h : valueOfFile files path = .ok raw) : raw.WellFormed := by
  unfold valueOfFile at h
  split at h
  next => cases h
  next =>
    split at h
    next => cases h
    next content _ =>
      split at h
      next text _ =>
        unfold valueOfText at h
        dsimp only at h
        split at h
        next v hparse =>
          cases h
          exact Json.wellFormed_of_parse (Nat.le_refl _) hparse
        next => cases h
        next => cases h
      next => cases h

theorem escapes_of_valueOfFile (h : valueOfFile files path = .error e) (he : ∀ i, e ≠ .invalid i) :
    Escapes files path e := by
  unfold valueOfFile at h
  split at h
  next hnull =>
    cases h
    exact .nullInPath hnull
  next hnull =>
    rw [Bool.not_eq_true] at hnull
    split at h
    next =>
      obtain ⟨i, rfl⟩ := FailsInvalid.reject _ _ rfl e h
      exact absurd rfl (he i)
    next content hread =>
      split at h
      next text htext =>
        unfold valueOfText at h
        dsimp only at h
        split at h
        next => cases h
        next digits hparse =>
          cases h
          exact .numeralTooLong hnull hread htext hparse
        next =>
          obtain ⟨i, rfl⟩ := FailsInvalid.reject _ _ rfl e h
          exact absurd rfl (he i)
      next htext =>
        cases h
        exact .notUtf8 hnull hread htext

theorem result_ofJson_eq_error_iff {issued : Nat} :
    (ofJson raw issued).result = .error e ↔
      writtenRecords raw = .error e ∨ ∃ records, writtenRecords raw = .ok records ∧
        (registerAll { issued } records).result = .error e := by
  rw [ofJson, Logged.result_bind, bind_eq_error_iff]
  rfl

theorem result_load_eq_error_iff {issued : Nat} :
    (load files path issued).result = .error e ↔
      valueOfFile files path = .error e ∨ ∃ raw, valueOfFile files path = .ok raw ∧
        (ofJson raw issued).result = .error e := by
  rw [load, Logged.result_bind, Logged.result_liftM, bind_eq_error_iff]
  refine or_congr_right (exists_congr fun raw => and_congr_right fun _ => ?_)
  rw [Logged.result_bind, bind_eq_error_iff]
  constructor
  · rintro (h | ⟨r, -, h⟩)
    · exact h
    · cases h
  · exact .inl

/-- Loading fails with nothing but what tells of something invalid, and what escapes. -/
theorem load_eq_error_iff (files : Files Content) (path : Path) (issued : Nat) (e : Failure) :
    (load files path issued).result = .error e ∧ (∀ i, e ≠ .invalid i) ↔
      Escapes files path e := by
  rw [result_load_eq_error_iff]
  constructor
  · rintro ⟨h | ⟨raw, hvalue, h⟩, he⟩
    · exact escapes_of_valueOfFile h he
    rcases result_ofJson_eq_error_iff.mp h with h | ⟨records, hrecords, h⟩
    · obtain ⟨i, rfl⟩ := failsInvalid_writtenRecords raw e h
      exact absurd rfl (he i)
    · have hwf := wellFormed_of_writtenRecords (wellFormed_of_valueOfFile hvalue) hrecords
      have hfirst := (result_registerAll_eq_error_iff hwf fun _ _ => rfl).mp h
      obtain ⟨i, rfl⟩ | ⟨name, rfl⟩ := hfirst.cases
      · exact absurd rfl (he i)
      · exact .badName hvalue hrecords (firstRefused_badName_iff.mp hfirst)
  · intro h
    cases h with
    | nullInPath hnull =>
        refine ⟨.inl ?_, by simp⟩
        rw [valueOfFile, if_pos hnull]
    | notUtf8 hnull hread htext =>
        refine ⟨.inl ?_, by simp⟩
        simp only [valueOfFile, hnull, Bool.false_eq_true, if_false, hread, htext]
    | numeralTooLong hnull hread htext hparse =>
        refine ⟨.inl ?_, by simp⟩
        simp only [valueOfFile, hnull, Bool.false_eq_true, if_false, hread, htext, valueOfText,
          hparse]
    | badName hvalue hrecords hmeets =>
        have hwf := wellFormed_of_writtenRecords (wellFormed_of_valueOfFile hvalue) hrecords
        refine ⟨.inr ⟨_, hvalue, result_ofJson_eq_error_iff.mpr (.inr ⟨_, hrecords, ?_⟩)⟩, by simp⟩
        exact (result_registerAll_eq_error_iff hwf fun _ _ => rfl).mpr
          (firstRefused_badName_iff.mpr hmeets)

/-- A file of one byte that is no text gives no registry and tells of nothing invalid. -/
theorem not_load_or_invalid :
    ¬∀ (files : Files Content) (path : Path) (issued : Nat),
      (∃ r, (load files path issued).result = .ok r) ∨
        ∃ i, (load files path issued).result = .error (.invalid i) := by
  intro h
  have hload : (load (.ofList [("c.json", .bytes ⟨#[0xFF]⟩)]) (.ofText "c.json") 0).result =
      .error .notUtf8 := rfl
  rcases h (.ofList [("c.json", .bytes ⟨#[0xFF]⟩)]) (.ofText "c.json") 0 with ⟨r, hr⟩ | ⟨i, hi⟩
  · rw [hload] at hr
    cases hr
  · rw [hload] at hi
    cases hi

end PerpRollout.Registry
