import PerpRollout.Proofs.Record.RoundTrip
import PerpRollout.Proofs.Registry.Loading
import PerpRollout.Proofs.Registry.Reachable

/-!
# The registry that a run starts from

A registry is read from the file that is named, or it is the bundled one. It depends on
nothing but that file (`Registry.source_congr`), and its records hold no integer that is too
long to be written (`Registry.isWritable_of_source`): a longer one would not have been read.
-/

namespace PerpRollout.Registry

/-- The file that the registry is read from, if one is named. -/
def sourceFile? (config : Option String) : Option Path :=
  (config.filter (!·.isEmpty)).map .ofText

theorem source_congr {files files' : Files Content} {config config' : Option String}
    (hconfig : sourceFile? config' = sourceFile? config)
    (hread : ∀ path ∈ sourceFile? config, files'.read path = files.read path) (issued : Nat) :
    source files' config' issued = source files config issued := by
  unfold sourceFile? at hconfig hread
  unfold source
  cases h : config.filter (!·.isEmpty) with
  | none =>
      rw [h, Option.map_none, Option.map_eq_none_iff] at hconfig
      rw [hconfig]
  | some text =>
      rw [h, Option.map_some, Option.map_eq_some_iff] at hconfig
      obtain ⟨text', htext', hpath⟩ := hconfig
      have hfile := hread (.ofText text) (by rw [h]; rfl)
      rw [htext']
      simp only [load, valueOfFile, hpath, hfile]

/-- What the registry was read from can be read. -/
theorem exists_read_of_source {files : Files Content} {config : Option String} {issued : Nat}
    {r : Registry} (h : (source files config issued).result = .ok r) :
    ∀ path ∈ sourceFile? config, ∃ content, files.read path = .ok content := by
  intro path hpath
  obtain ⟨text, htext, rfl⟩ := Option.map_eq_some_iff.mp hpath
  unfold source at h
  rw [htext] at h
  obtain ⟨raw, hraw, -⟩ := Logged.result_bind_eq_ok_iff.mp h
  rw [Logged.result_liftM, valueOfFile] at hraw
  split at hraw
  · cases hraw
  split at hraw
  · cases hraw
  next content hcontent => exact ⟨content, hcontent⟩

/-! ## Integers of the records -/

/-- What holds of the records that are read holds of those that are registered. -/
theorem forall_entries_registerAll {P : Record → Prop} {records : List (String × Json)}
    (hrecords : ∀ x ∈ records, ∀ c, Record.ofJson x.2 = .ok c → P c) {r r' : Registry}
    (hr : ∀ e ∈ r.entries, P e.edition.record)
    (h : (r.registerAll records).result = .ok r') : ∀ e ∈ r'.entries, P e.edition.record := by
  induction records generalizing r with
  | nil =>
      cases h
      exact hr
  | cons x records ih =>
      obtain ⟨name, raw⟩ := x
      obtain ⟨c, next, hread, hcall, h⟩ := result_registerAll_cons_eq_ok_iff.mp h
      obtain ⟨_, edition, _, -, -, -, haccept, rfl⟩ := result_register_eq_ok_iff.mp hcall
      refine ih (fun x hx => hrecords x (List.mem_cons_of_mem _ hx)) ?_ h
      intro e he
      rcases mem_insertEntry.mp he with rfl | he
      · cases haccept
        exact hrecords (name, raw) List.mem_cons_self c hread
      · exact hr e he

theorem isWritable_of_ofJson {raw : Json} (hraw : raw.WellFormed) {issued : Nat} {r : Registry}
    (h : (ofJson raw issued).result = .ok r) : ∀ e ∈ r.entries, e.edition.record.IsWritable := by
  obtain ⟨records, hrecords, h⟩ := Logged.result_bind_eq_ok_iff.mp h
  have hwritten := (wellFormed_of_writtenRecords hraw hrecords).isWritable
  refine forall_entries_registerAll ?_ (by simp) h
  intro x hx c hc
  exact Record.isWritable_of_ofJson (Json.membersWritable_iff.mp hwritten x hx) hc

theorem wellFormed_template : Environment.template.WellFormed := by
  simp [Environment.template, Json.WellFormed, Json.wellFormedMembers, Json.wellFormedItems,
    Json.keys]
  decide

theorem wellFormed_override : ∀ x ∈ Environment.overrides, x.2.WellFormed := by
  simp [Environment.overrides, Json.WellFormed, Json.wellFormedMembers, Json.keys]

theorem wellFormed_environments : (Json.obj Environment.records).WellFormed := by
  refine ⟨by decide, Json.wellFormedMembers_iff.mpr ?_⟩
  intro m hm
  obtain ⟨x, hx, rfl⟩ := List.mem_map.mp hm
  exact Json.wellFormed_overlay wellFormed_template (wellFormed_override x hx)

/-- The records of a registry that a run starts from can be written. -/
theorem isWritable_of_source {files : Files Content} {config : Option String} {issued : Nat}
    {r : Registry} (h : (source files config issued).result = .ok r) :
    ∀ e ∈ r.entries, e.edition.record.IsWritable := by
  unfold source at h
  split at h
  next path _ =>
    obtain ⟨raw, hraw, h⟩ := Logged.result_bind_eq_ok_iff.mp h
    obtain ⟨r', hr', h⟩ := Logged.result_bind_eq_ok_iff.mp h
    cases h
    exact isWritable_of_ofJson (wellFormed_of_valueOfFile hraw) hr'
  next => exact isWritable_of_ofJson wellFormed_environments h

end PerpRollout.Registry
