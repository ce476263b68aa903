import PerpRollout.Proofs.Record.Inherited
import PerpRollout.Proofs.Registry.Mapping

/-!
# Saved records in the template form

The bundled template has no addresses, so a saved record that is laid on top of it is read
as the same record (`ofJson_template_overlay`). Hence saved records can be written as
overrides of the template: the registry that is read has these records under their names,
however the two keys of the template form are ordered (`ofJson_overlay_of_built`).
-/

namespace PerpRollout.Registry

variable {members recs : List (String × Json)} {saved : List (String × Record)}

/-- The record of the bundled template. -/
def shared : Record where
  priceFeed := ⟨6, none⟩
  engine := ⟨6, "0", "0", "0", none, none, none⟩
  vamm := ⟨6, "", "", "0", "0", 3600, "0", "0", "0", none⟩
  assets := []

theorem ofJson_template : Record.ofJson Environment.template = .ok shared :=
  toOption_eq_some_iff.mp (by decide +kernel)

theorem ofJson_template_overlay {r : Record} (hr : r.IsProper) :
    Record.ofJson (Environment.template.overlay r.toJson) = .ok r := by
  have legible := Record.isLegible_of_isWritable wellFormed_template.isWritable
  have hnone : ∀ m, shared.address m = none := by
    intro m
    cases m <;> rfl
  rw [Record.ofJson_overlay_toJson legible ofJson_template hr, Record.inheriting_eq_self hnone]

/-! ## Registering -/

theorem exists_result_registerAll (hall : ∀ x ∈ recs, Accepted x) (hnodup : (Json.keys recs).Nodup)
    {r : Registry} (hnew : ∀ name ∈ Json.keys recs, r.find? name = none) :
    ∃ r', (r.registerAll recs).result = .ok r' := by
  induction recs generalizing r with
  | nil => exact ⟨r, rfl⟩
  | cons x recs ih =>
      obtain ⟨name, raw⟩ := x
      obtain ⟨haccepted, hall⟩ := List.forall_mem_cons.mp hall
      obtain ⟨hname, hnodup⟩ := List.nodup_cons.mp hnodup
      obtain ⟨r', hrest, hkept⟩ :=
        exists_result_registerAll_of_accepted haccepted (hnew name List.mem_cons_self) recs
      rw [hrest]
      refine ih hall hnodup fun other hother => hkept other ?_ ?_
      · exact fun heq => hname (heq ▸ hother)
      · exact hnew other (List.mem_cons_of_mem _ hother)

theorem perm_names_registerAll (hnodup : (Json.keys recs).Nodup) {issued : Nat} {r : Registry}
    (h : (registerAll { issued } recs).result = .ok r) : r.names.Perm (Json.keys recs) := by
  have hsorted := ((sound_empty issued).registerAll h).sorted
  refine (List.perm_ext_iff_of_nodup ?_ hnodup).mpr fun name => ?_
  · exact (List.pairwise_map.mpr hsorted).imp String.ne_of_lt
  · exact (mem_names_registerAll h name).trans (by simp [names])

/-! ## The template form -/

/-- The records as overrides of the bundled template. -/
structure Overrides (members : List (String × Json)) (saved : List (String × Record)) : Prop where
  isTemplate : IsTemplate members
  defaults : Json.member? defaultsKey members = some Environment.template
  environments : Json.member? environmentsKey members =
    some (.obj (saved.map fun x => (x.1, x.2.toJson)))

theorem Overrides.overrides_eq (h : Overrides members saved) :
    overrides members = saved.map fun x => (x.1, x.2.toJson) := by
  rw [overrides, partOf, h.environments]
  rfl

theorem Overrides.wellShaped (h : Overrides members saved) : WellShaped members := by
  rw [WellShaped, if_pos h.isTemplate, h.overrides_eq, partOf, partOf, h.defaults, h.environments]
  refine ⟨.inr ⟨_, rfl⟩, .inr ⟨_, rfl⟩, fun x hx => ?_⟩
  obtain ⟨y, -, rfl⟩ := List.mem_map.mp hx
  exact .inr ⟨_, rfl⟩

theorem Overrides.records_eq (h : Overrides members saved) :
    records members = saved.map fun x => (x.1, Environment.template.overlay x.2.toJson) := by
  rw [records, if_pos h.isTemplate, h.overrides_eq, List.map_map, partOf, h.defaults]
  refine List.map_congr_left fun x _ => ?_
  rw [Environment.template, Record.toJson, Json.overlay_obj]
  rfl

/-- What is written for a record, on top of what is written for another one, is read as the
record with its empty slots as they are in the other one. So records that are written as
overrides of the bundled template, under names that are distinct and not blank, are read
back as they were, each under its name and without history, and nothing else is read. -/
theorem ofJson_overlay_of_built :
    (∀ a b, Record.Built a → Record.Built b →
      Record.ofJson (a.toJson.overlay b.toJson) = .ok (b.inheriting a) ∧
        ∀ m, (b.inheriting a).address m = (b.address m).or (a.address m)) ∧
    ∀ members saved, Overrides members saved → (saved.map Prod.fst).Nodup →
      (∀ x ∈ saved, Text.blank x.1 = false ∧ Record.Built x.2) →
      ∀ issued, ∃ r, (ofJson (.obj members) issued).result = .ok r ∧
        r.names.Perm (saved.map Prod.fst) ∧
        ∀ x ∈ saved, ∃ edition, edition.record = x.2 ∧
          (r.get (.str x.1)).result = .ok edition ∧ (r.history (.str x.1)).result = .ok [] := by
  refine ⟨fun a b ha hb => ?_, fun members saved hover hnodup hsaved issued => ?_⟩
  · exact ⟨Record.ofJson_overlay_toJson (Record.isLegible_toJson ha.isProper)
      (Record.ofJson_toJson ha.isProper) hb.isProper, Record.address_inheriting b a⟩
  · have hkeys : Json.keys (records members) = saved.map Prod.fst := by
      rw [hover.records_eq, Json.keys, List.map_map]
      rfl
    have hread : ∀ x ∈ saved, Record.ofJson (Environment.template.overlay x.2.toJson) = .ok x.2 :=
      fun x hx => ofJson_template_overlay (hsaved x hx).2.isProper
    have haccepted : ∀ x ∈ records members, Accepted x := by
      rw [hover.records_eq]
      intro y hy
      obtain ⟨x, hx, rfl⟩ := List.mem_map.mp hy
      exact ⟨⟨x.2, hread x hx⟩, (hsaved x hx).1⟩
    rw [result_ofJson_of_wellShaped hover.wellShaped]
    obtain ⟨r, hr⟩ := exists_result_registerAll haccepted (hkeys ▸ hnodup) (r := { issued })
      fun _ _ => rfl
    refine ⟨r, hr, hkeys ▸ perm_names_registerAll (hkeys ▸ hnodup) hr, fun x hx => ?_⟩
    have hmem : (x.1, Environment.template.overlay x.2.toJson) ∈ records members := by
      rw [hover.records_eq]
      exact List.mem_map_of_mem hx
    obtain ⟨edition, hedition, hfind⟩ := find?_registerAll_of_mem hr hmem
    have hjson := findJson?_eq_some_iff.mpr ⟨x.1, rfl, hfind⟩
    refine ⟨edition, ?_, result_get_eq_ok_iff.mpr ⟨_, hjson, rfl⟩,
      result_history_eq_ok_iff.mpr ⟨_, hjson, rfl⟩⟩
    exact (Except.ok.inj ((hread x hx).symm.trans hedition)).symm

/-- A record with the price feed resolved. -/
def fed : Record :=
  Record.tight.setAddress .pricefeed "feed"

theorem built_fed : Record.Built fed :=
  have resolved : (Record.tight.withAddress (.str "pricefeed") (.str "feed")).result = .ok fed := rfl
  .resolved (.read Record.ofJson_loose) resolved

/-- Two environments as overrides of the bundled template. -/
def twoOverrides : List (String × Json) :=
  [(environmentsKey, .obj [("main", fed.toJson), ("test", Record.tight.toJson)]),
    (defaultsKey, Environment.template)]

/-- The price feed comes from below, but not from one environment into another. -/
theorem ofJson_overlay_of_built_of_fed :
    Record.ofJson (fed.toJson.overlay Record.tight.toJson) = .ok fed ∧
    ∃ r, (ofJson (.obj twoOverrides) 0).result = .ok r ∧ r.names.Perm ["main", "test"] ∧
      ∃ edition, edition.record = Record.tight ∧ (r.get (.str "test")).result = .ok edition := by
  have built_tight : Record.Built Record.tight := .read Record.ofJson_loose
  have hover : Overrides twoOverrides [("main", fed), ("test", Record.tight)] :=
    ⟨by decide, rfl, rfl⟩
  have hsaved : ∀ x ∈ [("main", fed), ("test", Record.tight)],
      Text.blank x.1 = false ∧ Record.Built x.2 := by
    rw [List.forall_mem_cons, List.forall_mem_singleton]
    exact ⟨⟨by decide, built_fed⟩, by decide, built_tight⟩
  obtain ⟨hrecords, hregistry⟩ := ofJson_overlay_of_built
  constructor
  · exact (hrecords fed Record.tight built_fed built_tight).1
  · obtain ⟨r, hr, hnames, hread⟩ := hregistry _ _ hover (by decide) hsaved 0
    obtain ⟨edition, hedition, hget, -⟩ := hread ("test", Record.tight) (by simp)
    exact ⟨r, hr, hnames, edition, hedition, hget⟩

end PerpRollout.Registry
