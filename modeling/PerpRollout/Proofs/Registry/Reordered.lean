import PerpRollout.Proofs.Record.Reordered
import PerpRollout.Proofs.Registry.Interleaving
import PerpRollout.Proofs.Registry.Mapping

/-!
# A written registry with its keys in another order

The order of keys settles the order in which the parts of the template form are looked at,
in which overrides are laid on top of the defaults, and in which environments are
registered. So it settles which of several failures is told. It does not settle whether one
is told, nor what is registered otherwise (`ofJson_reordered`).

A value with its keys in another order has the same shape (`wellShaped_congr`), and its
records are those of the value with their keys in another order (`reordered_records`). Each
of these is accepted as before and read as the same record (`Record.ofJson_congr`), and what
a registry holds of a name is the record that was registered under it.
-/

namespace PerpRollout.Registry

open Json (Reordered)

variable {v w : Json} {members others recs recs' : List (String × Json)}

/-! ## The shape -/

theorem isTemplate_congr (h : Reordered (.obj members) (.obj others)) :
    IsTemplate members ↔ IsTemplate others := by
  simp only [IsTemplate, h.perm_keys.mem_iff]

theorem isPart_congr (h : Reordered v w) (hv : IsPart v) : IsPart w := by
  rcases hv with rfl | ⟨members, rfl⟩
  · cases h
    exact .inl rfl
  · obtain ⟨others, rfl, -⟩ := h.exists_members
    exact .inr ⟨others, rfl⟩

theorem reordered_partOf (h : Reordered (.obj members) (.obj others))
    (hmembers : (Json.keys members).Nodup) (key : String) :
    Reordered (partOf members key) (partOf others key) := by
  have hfound := h.member? hmembers key
  unfold partOf
  generalize Json.member? key members = v? at hfound ⊢
  generalize Json.member? key others = w? at hfound ⊢
  cases hfound with
  | none => exact .atom rfl
  | some hvw => exact hvw

theorem reordered_members (h : Reordered v w) : Reordered (.obj v.members) (.obj w.members) := by
  cases h with
  | @atom v h =>
      cases v with
      | obj members => cases h
      | _ => exact .obj .rfl (by simp [Json.members])
  | arr _ _ => exact .obj .rfl (by simp [Json.members])
  | obj keys values => exact .obj keys values

theorem reordered_overrides (h : Reordered (.obj members) (.obj others))
    (hmembers : (Json.keys members).Nodup) :
    Reordered (.obj (overrides members)) (.obj (overrides others)) :=
  reordered_members (reordered_partOf h hmembers environmentsKey)

theorem wellShaped_congr (h : Reordered (.obj members) (.obj others))
    (hmembers : (Json.keys members).Nodup) (hshape : WellShaped members) : WellShaped others := by
  unfold WellShaped at hshape ⊢
  by_cases htemplate : IsTemplate members
  · rw [if_pos htemplate] at hshape
    rw [if_pos ((isTemplate_congr h).mp htemplate)]
    obtain ⟨hdefaults, henvironments, heach⟩ := hshape
    refine ⟨isPart_congr (reordered_partOf h hmembers _) hdefaults,
      isPart_congr (reordered_partOf h hmembers _) henvironments, fun x hx => ?_⟩
    obtain ⟨v, hv, hvx⟩ := (reordered_overrides h hmembers).exists_of_mem hx
    exact isPart_congr hvx (heach _ hv)
  · rw [if_neg htemplate] at hshape
    rw [if_neg (mt (isTemplate_congr h).mpr htemplate)]
    exact fun key hkey hmem => hshape key hkey (h.perm_keys.mem_iff.mpr hmem)

/-! ## The records -/

theorem distinctKeys_members (h : v.DistinctKeys) : (Json.obj v.members).DistinctKeys := by
  cases v with
  | obj members => exact h
  | _ => exact ⟨List.nodup_nil, trivial⟩

/-- The same environments, each with its keys in another order. In the template form the
overrides are laid on top of the defaults in another order too. -/
theorem reordered_records (h : Reordered (.obj members) (.obj others))
    (hmembers : (Json.obj members).WellFormed) :
    Reordered (.obj (records members)) (.obj (records others)) := by
  have distinct (key : String) : (Json.obj (partOf members key).members).DistinctKeys :=
    distinctKeys_members (wellFormed_getD hmembers key).distinctKeys
  unfold records
  by_cases htemplate : IsTemplate members
  · rw [if_pos htemplate, if_pos ((isTemplate_congr h).mp htemplate)]
    have hdefaults := reordered_members (reordered_partOf h hmembers.1 defaultsKey)
    have hoverrides := reordered_overrides h hmembers.1
    refine .obj ?_ fun name v w hv hw => ?_
    · rw [Json.keys, Json.keys, List.map_map, List.map_map]
      exact hoverrides.perm_keys
    · -- Both stand under one name, so they come of overrides that are related.
      obtain ⟨⟨name', x⟩, hx, heq⟩ := List.mem_map.mp hv
      cases heq
      obtain ⟨⟨name', y⟩, hy, heq⟩ := List.mem_map.mp hw
      cases heq
      have hchanges := reordered_members (hoverrides.of_mem hx hy)
      have hxdistinct := Json.distinctKeysMembers_iff.mp (distinct environmentsKey).2 _ hx
      simpa only [Json.overlay] using
        hdefaults.overlay hchanges (distinct defaultsKey) (distinctKeys_members hxdistinct)
  · rw [if_neg htemplate, if_neg (mt (isTemplate_congr h).mpr htemplate)]
    exact h

theorem accepted_congr {name : String} (h : Reordered v w) (hv : v.WellFormed)
    (haccepted : Accepted (name, v)) : Accepted (name, w) := by
  obtain ⟨⟨c, hc⟩, hvisible⟩ := haccepted
  have legible := Record.isLegible_of_isWritable hv.isWritable
  exact ⟨⟨c, Record.ofJson_congr h hv.distinctKeys legible hc⟩, hvisible⟩

/-! ## Registering -/

section

variable {issued issued' : Nat} {r r' : Registry}
  (h : Reordered (.obj recs) (.obj recs'))
  (hr : (registerAll { issued } recs).result = .ok r)
  (hr' : (registerAll { issued := issued' } recs').result = .ok r')

include h hr hr'

theorem names_registerAll_congr : r.names = r'.names := by
  have hsorted := ((sound_empty issued).registerAll hr).sorted
  have hsorted' := ((sound_empty issued').registerAll hr').sorted
  refine List.Pairwise.eq_of_mem_iff (List.pairwise_map.mpr hsorted)
    (List.pairwise_map.mpr hsorted') fun name => ?_
  exact (mem_names_registerAll hr name).trans
    ((or_congr Iff.rfl h.perm_keys.mem_iff).trans (mem_names_registerAll hr' name).symm)

theorem record_registerAll_congr (hrecs : (Json.obj recs).WellFormed) (name : String) :
    (r.find? name).map (·.edition.record) = (r'.find? name).map (·.edition.record) := by
  by_cases hname : name ∈ r.names
  · obtain hname | hname := (mem_names_registerAll hr name).mp hname
    · cases hname
    · obtain ⟨⟨name, v⟩, hv, rfl⟩ := List.mem_map.mp hname
      obtain ⟨w, hw, hwv⟩ := h.symm.exists_of_mem hv
      have hwf : v.WellFormed := Json.wellFormedMembers_iff.mp hrecs.2 _ hv
      obtain ⟨edition, hread, hfind⟩ := find?_registerAll_of_mem hr hv
      obtain ⟨edition', hread', hfind'⟩ := find?_registerAll_of_mem hr' hw
      have hsame := Record.ofJson_congr hwv.symm hwf.distinctKeys
        (Record.isLegible_of_isWritable hwf.isWritable) hread
      rw [hfind, hfind']
      exact congrArg some (Except.ok.inj (hsame.symm.trans hread'))
  · have hname' : name ∉ r'.names := names_registerAll_congr h hr hr' ▸ hname
    rw [← isSome_find?_iff, Option.not_isSome_iff_eq_none] at hname hname'
    rw [hname, hname']

end

theorem exists_result_ofJson_congr {raw raw' : Json} (h : Reordered raw raw')
    (hraw : raw.WellFormed) {issued : Nat} (issued' : Nat) {r : Registry}
    (hr : (ofJson raw issued).result = .ok r) :
    ∃ r', (ofJson raw' issued').result = .ok r' ∧ r.names = r'.names ∧
      ∀ v, (r.get v).result.map Edition.record = (r'.get v).result.map Edition.record := by
  obtain ⟨members, rfl, hshape, hr⟩ := exists_members_of_result_ofJson hr
  obtain ⟨others, rfl, -⟩ := h.exists_members
  have hrecs := reordered_records h hraw
  have hwf := wellFormed_records hraw hshape
  have haccepted := (exists_result_registerAll_iff hwf issued).mp ⟨r, hr⟩
  have haccepted' : ∀ x ∈ records others, Accepted x := by
    intro x hx
    obtain ⟨v, hv, hvx⟩ := hrecs.exists_of_mem hx
    exact accepted_congr hvx (Json.wellFormedMembers_iff.mp hwf.2 _ hv) (haccepted _ hv)
  obtain ⟨r', hr'⟩ := (exists_result_registerAll_iff (hrecs.wellFormed hwf) issued').mpr haccepted'
  have hnames := names_registerAll_congr hrecs hr hr'
  rw [result_ofJson_of_wellShaped (wellShaped_congr h hraw.1 hshape)]
  refine ⟨r', hr', hnames, fun v => ?_⟩
  rw [result_map_get, result_map_get]
  exact result_map_entry_congr hnames (record_registerAll_congr hrecs hr hr' hwf) v

/-- Take two well-formed values that differ only in the order of the keys of objects, at any
depth. Both are read, as registries with the same names and the same record under each, or
neither is. -/
theorem ofJson_reordered {raw raw' : Json} (h : Reordered raw raw') (hraw : raw.WellFormed)
    (issued issued' : Nat) :
    (∃ r r', (ofJson raw issued).result = .ok r ∧ (ofJson raw' issued').result = .ok r' ∧
      r.names = r'.names ∧
      ∀ v, (r.get v).result.map Edition.record = (r'.get v).result.map Edition.record) ∨
    ∃ e e', (ofJson raw issued).result = .error e ∧ (ofJson raw' issued').result = .error e' := by
  cases hr : (ofJson raw issued).result with
  | ok r =>
      obtain ⟨r', hr', hsame⟩ := exists_result_ofJson_congr h hraw issued' hr
      exact .inl ⟨r, r', rfl, hr', hsame⟩
  | error e =>
      cases hr' : (ofJson raw' issued').result with
      | error e' => exact .inr ⟨e, e', rfl, rfl⟩
      | ok r' =>
          obtain ⟨r, hr'', -⟩ := exists_result_ofJson_congr h.symm (h.wellFormed hraw) issued hr'
          cases hr.symm.trans hr''

/-- The bundled environments in the template form, all in another order: the overrides come
before the defaults, and the last override first. -/
def reversedTemplate : List (String × Json) :=
  [(environmentsKey, .obj (("plain", .null) :: Environment.overrides).reverse),
    (defaultsKey, Environment.template)]

theorem reordered_reversedTemplate :
    Reordered (.obj bundledTemplate) (.obj reversedTemplate) := by
  have distinct := wellFormed_bundledTemplate.distinctKeys.2
  have hdefaults : Reordered Environment.template Environment.template := .refl distinct.1
  have henvironments := Json.reordered_of_perm (List.reverse_perm _).symm distinct.2.1
  refine .obj (.swap _ _ []) fun k v w hv hw => ?_
  simp only [bundledTemplate, reversedTemplate, List.mem_cons, List.not_mem_nil, or_false,
    Prod.mk.injEq] at hv hw
  obtain ⟨rfl, rfl⟩ | ⟨rfl, rfl⟩ := hv
  · obtain ⟨hkey, -⟩ | ⟨-, rfl⟩ := hw
    · exact absurd hkey (by decide)
    · exact hdefaults
  · obtain ⟨-, rfl⟩ | ⟨hkey, -⟩ := hw
    · exact henvironments
    · exact absurd hkey (by decide)

theorem ofJson_reordered_reversedTemplate :
    ∃ r r', (ofJson (.obj bundledTemplate) 0).result = .ok r ∧
      (ofJson (.obj reversedTemplate) 0).result = .ok r' ∧ r.names = r'.names ∧
      ∀ v, (r.get v).result.map Edition.record = (r'.get v).result.map Edition.record := by
  have hraw := wellFormed_bundledTemplate
  obtain ⟨r, hr⟩ := exists_result_ofJson hraw (by decide) (by decide) 0
  obtain hread | ⟨e, -, he, -⟩ := ofJson_reordered reordered_reversedTemplate hraw 0 0
  · exact hread
  · cases hr.symm.trans he

end PerpRollout.Registry
