import PerpRollout.Proofs.Json.Reordered
import PerpRollout.Proofs.Record.RoundTrip

/-!
# Reading does not look at the order of keys

A record is read from a value as from any other that has its keys in another order
(`Record.ofJson_congr`). The schema is stated by what is under each key, so each part of it
carries over to the reordered value: what a field takes, the keys of a section, the values
it stores.
-/

namespace PerpRollout

open Json (Reordered)

/-! ## Fields -/

theorem FieldKind.admits_congr {v w : Json} (h : Reordered v w) (k : FieldKind) :
    k.admits v = k.admits w := by
  cases h with
  | atom _ => rfl
  | arr _ _ => cases k <;> rfl
  | obj _ _ => cases k <;> rfl

theorem FieldKind.stored_congr {v? w? : Option Json} (h : Option.Rel Reordered v? w?)
    (k : FieldKind) : k.stored v? = k.stored w? := by
  cases h with
  | none => rfl
  | some h =>
      cases h with
      | atom _ => rfl
      | arr _ _ => cases k <;> rfl
      | obj _ _ => cases k <;> rfl

namespace Section

variable {s : Section} {raw raw' : Json}

theorem admits_congr (h : Reordered raw raw') (hraw : s.Admits raw) : s.Admits raw' := by
  obtain ⟨members, rfl, hrequired, hvalues⟩ := hraw
  obtain ⟨others, rfl, hkeys⟩ := h.exists_members
  refine ⟨others, rfl, fun f hf hreq => hkeys.mem_iff.mp (hrequired f hf hreq), ?_⟩
  intro m hm
  obtain ⟨v, hv, hrel⟩ := h.exists_of_mem hm
  obtain ⟨f, hf, hname, hadmits⟩ := hvalues _ hv
  exact ⟨f, hf, hname, FieldKind.admits_congr hrel f.kind ▸ hadmits⟩

theorem isLegible_congr (h : Reordered raw raw') (hraw : s.IsLegible raw) : s.IsLegible raw' := by
  intro m hm hkind
  cases h with
  | atom _ => exact hraw m hm hkind
  | arr _ _ => cases hm
  | obj keys values =>
      obtain ⟨v, hv, hrel⟩ := (Reordered.obj keys values).exists_of_mem hm
      rw [← FieldKind.admits_congr hrel] at hkind
      exact hrel.isWritable (hraw _ hv hkind)

theorem stores_congr (h : Reordered raw raw') (distinct : raw.DistinctKeys)
    {values : List (String × Datum)} (hraw : s.Stores raw values) : s.Stores raw' values := by
  refine hraw.imp fun f value hvalue => ⟨hvalue.1, ?_⟩
  rw [← FieldKind.stored_congr (h.get? distinct f.name)]
  exact hvalue.2

/-- Sections one by one, as the assets are. -/
theorem forall₂_stores_congr {α : Type} {values : α → List (String × Datum)}
    {items items' : List Json} {as : List α} (h : List.Forall₂ Reordered items' items)
    (distinct : ∀ item ∈ items', item.DistinctKeys)
    (hitems : List.Forall₂ (fun item a => s.Stores item (values a)) items as) :
    List.Forall₂ (fun item a => s.Stores item (values a)) items' as := by
  induction h generalizing as with
  | nil => exact hitems
  | @cons item' item _ _ hrel _ ih =>
      obtain ⟨hdistinct, hrest⟩ := List.forall_mem_cons.mp distinct
      cases hitems with
      | cons hitem hitems =>
          exact .cons (stores_congr hrel.symm (hrel.distinctKeys hdistinct) hitem)
            (ih hrest hitems)

end Section

namespace Record

variable {raw raw' : Json} {r : Record}

/-- What is under a key of the one value has its counterpart in the other. -/
theorem exists_get? (h : Reordered raw raw') (distinct : raw.DistinctKeys) {name : String}
    {w : Json} (hw : raw'.get? name = some w) :
    ∃ v, raw.get? name = some v ∧ v.DistinctKeys ∧ Reordered v w := by
  have hrel := h.get? distinct name
  rw [hw] at hrel
  cases hv : raw.get? name with
  | none =>
      rw [hv] at hrel
      cases hrel
  | some v =>
      rw [hv] at hrel
      cases hrel with
      | some hrel => exact ⟨v, rfl, Json.distinctKeys_of_get? distinct hv, hrel⟩

/-- The assets as they are looked at, an empty list when there are none. -/
theorem exists_items (h : Reordered raw raw') (distinct : raw.DistinctKeys) {name : String}
    {items' : List Json} (hitems : (raw'.get? name).getD (.arr []) = .arr items') :
    ∃ items, (raw.get? name).getD (.arr []) = .arr items ∧
      (∀ item ∈ items, item.DistinctKeys) ∧ List.Forall₂ Reordered items items' := by
  cases hw : raw'.get? name with
  | none =>
      have hrel := h.get? distinct name
      rw [hw] at hrel hitems
      cases hitems
      cases hv : raw.get? name with
      | none => exact ⟨[], rfl, by simp, .nil⟩
      | some v =>
          rw [hv] at hrel
          cases hrel
  | some w =>
      obtain ⟨v, hv, hdistinct, hrel⟩ := exists_get? h distinct hw
      rw [hw] at hitems
      cases hitems
      obtain ⟨items, rfl, hall⟩ := hrel.symm.exists_items
      exact ⟨items, by rw [hv]; rfl, Json.distinctKeysItems_iff.mp hdistinct,
        (hall.imp fun _ _ h => h.symm).flip⟩

theorem isLegible_congr (h : Reordered raw raw') (distinct : raw.DistinctKeys)
    (hraw : IsLegible raw) : IsLegible raw' := by
  constructor
  · intro s hs w hw
    obtain ⟨v, hv, -, hrel⟩ := exists_get? h distinct hw
    exact Section.isLegible_congr hrel (hraw.sections s hs v hv)
  · intro items' hitems' item' hitem'
    obtain ⟨items, hitems, -, hall⟩ := exists_items h distinct hitems'
    obtain ⟨item, hitem, hrel⟩ := exists_of_mem_left hall.flip hitem'
    exact Section.isLegible_congr hrel (hraw.assets items hitems item hitem)

theorem admits_congr (h : Reordered raw raw') (distinct : raw.DistinctKeys)
    (hraw : Admits raw) : Admits raw' := by
  obtain ⟨⟨members, rfl, hrequired, hallowed⟩, hassets, hsections⟩ := hraw
  obtain ⟨others, rfl, hkeys⟩ := h.exists_members
  constructor
  · exact ⟨others, rfl, fun s hs => hkeys.mem_iff.mp (hrequired s hs),
      fun k hk => hallowed k (hkeys.mem_iff.mpr hk)⟩
  · intro w hw
    obtain ⟨v, hv, -, hrel⟩ := exists_get? h distinct hw
    obtain ⟨items, rfl, hitems⟩ := hassets v hv
    obtain ⟨items', rfl, hall⟩ := hrel.exists_items
    refine ⟨items', rfl, fun item' hitem' => ?_⟩
    obtain ⟨item, hitem, hrel⟩ := exists_of_mem_left hall.flip hitem'
    exact Section.admits_congr hrel (hitems item hitem)
  · intro s hs w hw
    obtain ⟨v, hv, -, hrel⟩ := exists_get? h distinct hw
    exact Section.admits_congr hrel (hsections s hs v hv)

theorem transcribes_congr (h : Reordered raw raw') (distinct : raw.DistinctKeys)
    (hraw : Transcribes raw r) : Transcribes raw' r := by
  have distinct' := h.distinctKeys distinct
  have hstores {s : Section} {values : List (String × Datum)}
      (hs : ∃ v, raw.get? s.key = some v ∧ s.Stores v values) :
      ∃ w, raw'.get? s.key = some w ∧ s.Stores w values := by
    obtain ⟨v, hv, hvalues⟩ := hs
    obtain ⟨w, hw, -, hrel⟩ := exists_get? h.symm distinct' hv
    exact ⟨w, hw, Section.stores_congr hrel.symm (Json.distinctKeys_of_get? distinct hv) hvalues⟩
  obtain ⟨items, hitems, hassets⟩ := hraw.assets
  obtain ⟨items', hitems', hdistinct, hall⟩ := exists_items h.symm distinct' hitems
  refine ⟨hstores hraw.priceFeed, hstores hraw.engine, hstores hraw.vamm, items', hitems', ?_⟩
  exact Section.forall₂_stores_congr hall hdistinct hassets

/-- A value is read as the same record with its keys in another order. -/
theorem ofJson_congr (h : Reordered raw raw') (distinct : raw.DistinctKeys)
    (legible : IsLegible raw) (hr : ofJson raw = .ok r) : ofJson raw' = .ok r := by
  have admits := violations_eq_nil_iff.mp
    ((reports_ofJson_of_isLegible legible).exists_ok_iff.mp ⟨r, hr⟩)
  exact ofJson_of_transcribes (isLegible_congr h distinct legible)
    (admits_congr h distinct admits) (transcribes_congr h distinct (transcribes_ofJson hr))

end Record

end PerpRollout
