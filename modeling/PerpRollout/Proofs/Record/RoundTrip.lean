import Mathlib.Data.List.Nodup
import PerpRollout.Proofs.Json.Sorted
import PerpRollout.Proofs.Record.Schema
import PerpRollout.Proofs.Record.Slots

/-!
# Records are read back as they are written

A section is written as the values of its fields in the order they are declared,
without those that hold no address (`Section.toJson_eq`). Such an object is a
written section and holds just these values, so a record is read back whole
(`Record.ofJson_toJson`), provided none of its addresses is the empty text
(`Record.IsProper`): that text would be read as no address at all. Neither reading
nor resolving ever puts it into a slot.
-/

namespace PerpRollout

/-! ## Values of fields -/

namespace Datum

/-- The value as it is written; no address is not written at all. -/
def json? : Datum → Option Json
  | .integer n => some (.int n)
  | .text s => some (.str s)
  | .address a => a.map .str

/-- The value is not the empty text for an address. -/
def IsProper (d : Datum) : Prop :=
  d ≠ .address (some "")

instance : DecidablePred IsProper :=
  fun d => inferInstanceAs (Decidable (d ≠ .address (some "")))

/-- The value is no integer that is too long to be written. -/
def isWritable : Datum → Bool
  | .integer n => Numeral.isWritable n
  | _ => true

/-- The members that are written for the values of fields. -/
def written (values : List (String × Datum)) : List (String × Json) :=
  values.filterMap fun (name, d) => d.json?.map fun v => (name, v)

theorem written_cons (name : String) (d : Datum) (values : List (String × Datum)) :
    written ((name, d) :: values) = (d.json?.map fun v => (name, v)).toList ++ written values := by
  cases h : d.json? <;> simp [written, h]

theorem mem_written_iff {values : List (String × Datum)} {name : String} {v : Json} :
    (name, v) ∈ written values ↔ ∃ d, (name, d) ∈ values ∧ d.json? = some v := by
  simp [written]

/-- What is written for a value is its integer or a text. -/
theorem json?_cases {d : Datum} {v : Json} (h : d.json? = some v) :
    (∃ n, d = .integer n ∧ v = .int n) ∨ ∃ s, v = .str s := by
  cases d with
  | integer n =>
      cases h
      exact .inl ⟨n, rfl, rfl⟩
  | text s =>
      cases h
      exact .inr ⟨s, rfl⟩
  | address a =>
      obtain ⟨s, -, rfl⟩ := Option.map_eq_some_iff.mp h
      exact .inr ⟨s, rfl⟩

theorem keys_written_sublist (values : List (String × Datum)) :
    (Json.keys (written values)).Sublist (values.map Prod.fst) := by
  induction values with
  | nil => exact List.Sublist.slnil
  | cons x values ih =>
      obtain ⟨name, d⟩ := x
      rw [written_cons]
      cases h : d.json? with
      | none => exact ih.cons name
      | some v => exact ih.cons_cons name

theorem member?_written {values : List (String × Datum)} (h : (values.map Prod.fst).Nodup)
    (name : String) :
    Json.member? name (written values) = (values.lookup name).bind json? := by
  induction values with
  | nil => rfl
  | cons x values ih =>
      obtain ⟨k, d⟩ := x
      rw [List.map_cons, List.nodup_cons] at h
      rw [written_cons, List.lookup_cons]
      by_cases hk : name = k
      · subst hk
        cases hd : d.json? with
        | some v => simp [Json.member?, hd]
        | none =>
            have hrest : (written values).lookup name = none := by
              rw [List.lookup_eq_none_iff]
              intro x hx
              have hne : name ≠ x.1 := fun hname => h.1
                (hname ▸ (keys_written_sublist values).subset (List.mem_map_of_mem hx))
              simpa using hne
            simp [Json.member?, hd, hrest]
      · have hbeq : (name == k) = false := beq_false_of_ne hk
        rw [hbeq]
        cases hd : d.json? with
        | some v => simpa [Json.member?, List.lookup_cons, hbeq] using ih h.2
        | none => simpa [Json.member?] using ih h.2

end Datum

/-! ## Sections -/

/-- A value of the kind that a field of this kind holds. -/
def FieldKind.Fits : FieldKind → Datum → Prop
  | .integer, .integer _ => True
  | .numeral, .text _ => True
  | .text, .text _ => True
  | .address, .address _ => True
  | _, _ => False

theorem FieldKind.stored_json? {k : FieldKind} {d : Datum} (hfits : k.Fits d)
    (hproper : d.IsProper) :
    k.stored d.json? = some d := by
  cases k <;> cases d <;> first | exact hfits.elim | skip
  case integer.integer n => rfl
  case numeral.text s => rfl
  case text.text s => rfl
  case address.address a =>
      cases a with
      | none => rfl
      | some s =>
          have hs : s ≠ "" := fun hs => hproper (by rw [hs])
          simp [FieldKind.stored, Datum.json?, hs]

theorem FieldKind.admits_of_stored {k : FieldKind} {v : Json} {d : Datum}
    (h : k.stored (some v) = some d) : k.admits v = true := by
  cases k <;> cases v <;> first | rfl | cases h

theorem FieldKind.isProper_of_stored {k : FieldKind} {v? : Option Json} {d : Datum}
    (h : k.stored v? = some d) : d.IsProper := by
  intro hd
  rw [hd] at h
  have hk : k = .address := by
    unfold FieldKind.stored at h
    split at h <;> first | rfl | cases h
  subst hk
  rcases v? with _ | v
  · cases h
  · cases v with
    | str s =>
        by_cases hs : s = ""
        · simp [FieldKind.stored, hs] at h
        · simp [FieldKind.stored, hs] at h
    | _ => cases h

theorem FieldKind.isWritable_of_stored {k : FieldKind} {v? : Option Json} {d : Datum}
    (hv : ∀ v ∈ v?, v.isWritable = true) (h : k.stored v? = some d) : d.isWritable = true := by
  cases d with
  | integer n =>
      cases k <;> rcases v? with _ | _ | _ | _ | _ | _ | _ | _ <;> cases h
      · decide
      · exact hv _ rfl
  | text s => rfl
  | address a => rfl

theorem exists_of_mem_left {α β : Type} {R : α → β → Prop} {as : List α} {bs : List β}
    (h : List.Forall₂ R as bs) {a : α} (ha : a ∈ as) : ∃ b ∈ bs, R a b := by
  induction h with
  | nil => cases ha
  | cons hab _ ih =>
      rcases List.mem_cons.mp ha with rfl | ha
      · exact ⟨_, List.mem_cons_self, hab⟩
      · obtain ⟨b, hb, hr⟩ := ih ha
        exact ⟨b, List.mem_cons_of_mem _ hb, hr⟩

namespace Section

/-- The values of a section, in the order its fields are declared. -/
def Fits (s : Section) (values : List (String × Datum)) : Prop :=
  List.Forall₂ (fun f value => value.1 = f.name ∧ f.kind.Fits value.2) s.fields values

theorem nodup_fieldNames (s : Section) : s.fieldNames.Nodup := by
  cases s <;> decide

theorem names_of_fits {s : Section} {values : List (String × Datum)} (h : s.Fits values) :
    values.map Prod.fst = s.fieldNames := by
  unfold Fits at h
  rw [fieldNames]
  generalize s.fields = fields at h ⊢
  induction h with
  | nil => rfl
  | cons hf _ ih => rw [List.map_cons, List.map_cons, hf.1, ih]

variable {s : Section} {values : List (String × Datum)}

/-- Under the name of a field there is what is written for its value. -/
theorem get?_written (hfits : s.Fits values) {value : String × Datum} (hvalue : value ∈ values) :
    (Json.obj (Datum.written values)).get? value.1 = value.2.json? := by
  have hnodup : (values.map Prod.fst).Nodup := names_of_fits hfits ▸ nodup_fieldNames s
  exact (Datum.member?_written hnodup value.1).trans
    (by rw [lookup_of_mem hnodup hvalue, Option.bind_some])

/-- The object that is written for the values of a section holds these values. -/
theorem stores_written (hfits : s.Fits values) (hproper : ∀ value ∈ values, value.2.IsProper) :
    s.Stores (.obj (Datum.written values)) values := by
  have hzip := List.forall₂_iff_zip.mp hfits
  rw [Stores, List.forall₂_iff_zip]
  refine ⟨hzip.1, fun {f value} hmem => ?_⟩
  obtain ⟨hname, hkind⟩ := hzip.2 hmem
  have hvalue := (List.of_mem_zip hmem).2
  refine ⟨hname, ?_⟩
  rw [← hname, get?_written hfits hvalue]
  exact FieldKind.stored_json? hkind (hproper value hvalue)

theorem kind_ne_address {f : Field} (hf : f ∈ s.fields) (hreq : f.required = true) :
    f.kind ≠ .address := by
  revert f
  cases s <;> decide

theorem exists_json? {k : FieldKind} {d : Datum} (h : k.Fits d) (hk : k ≠ .address) :
    ∃ v, d.json? = some v := by
  cases k <;> cases d <;> first | exact h.elim | exact absurd rfl hk | exact ⟨_, rfl⟩

theorem admits_written (hfits : s.Fits values) (hproper : ∀ value ∈ values, value.2.IsProper) :
    s.Admits (.obj (Datum.written values)) := by
  refine ⟨_, rfl, fun f hf hreq => ?_, fun m hm => ?_⟩
  · obtain ⟨value, hvalue, hname, hkind⟩ := exists_of_mem_left hfits hf
    obtain ⟨v, hv⟩ := exists_json? hkind (kind_ne_address hf hreq)
    refine List.mem_map.mpr ⟨(value.1, v), ?_, hname⟩
    exact Datum.mem_written_iff.mpr ⟨value.2, hvalue, hv⟩
  · obtain ⟨d, hd, hv⟩ := Datum.mem_written_iff.mp hm
    obtain ⟨f, hf, hname, hkind⟩ := exists_of_mem_left hfits.flip hd
    have hstored := FieldKind.stored_json? hkind (hproper _ hd)
    rw [hv] at hstored
    exact ⟨f, hf, hname.symm, FieldKind.admits_of_stored hstored⟩

/-- Numerals are written as texts, which are of any length. -/
theorem isLegible_written (hfits : s.Fits values) (hproper : ∀ value ∈ values, value.2.IsProper) :
    s.IsLegible (.obj (Datum.written values)) := by
  intro m hm hkind
  obtain ⟨d, hd, hv⟩ := Datum.mem_written_iff.mp hm
  obtain ⟨f, hf, hname, hfit⟩ := exists_of_mem_left hfits.flip hd
  dsimp only at hname hfit
  rw [hname, kindOf_name hf] at hkind
  rcases hkind with hkind | hkind
  · rw [hkind] at hfit
    obtain ⟨n, rfl, -⟩ | ⟨t, ht⟩ := Datum.json?_cases hv
    · exact hfit.elim
    · rw [ht]
      rfl
  · have hstored := FieldKind.stored_json? hfit (hproper _ hd)
    rw [hv] at hstored
    rw [FieldKind.admits_of_stored hstored] at hkind
    cases hkind

theorem stores_unique {raw : Json} {values others : List (String × Datum)}
    (h : s.Stores raw values) (h' : s.Stores raw others) : values = others := by
  refine List.right_unique_forall₂' (fun f value other hvalue hother => ?_) h h'
  obtain ⟨hname, hstored⟩ := hvalue
  obtain ⟨hname', hstored'⟩ := hother
  rw [hstored] at hstored'
  exact Prod.ext (hname.trans hname'.symm) (Option.some.inj hstored')

theorem isProper_of_stores {raw : Json} (h : s.Stores raw values) :
    ∀ value ∈ values, value.2.IsProper := by
  intro value hvalue
  obtain ⟨f, -, -, hstored⟩ := exists_of_mem_left h.flip hvalue
  exact FieldKind.isProper_of_stored hstored

theorem isWritable_of_stores {raw : Json} (hraw : raw.isWritable = true)
    (h : s.Stores raw values) : ∀ value ∈ values, value.2.isWritable = true := by
  intro value hvalue
  obtain ⟨f, -, -, hstored⟩ := exists_of_mem_left h.flip hvalue
  exact FieldKind.isWritable_of_stored (fun v hv => Json.isWritable_of_get? hraw hv) hstored

end Section

/-! ## Records -/

open Section Datum

theorem Asset.toJson_eq (a : Asset) : a.toJson = .obj (written a.values) := by
  obtain ⟨_, _ | _, _⟩ := a <;> rfl

theorem Asset.fits_values (a : Asset) : Section.initialAssets.Fits a.values := by
  simp [Section.Fits, Section.fields, Asset.values, FieldKind.Fits]

namespace Record

/-- The values of the fields of a section that is an object. -/
def sectionValues (r : Record) : Section → List (String × Datum)
  | .priceFeed => r.priceFeed.values
  | .engine => r.engine.values
  | .vamm => r.vamm.values
  | .insuranceFund => []
  | .initialAssets => []

theorem sectionJson_eq (r : Record) {s : Section} (hs : s ∈ objectSections) :
    r.sectionJson s = .obj (written (r.sectionValues s)) := by
  obtain ⟨⟨_, _ | _⟩, ⟨_, _, _, _, _ | _, _ | _, _ | _⟩, ⟨_, _, _, _, _, _, _, _, _, _ | _⟩, _⟩ := r
  all_goals
    cases s with
    | initialAssets => simp [objectSections] at hs
    | _ => rfl

theorem fits_sectionValues (r : Record) {s : Section} (hs : s ∈ objectSections) :
    s.Fits (r.sectionValues s) := by
  cases s with
  | initialAssets => simp [objectSections] at hs
  | _ => simp [Section.Fits, Section.fields, sectionValues, PriceFeed.values, Engine.values,
      Vamm.values, FieldKind.Fits]

end Record

theorem PriceFeed.values_injective : Function.Injective PriceFeed.values := by
  intro p q h
  obtain ⟨_, _⟩ := p
  obtain ⟨_, _⟩ := q
  cases h
  rfl

theorem Engine.values_injective : Function.Injective Engine.values := by
  intro e f h
  obtain ⟨_, _, _, _, _, _, _⟩ := e
  obtain ⟨_, _, _, _, _, _, _⟩ := f
  cases h
  rfl

theorem Vamm.values_injective : Function.Injective Vamm.values := by
  intro v w h
  obtain ⟨_, _, _, _, _, _, _, _, _, _⟩ := v
  obtain ⟨_, _, _, _, _, _, _, _, _, _⟩ := w
  cases h
  rfl

theorem Asset.values_injective : Function.Injective Asset.values := by
  intro a b h
  obtain ⟨_, _, _⟩ := a
  obtain ⟨_, _, _⟩ := b
  cases h
  rfl

theorem Datum.readable_written {values : List (String × Datum)}
    (hnodup : (values.map Prod.fst).Nodup)
    (hwritable : ∀ value ∈ values, value.2.isWritable = true) :
    (Json.obj (written values)).Readable := by
  refine ⟨hnodup.sublist (keys_written_sublist values), Json.readableMembers_iff.mpr ?_⟩
  rintro ⟨name, v⟩ hm
  obtain ⟨d, hd, hv⟩ := mem_written_iff.mp hm
  obtain ⟨n, rfl, rfl⟩ | ⟨s, rfl⟩ := json?_cases hv
  · exact hwritable _ hd
  · trivial

theorem Datum.isWritable_of_written {values : List (String × Datum)}
    (h : (Json.obj (written values)).isWritable = true) :
    ∀ value ∈ values, value.2.isWritable = true := by
  intro value hvalue
  obtain ⟨name, d⟩ := value
  cases d with
  | integer n =>
      have hmem : (name, Json.int n) ∈ written values :=
        mem_written_iff.mpr ⟨.integer n, hvalue, rfl⟩
      exact Json.membersWritable_iff.mp h _ hmem
  | text s => rfl
  | address a => rfl

theorem Section.readable_written {s : Section} {values : List (String × Datum)} (h : s.Fits values)
    (hwritable : ∀ value ∈ values, value.2.isWritable = true) :
    (Json.obj (written values)).Readable :=
  Datum.readable_written (names_of_fits h ▸ nodup_fieldNames s) hwritable

namespace Record

/-- The values of all fields of the record. -/
def values (r : Record) : List (String × Datum) :=
  objectSections.flatMap r.sectionValues ++ r.assets.flatMap Asset.values

/-- No address of the record is the empty text. -/
def IsProper (r : Record) : Prop :=
  ∀ value ∈ r.values, value.2.IsProper

/-- No integer of the record is too long to be written. -/
def IsWritable (r : Record) : Prop :=
  ∀ value ∈ r.values, value.2.isWritable = true

theorem forall_mem_values {r : Record} {P : String × Datum → Prop} :
    (∀ value ∈ r.values, P value) ↔
      (∀ s ∈ objectSections, ∀ value ∈ r.sectionValues s, P value) ∧
        ∀ a ∈ r.assets, ∀ value ∈ a.values, P value := by
  simp only [values, List.forall_mem_append, List.forall_mem_flatMap]

theorem get?_toJson (r : Record) (s : Section) :
    r.toJson.get? s.key = some (r.sectionJson s) := by
  cases s <;> rfl

theorem keys_toJson (r : Record) :
    Json.keys (Section.all.map fun s => (s.key, r.sectionJson s)) = Section.all.map Section.key :=
  rfl

theorem readable_toJson {r : Record} (h : r.IsWritable) : r.toJson.Readable := by
  obtain ⟨hsections, hassets⟩ := forall_mem_values.mp h
  refine ⟨?_, Json.readableMembers_iff.mpr fun m hm => ?_⟩
  · rw [keys_toJson]
    decide
  · obtain ⟨s, -, rfl⟩ := List.mem_map.mp hm
    by_cases hs : s ∈ objectSections
    · rw [sectionJson_eq r hs]
      exact readable_written (fits_sectionValues r hs) (hsections s hs)
    · have hassetsKey : s = .initialAssets := by
        revert hs
        cases s <;> decide
      subst hassetsKey
      refine Json.readableItems_iff.mpr fun v hv => ?_
      obtain ⟨a, ha, rfl⟩ := List.mem_map.mp hv
      rw [Asset.toJson_eq]
      exact readable_written a.fits_values (hassets a ha)

theorem isWritable_toJson {r : Record} (h : r.IsWritable) : r.toJson.isWritable = true :=
  Json.isWritable_of_readable (readable_toJson h)

theorem isWritable_of_toJson {r : Record} (h : r.toJson.isWritable = true) : r.IsWritable := by
  refine forall_mem_values.mpr ⟨fun s hs => ?_, fun a ha => ?_⟩
  · have hsection := Json.isWritable_of_get? h (get?_toJson r s)
    rw [sectionJson_eq r hs] at hsection
    exact isWritable_of_written hsection
  · have hassets := Json.isWritable_of_get? h (get?_toJson r .initialAssets)
    have hasset := Json.itemsWritable_iff.mp hassets a.toJson (List.mem_map_of_mem ha)
    rw [Asset.toJson_eq] at hasset
    exact isWritable_of_written hasset

theorem admits_toJson {r : Record} (h : r.IsProper) : Admits r.toJson := by
  obtain ⟨hsections, hassets⟩ := forall_mem_values.mp h
  refine ⟨⟨_, rfl, ?_, ?_⟩, ?_, ?_⟩
  · intro s _
    rw [keys_toJson]
    exact List.mem_map_of_mem (by cases s <;> decide)
  · intro k hk
    obtain ⟨s, -, rfl⟩ := List.mem_map.mp (keys_toJson r ▸ hk)
    exact ⟨s, rfl⟩
  · intro v hv
    rw [get?_toJson] at hv
    cases hv
    refine ⟨_, rfl, fun item hitem => ?_⟩
    obtain ⟨a, ha, rfl⟩ := List.mem_map.mp hitem
    rw [Asset.toJson_eq]
    exact admits_written a.fits_values (hassets a ha)
  · intro s hs v hv
    rw [get?_toJson, sectionJson_eq r hs] at hv
    cases hv
    exact admits_written (fits_sectionValues r hs) (hsections s hs)

theorem transcribes_toJson {r : Record} (h : r.IsProper) : Transcribes r.toJson r := by
  obtain ⟨hsections, hassets⟩ := forall_mem_values.mp h
  have hstores (s : Section) (hs : s ∈ objectSections) :
      ∃ v, r.toJson.get? s.key = some v ∧ s.Stores v (r.sectionValues s) := by
    refine ⟨_, get?_toJson r s, ?_⟩
    rw [sectionJson_eq r hs]
    exact stores_written (fits_sectionValues r hs) (hsections s hs)
  refine ⟨hstores .priceFeed (by decide), hstores .engine (by decide), hstores .vamm (by decide),
    r.assets.map Asset.toJson, ?_, ?_⟩
  · rw [get?_toJson]
    rfl
  · rw [List.forall₂_map_left_iff, List.forall₂_same]
    intro a ha
    rw [Asset.toJson_eq]
    exact stores_written a.fits_values (hassets a ha)

theorem transcribes_unique {raw : Json} {r r' : Record} (h : Transcribes raw r)
    (h' : Transcribes raw r') : r = r' := by
  obtain ⟨priceFeed, engine, vamm, assets⟩ := r
  obtain ⟨priceFeed', engine', vamm', assets'⟩ := r'
  obtain ⟨⟨v, hv, hpriceFeed⟩, ⟨w, hw, hengine⟩, ⟨x, hx, hvamm⟩, ⟨items, hitems, hassets⟩⟩ := h
  obtain ⟨⟨v', hv', hpriceFeed'⟩, ⟨w', hw', hengine'⟩, ⟨x', hx', hvamm'⟩,
    ⟨items', hitems', hassets'⟩⟩ := h'
  rw [hv] at hv'
  rw [hw] at hw'
  rw [hx] at hx'
  rw [hitems] at hitems'
  cases hv'
  cases hw'
  cases hx'
  cases hitems'
  have hp := PriceFeed.values_injective (stores_unique hpriceFeed hpriceFeed')
  have he := Engine.values_injective (stores_unique hengine hengine')
  have hv := Vamm.values_injective (stores_unique hvamm hvamm')
  have ha : assets = assets' := by
    refine List.right_unique_forall₂' (fun item a b hstores hstores' => ?_) hassets hassets'
    exact Asset.values_injective (stores_unique hstores hstores')
  subst hp he hv ha
  rfl

/-- A written record is read as the record it stands for. -/
theorem ofJson_of_transcribes {raw : Json} {r : Record} (legible : IsLegible raw)
    (admits : Admits raw) (h : Transcribes raw r) : ofJson raw = .ok r := by
  have hnone := violations_eq_nil_iff.mpr admits
  obtain ⟨r', hr'⟩ := (reports_ofJson_of_isLegible legible).exists_ok_iff.mpr hnone
  rw [hr', transcribes_unique (transcribes_ofJson hr') h]

theorem isLegible_toJson {r : Record} (h : r.IsProper) : IsLegible r.toJson := by
  obtain ⟨hsections, hassets⟩ := forall_mem_values.mp h
  constructor
  · intro s hs v hv
    rw [get?_toJson, sectionJson_eq r hs] at hv
    cases hv
    exact isLegible_written (fits_sectionValues r hs) (hsections s hs)
  · intro items hitems item hitem
    rw [get?_toJson] at hitems
    cases hitems
    obtain ⟨a, ha, rfl⟩ := List.mem_map.mp hitem
    rw [Asset.toJson_eq]
    exact isLegible_written a.fits_values (hassets a ha)

/-- A record is read back from what is written for it. -/
theorem ofJson_toJson {r : Record} (hproper : r.IsProper) : ofJson r.toJson = .ok r :=
  ofJson_of_transcribes (isLegible_toJson hproper) (admits_toJson hproper)
    (transcribes_toJson hproper)

/-! ## What holds of all values that were read -/

/-- What holds of all that is stored for a written section holds of a record that was read. -/
theorem forall_mem_values_of_transcribes {raw : Json} {r : Record} {P : String × Datum → Prop}
    (h : Transcribes raw r)
    (hsections : ∀ (s : Section) v values, raw.get? s.key = some v → s.Stores v values →
      ∀ value ∈ values, P value)
    (hassets : ∀ items, (raw.get? Section.initialAssets.key).getD (.arr []) = .arr items →
      ∀ item ∈ items, ∀ values, Section.initialAssets.Stores item values →
        ∀ value ∈ values, P value) : ∀ value ∈ r.values, P value := by
  obtain ⟨⟨v, hv, hpriceFeed⟩, ⟨w, hw, hengine⟩, ⟨x, hx, hvamm⟩, ⟨items, hitems, hlist⟩⟩ := h
  refine forall_mem_values.mpr ⟨fun s hs => ?_, fun a ha => ?_⟩
  · cases s with
    | initialAssets => simp [objectSections] at hs
    | insuranceFund => simp [sectionValues]
    | priceFeed => exact hsections .priceFeed v _ hv hpriceFeed
    | engine => exact hsections .engine w _ hw hengine
    | vamm => exact hsections .vamm x _ hx hvamm
  · obtain ⟨item, hitem, hstores⟩ := exists_of_mem_left hlist.flip ha
    exact hassets items hitems item hitem a.values hstores

theorem isProper_of_ofJson {raw : Json} {r : Record} (h : ofJson raw = .ok r) : r.IsProper :=
  forall_mem_values_of_transcribes (transcribes_ofJson h)
    (fun _ _ _ _ hstores => isProper_of_stores hstores)
    fun _ _ _ _ _ hstores => isProper_of_stores hstores

/-- A record holds no longer integers than the value it was read from. -/
theorem isWritable_of_ofJson {raw : Json} {r : Record} (hraw : raw.isWritable = true)
    (h : ofJson raw = .ok r) : r.IsWritable :=
  forall_mem_values_of_transcribes (transcribes_ofJson h)
    (fun _ _ _ hv hstores => isWritable_of_stores (Json.isWritable_of_get? hraw hv) hstores)
    fun _ hitems item hitem _ hstores =>
      isWritable_of_stores (isWritable_of_items hraw hitems item hitem) hstores

/-- Setting a slot brings in no value but the address. -/
theorem mem_sectionValues_setAddress {r : Record} {m : Module} {a : String} {s : Section}
    {value : String × Datum} (h : value ∈ (r.setAddress m a).sectionValues s) :
    value ∈ r.sectionValues s ∨ value.2 = .address (some a) := by
  cases m <;> cases s <;>
    simp only [setAddress, sectionValues, PriceFeed.values, Engine.values, Vamm.values,
      List.mem_cons] at h ⊢ <;>
    grind

theorem isProper_setAddress {r : Record} (h : r.IsProper) (m : Module) {a : String} (ha : a ≠ "") :
    (r.setAddress m a).IsProper := by
  rw [IsProper, forall_mem_values] at h ⊢
  refine ⟨fun s hs value hvalue => ?_, ?_⟩
  · rcases mem_sectionValues_setAddress hvalue with hvalue | hvalue
    · exact h.1 s hs value hvalue
    · intro hempty
      rw [hvalue] at hempty
      cases hempty
      exact ha rfl
  · cases m <;> exact h.2

theorem isWritable_setAddress {r : Record} (h : r.IsWritable) (m : Module) (a : String) :
    (r.setAddress m a).IsWritable := by
  rw [IsWritable, forall_mem_values] at h ⊢
  refine ⟨fun s hs value hvalue => ?_, ?_⟩
  · rcases mem_sectionValues_setAddress hvalue with hvalue | hvalue
    · exact h.1 s hs value hvalue
    · rw [hvalue]
      rfl
  · cases m <;> exact h.2

theorem isWritable_setAll {r : Record} (h : r.IsWritable) (steps : List (Module × String)) :
    (r.setAll steps).IsWritable := by
  induction steps generalizing r with
  | nil => exact h
  | cons step steps ih => exact ih (isWritable_setAddress h step.1 step.2)

end Record

end PerpRollout
