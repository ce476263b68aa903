import PerpRollout.Proofs.Json.Place
import PerpRollout.Proofs.Record.Normal

/-!
# A saved record on top of another

A record is written without its empty slots, so when what is written for it is laid on top
of another written record, the empty slots are those of the other one (`Record.inheriting`).
Nothing else is left out when a record is written, and assets are a list, which is replaced
as a whole; so nothing but addresses comes from below (`Record.ofJson_overlay_toJson`).
-/

namespace PerpRollout

namespace Json

variable {changes : List (String × Json)}

/-- What is no object stands in the overlay as it is. -/
theorem overlayOn_of_not_isObject {v : Json} (h : v.isObject = false) (base? : Option Json) :
    overlayOn base? v = v := by
  cases base? with
  | none => rfl
  | some old => exact overlay_of_not_isObject (.inr h)

/-- Without objects in the changes, each key has what it has in them, or else below. -/
theorem member?_overlayMembers_of_flat (hnodup : (keys changes).Nodup)
    (hflat : ∀ m ∈ changes, m.2.isObject = false) (name : String)
    (base : List (String × Json)) :
    member? name (overlayMembers base changes) =
      (member? name changes).or (member? name base) := by
  rw [member?_overlayMembers hnodup]
  cases h : member? name changes with
  | none => rfl
  | some v =>
      rw [overlay?, overlayOn_of_not_isObject (hflat _ (mem_of_member? h)), Option.some_or]

theorem mem_of_mem_overlayMembers {base : List (String × Json)} {m : String × Json}
    (hflat : ∀ m ∈ changes, m.2.isObject = false) (h : m ∈ overlayMembers base changes) :
    m ∈ base ∨ m ∈ changes := by
  induction changes generalizing base with
  | nil =>
      rw [overlayMembers] at h
      exact .inl h
  | cons first rest ih =>
      obtain ⟨k, v⟩ := first
      obtain ⟨hv, hrest⟩ := List.forall_mem_cons.mp hflat
      rw [overlayMembers_cons, overlayOn_of_not_isObject hv] at h
      rcases ih hrest h with h | h
      · rcases mem_setMember h with h | rfl
        · exact .inl h
        · exact .inr List.mem_cons_self
      · exact .inr (List.mem_cons_of_mem _ h)

end Json

/-! ## Sections -/

namespace Datum

/-- The value, or the other one in place of no address. -/
def inheriting : Datum → Datum → Datum
  | .address none, other => other
  | d, _ => d

@[simp] theorem inheriting_integer (n : Int) (other : Datum) :
    (integer n).inheriting other = integer n := rfl

@[simp] theorem inheriting_text (s : String) (other : Datum) :
    (text s).inheriting other = text s := rfl

@[simp] theorem inheriting_address (a b : Option String) :
    (address a).inheriting (address b) = address (a.or b) := by
  cases a <;> rfl

theorem not_isObject_of_mem_written {values : List (String × Datum)} :
    ∀ m ∈ written values, m.2.isObject = false := by
  rintro ⟨name, v⟩ hm
  obtain ⟨d, -, hv⟩ := mem_written_iff.mp hm
  obtain ⟨n, -, rfl⟩ | ⟨s, rfl⟩ := json?_cases hv <;> rfl

end Datum

/-- A field holds its own value, or else what is stored below. -/
theorem FieldKind.stored_or {k : FieldKind} {d e : Datum} {below? : Option Json}
    (hfits : k.Fits d) (hproper : d.IsProper) (hbelow : k.stored below? = some e) :
    k.stored (d.json?.or below?) = some (d.inheriting e) := by
  cases h : d.json? with
  | none =>
      have hd : d = .address none := by
        cases d with
        | address a => rw [Option.map_eq_none_iff.mp h]
        | _ => cases h
      rw [hd, Option.none_or, hbelow, Datum.inheriting]
  | some v =>
      have hd : d.inheriting e = d := by
        cases d with
        | address a =>
            cases a with
            | none => cases h
            | some a => rfl
        | _ => rfl
      rw [hd, Option.some_or, ← h, stored_json? hfits hproper]

theorem forall₂_zipWith {α β γ δ : Type} {R : α → β → Prop} {S : α → γ → Prop}
    {T : α → δ → Prop} {f : β → γ → δ} {as : List α} {bs : List β} {cs : List γ}
    (h : ∀ a b c, b ∈ bs → R a b → S a c → T a (f b c)) (hbs : List.Forall₂ R as bs)
    (hcs : List.Forall₂ S as cs) : List.Forall₂ T as (List.zipWith f bs cs) := by
  induction hbs generalizing cs with
  | nil =>
      cases hcs
      exact .nil
  | cons hab _ ih =>
      obtain _ | ⟨hac, hcs⟩ := hcs
      refine .cons (h _ _ _ List.mem_cons_self hab hac) (ih (fun a b c hb => ?_) hcs)
      exact h a b c (List.mem_cons_of_mem _ hb)

namespace Section

open Datum

variable {s : Section} {members : List (String × Json)} {values below : List (String × Datum)}

theorem admits_overlay (hfits : s.Fits values) (hproper : ∀ value ∈ values, value.2.IsProper)
    (hbase : s.Admits (.obj members)) :
    s.Admits (.obj (Json.overlayMembers members (written values))) := by
  obtain ⟨_, hmembers, hrequired, hkinds⟩ := hbase
  cases hmembers
  refine ⟨_, rfl, fun f hf hreq => ?_, fun m hm => ?_⟩
  · rw [Json.keys_overlayMembers (Record.distinctKeys_written hfits).1]
    exact List.mem_append_left _ (hrequired f hf hreq)
  · rcases Json.mem_of_mem_overlayMembers not_isObject_of_mem_written hm with hm | hm
    · exact hkinds m hm
    · obtain ⟨_, hwritten, -, hkinds⟩ := admits_written hfits hproper
      cases hwritten
      exact hkinds m hm

theorem isLegible_overlay (hfits : s.Fits values) (hproper : ∀ value ∈ values, value.2.IsProper)
    (hbase : s.IsLegible (.obj members)) :
    s.IsLegible (.obj (Json.overlayMembers members (written values))) := by
  intro m hm
  rcases Json.mem_of_mem_overlayMembers not_isObject_of_mem_written hm with hm | hm
  · exact hbase m hm
  · exact isLegible_written hfits hproper m hm

/-- The overlay holds the values that are written, and from below the addresses that are
missing. -/
theorem stores_overlay (hfits : s.Fits values) (hproper : ∀ value ∈ values, value.2.IsProper)
    (hbelow : s.Stores (.obj members) below) :
    s.Stores (.obj (Json.overlayMembers members (written values)))
      (List.zipWith (fun value other => (value.1, value.2.inheriting other.2)) values below) := by
  refine forall₂_zipWith (fun f value other hvalue hfit hstored => ⟨hfit.1, ?_⟩) hfits hbelow
  have hget : (Json.obj (Json.overlayMembers members (written values))).get? f.name =
      value.2.json?.or ((Json.obj members).get? f.name) := by
    rw [← get?_written hfits hvalue, hfit.1]
    exact Json.member?_overlayMembers_of_flat (Record.distinctKeys_written hfits).1
      not_isObject_of_mem_written f.name members
  rw [hget]
  exact FieldKind.stored_or hfit.2 (hproper value hvalue) hstored.2

end Section

/-! ## Records -/

namespace Record

open Section Datum

variable {raw : Json} {members : List (String × Json)} {a b : Record} {s : Section}

/-- The record with its empty slots as they are in another one. -/
def inheriting (b a : Record) : Record where
  priceFeed := { b.priceFeed with oracleHub := b.priceFeed.oracleHub.or a.priceFeed.oracleHub }
  engine := { b.engine with
    insuranceFund := b.engine.insuranceFund.or a.engine.insuranceFund
    feePool := b.engine.feePool.or a.engine.feePool
    eligibleCollateral := b.engine.eligibleCollateral.or a.engine.eligibleCollateral }
  vamm := { b.vamm with pricefeed := b.vamm.pricefeed.or a.vamm.pricefeed }
  assets := b.assets

theorem address_inheriting (b a : Record) (m : Module) :
    (b.inheriting a).address m = (b.address m).or (a.address m) := by
  cases m <;> rfl

/-- Nothing comes from a record without addresses. -/
theorem inheriting_eq_self (h : ∀ m, a.address m = none) : b.inheriting a = b := by
  have hhub : a.priceFeed.oracleHub = none := h .oracleHub
  have hfund : a.engine.insuranceFund = none := h .insuranceFund
  have hfees : a.engine.feePool = none := h .feePool
  have hcollateral : a.engine.eligibleCollateral = none := h .eligibleCollateral
  have hfeed : a.vamm.pricefeed = none := h .pricefeed
  simp only [inheriting, hhub, hfund, hfees, hcollateral, hfeed, Option.or_none]

theorem sectionValues_inheriting (b a : Record) (s : Section) :
    (b.inheriting a).sectionValues s =
      List.zipWith (fun value other => (value.1, value.2.inheriting other.2))
        (b.sectionValues s) (a.sectionValues s) := by
  cases s <;> simp [sectionValues, inheriting, PriceFeed.values, Engine.values, Vamm.values]

/-- Under the key of a section there is what is written for it, on top of what is there. -/
theorem get?_overlay_toJson (members : List (String × Json)) (b : Record) (s : Section) :
    ((Json.obj members).overlay b.toJson).get? s.key =
      some (Json.overlayOn ((Json.obj members).get? s.key) (b.sectionJson s)) := by
  rw [toJson, Json.overlay_obj]
  refine Json.member?_overlayMembers_of_some ?_ (get?_toJson b s) members
  rw [keys_toJson]
  decide

/-- The section of an overlay is written as it is, or it is on top of the one below. -/
theorem get?_overlay_toJson_cases (hadmits : Admits (.obj members)) (hs : s ∈ objectSections)
    (b : Record) :
    (Json.obj members).get? s.key = none ∧ ((Json.obj members).overlay b.toJson).get? s.key =
        some (.obj (written (b.sectionValues s))) ∨
      ∃ fields, (Json.obj members).get? s.key = some (.obj fields) ∧
        ((Json.obj members).overlay b.toJson).get? s.key =
          some (.obj (Json.overlayMembers fields (written (b.sectionValues s)))) := by
  rw [get?_overlay_toJson, sectionJson_eq b hs]
  cases h : (Json.obj members).get? s.key with
  | none => exact .inl ⟨rfl, rfl⟩
  | some v =>
      obtain ⟨fields, rfl, -⟩ := hadmits.sections s hs v h
      exact .inr ⟨fields, rfl, by rw [Json.overlayOn, Json.overlay_obj]⟩

/-- Assets are a list, which takes the place of the one below. -/
theorem get?_assets_overlay_toJson (members : List (String × Json)) (b : Record) :
    ((Json.obj members).overlay b.toJson).get? Section.initialAssets.key =
      b.toJson.get? Section.initialAssets.key := by
  rw [get?_overlay_toJson, get?_toJson, sectionJson, Json.overlayOn_of_not_isObject rfl]

theorem admits_overlay_toJson (hadmits : Admits (.obj members)) (hb : b.IsProper) :
    Admits ((Json.obj members).overlay b.toJson) := by
  obtain ⟨hvalues, -⟩ := forall_mem_values.mp hb
  refine ⟨?_, ?_, ?_⟩
  · obtain ⟨_, hmembers, hrequired, hknown⟩ := hadmits.keys
    cases hmembers
    refine ⟨_, Json.overlay_obj members _, ?_⟩
    rw [Json.keys_overlayMembers (by rw [keys_toJson]; decide)]
    refine ⟨fun s hs => List.mem_append_left _ (hrequired s hs), fun k hk => ?_⟩
    rcases List.mem_append.mp hk with hk | hk
    · exact hknown k hk
    · obtain ⟨s, -, rfl⟩ := List.mem_map.mp (keys_toJson b ▸ List.mem_of_mem_filter hk)
      exact ⟨s, rfl⟩
  · rw [get?_assets_overlay_toJson]
    exact (admits_toJson hb).assets
  · intro s hs v hv
    obtain ⟨-, hget⟩ | ⟨fields, hfields, hget⟩ := get?_overlay_toJson_cases hadmits hs b
    · cases hget.symm.trans hv
      exact admits_written (fits_sectionValues b hs) (hvalues s hs)
    · cases hget.symm.trans hv
      exact admits_overlay (fits_sectionValues b hs) (hvalues s hs)
        (hadmits.sections s hs _ hfields)

theorem isLegible_overlay_toJson (hadmits : Admits (.obj members))
    (legible : IsLegible (.obj members)) (hb : b.IsProper) :
    IsLegible ((Json.obj members).overlay b.toJson) := by
  obtain ⟨hvalues, -⟩ := forall_mem_values.mp hb
  constructor
  · intro s hs v hv
    obtain ⟨-, hget⟩ | ⟨fields, hfields, hget⟩ := get?_overlay_toJson_cases hadmits hs b
    · cases hget.symm.trans hv
      exact isLegible_written (fits_sectionValues b hs) (hvalues s hs)
    · cases hget.symm.trans hv
      exact isLegible_overlay (fits_sectionValues b hs) (hvalues s hs)
        (legible.sections s hs _ hfields)
  · rw [get?_assets_overlay_toJson]
    exact (isLegible_toJson hb).assets

theorem transcribes_overlay_toJson (hadmits : Admits (.obj members))
    (ha : Transcribes (.obj members) a) (hb : b.IsProper) :
    Transcribes ((Json.obj members).overlay b.toJson) (b.inheriting a) := by
  obtain ⟨hvalues, -⟩ := forall_mem_values.mp hb
  have hstores (s : Section) (hs : s ∈ objectSections)
      (hbelow : ∃ v, (Json.obj members).get? s.key = some v ∧ s.Stores v (a.sectionValues s)) :
      ∃ v, ((Json.obj members).overlay b.toJson).get? s.key = some v ∧
        s.Stores v ((b.inheriting a).sectionValues s) := by
    obtain ⟨v, hv, hbelow⟩ := hbelow
    obtain ⟨hnone, -⟩ | ⟨fields, hfields, hget⟩ := get?_overlay_toJson_cases hadmits hs b
    · cases hnone.symm.trans hv
    · cases hfields.symm.trans hv
      refine ⟨_, hget, ?_⟩
      rw [sectionValues_inheriting]
      exact stores_overlay (fits_sectionValues b hs) (hvalues s hs) hbelow
  refine ⟨hstores .priceFeed (by decide) ha.priceFeed, hstores .engine (by decide) ha.engine,
    hstores .vamm (by decide) ha.vamm, ?_⟩
  rw [get?_assets_overlay_toJson]
  exact (transcribes_toJson hb).assets

/-- What is written for a record, on top of a value that another record is read from, is read
as the record with its empty slots as they are in the other one. -/
theorem ofJson_overlay_toJson (legible : IsLegible raw) (ha : ofJson raw = .ok a)
    (hb : b.IsProper) : ofJson (raw.overlay b.toJson) = .ok (b.inheriting a) := by
  have hadmits : Admits raw := violations_eq_nil_iff.mp
    ((reports_ofJson_of_isLegible legible).exists_ok_iff.mp ⟨a, ha⟩)
  obtain ⟨members, rfl, -⟩ := hadmits.keys
  exact ofJson_of_transcribes (isLegible_overlay_toJson hadmits legible hb)
    (admits_overlay_toJson hadmits hb)
    (transcribes_overlay_toJson hadmits (transcribes_ofJson ha) hb)

end Record

end PerpRollout
