import PerpRollout.Proofs.Check
import PerpRollout.Proofs.Outcome
import PerpRollout.Record.Basic

/-!
# What a written record may be

The schema of a record is stated without reference to how a record is read:
`Record.Admits` says which values are written records, `Record.Transcribes` which
record such a value stands for, and `Record.violations` lists the places of any
value that break the schema, in the order sections and fields are looked at.

`Record.ofJson_schema` says that reading follows the schema: it succeeds exactly
on the values admitted, gives the record they stand for, and otherwise rejects
the first violation. Integers too long to be shown are left out, since a message
about them cannot be made.
-/

namespace PerpRollout

/-! ## Reading that reports the first violation -/

/-- Reading with these violations: without any it succeeds, else it rejects the
first, which is in no environment yet. -/
def Reports {α : Type} (x : Except Failure α) : List String → Prop
  | [] => ∃ a, x = .ok a
  | field :: _ => ∃ reason, x = .error (.invalid ⟨field, none, reason⟩)

namespace Reports

variable {α β : Type}

theorem ok (a : α) : Reports (.ok a) [] :=
  ⟨a, rfl⟩

theorem exists_ok_iff {x : Except Failure α} {vs : List String} (h : Reports x vs) :
    (∃ a, x = .ok a) ↔ vs = [] := by
  cases vs with
  | nil => exact ⟨fun _ => rfl, fun _ => h⟩
  | cons field vs =>
      obtain ⟨reason, h⟩ := h
      constructor
      · intro hok
        rcases hok with ⟨a, ha⟩
        rw [h] at ha
        cases ha
      · intro hnil
        cases hnil

theorem exists_error {x : Except Failure α} {vs : List String} (h : Reports x vs)
    (hvs : vs ≠ []) :
    ∃ field rest reason, vs = field :: rest ∧ x = .error (.invalid ⟨field, none, reason⟩) := by
  cases vs with
  | nil => exact absurd rfl hvs
  | cons field vs =>
      obtain ⟨reason, h⟩ := h
      exact ⟨field, vs, reason, rfl, h⟩

/-- Two steps in a row report what the first finds before what the second finds. -/
theorem bind {x : Except Failure α} {f : α → Except Failure β} {vs ws : List String}
    (hx : Reports x vs) (hf : ∀ a, x = .ok a → Reports (f a) ws) :
    Reports (x >>= f) (vs ++ ws) := by
  cases vs with
  | nil =>
      obtain ⟨a, rfl⟩ := hx
      exact hf a rfl
  | cons field vs =>
      obtain ⟨reason, rfl⟩ := hx
      exact ⟨reason, rfl⟩

/-- A step after one that reports something is not taken. -/
theorem stop {x : Except Failure α} {field : String} {vs : List String}
    (h : Reports x (field :: vs)) (f : α → Except Failure β) :
    Reports (x >>= f) (field :: vs) := by
  obtain ⟨reason, rfl⟩ := h
  exact ⟨reason, rfl⟩

theorem map {x : Except Failure α} {vs : List String} (h : Reports x vs) (f : α → β) :
    Reports (x >>= fun a => pure (f a)) vs := by
  rw [← List.append_nil vs]
  exact h.bind fun a _ => ok (f a)

theorem mapM {f : α → Except Failure β} {vs : α → List String} {items : List α}
    (h : ∀ a ∈ items, Reports (f a) (vs a)) : Reports (items.mapM f) (items.flatMap vs) := by
  induction items with
  | nil => exact ⟨[], rfl⟩
  | cons a items ih =>
      rw [List.mapM_cons, List.flatMap_cons]
      refine (h a List.mem_cons_self).bind fun b _ => ?_
      have hrest := ih fun x hx => h x (List.mem_cons_of_mem a hx)
      exact hrest.map (b :: ·)

end Reports

/-! ## Fields -/

namespace FieldKind

/-- The values that a field of the kind takes. -/
def admits : FieldKind → Json → Bool
  | .integer, .int _ => true
  | .numeral, .int _ => true
  | .numeral, .str _ => true
  | .address, .null => true
  | .address, .str _ => true
  | .text, .str _ => true
  | _, _ => false

/-- What a field of the kind holds for a written value, or for none. -/
def stored : FieldKind → Option Json → Option Datum
  | .integer, none => some (.integer FixedPoint.defaultDecimals)
  | .integer, some (.int n) => some (.integer n)
  | .numeral, some (.int n) => some (.text (Numeral.ofInt n))
  | .numeral, some (.str s) => some (.text s)
  | .address, none => some (.address none)
  | .address, some .null => some (.address none)
  | .address, some (.str s) => some (.address (if s = "" then none else some s))
  | .text, some (.str s) => some (.text s)
  | _, _ => none

theorem read_numeral_int {path : String} {n : Int} (h : Numeral.isWritable n = true) :
    FieldKind.numeral.read path (.int n) = .ok (.text (Numeral.ofInt n)) := by
  rw [FieldKind.read, if_pos h]

/-- An integer may be of any length where it is taken as it is. -/
theorem reports_read (k : FieldKind) (path : String) {v : Json}
    (hv : k = .numeral ∨ k.admits v = false → v.isWritable = true) :
    Reports (k.read path v) (if k.admits v then [] else [path]) := by
  have hreject (reason : Reason) (hreason : reason.isWritable = true) :
      Reports (reject path none reason : Except Failure Datum) [path] :=
    ⟨reason, by rw [reject, if_pos hreason]⟩
  cases k with
  | integer =>
      cases v with
      | int n => exact .ok _
      | _ => exact hreject _ (hv (.inr rfl))
  | numeral =>
      cases v with
      | int n =>
          rw [read_numeral_int (by simpa [Json.isWritable] using hv)]
          exact .ok _
      | str s => exact .ok _
      | _ => exact hreject _ (hv (.inr rfl))
  | address =>
      cases v with
      | null => exact .ok _
      | str s => exact .ok _
      | _ => exact hreject _ (hv (.inr rfl))
  | text =>
      cases v with
      | str s => exact .ok _
      | _ => exact hreject _ (hv (.inr rfl))

theorem stored_of_read {k : FieldKind} {path : String} {v : Json} {d : Datum}
    (h : k.read path v = .ok d) : k.stored (some v) = some d := by
  cases k with
  | integer =>
      cases v with
      | int n => cases h; rfl
      | _ => cases h
  | numeral =>
      cases v with
      | int n =>
          rw [FieldKind.read] at h
          split at h
          · cases h
            rfl
          · cases h
      | str s => cases h; rfl
      | _ => cases h
  | address =>
      cases v with
      | null => cases h; rfl
      | str s =>
          cases h
          simp [stored]
      | _ => cases h
  | text =>
      cases v with
      | str s => cases h; rfl
      | _ => cases h

end FieldKind

/-! ## Sections -/

namespace Json

/-- An object with all required keys and no others than those allowed. -/
def hasKeys (required allowed : List String) : Json → Bool
  | .obj members =>
    required.all (keys members).contains && (keys members).all allowed.contains
  | _ => false

/-- The members of a value; none if it is no object. -/
def members : Json → List (String × Json)
  | .obj members => members
  | _ => []

theorem hasKeys_iff {required allowed : List String} {raw : Json} :
    raw.hasKeys required allowed = true ↔ ∃ members, raw = .obj members ∧
      (∀ k ∈ required, k ∈ keys members) ∧ ∀ k ∈ keys members, k ∈ allowed := by
  cases raw <;> simp [hasKeys]

theorem membersWritable_iff {members : List (String × Json)} :
    membersWritable members = true ↔ ∀ m ∈ members, m.2.isWritable = true := by
  induction members with
  | nil => simp [membersWritable]
  | cons m members ih =>
      obtain ⟨k, v⟩ := m
      simp [membersWritable, ih]

theorem itemsWritable_iff {items : List Json} :
    itemsWritable items = true ↔ ∀ v ∈ items, v.isWritable = true := by
  induction items with
  | nil => simp [itemsWritable]
  | cons v items ih => simp [itemsWritable, ih]

theorem mem_of_member? {name : String} {v : Json} {members : List (String × Json)}
    (h : member? name members = some v) : (name, v) ∈ members := by
  obtain ⟨before, after, rfl, -⟩ := List.lookup_eq_some_iff.mp h
  simp

theorem isWritable_of_get? {raw v : Json} {name : String} (hraw : raw.isWritable = true)
    (h : raw.get? name = some v) : v.isWritable = true := by
  cases raw with
  | obj members => exact membersWritable_iff.mp hraw (name, v) (mem_of_member? h)
  | _ => cases h

theorem exists_member? {name : String} {members : List (String × Json)} (h : name ∈ keys members) :
    ∃ v, member? name members = some v := by
  obtain ⟨m, hm, rfl⟩ := List.mem_map.mp h
  rw [← Option.isSome_iff_exists, member?, List.lookup_isSome_iff]
  exact ⟨m, hm, by simp⟩

end Json

theorem Check.reports_object (raw : Json) (required allowed : List String) (field : String) :
    Reports (within field none (Check.object raw required (some allowed) field))
      (if raw.hasKeys required allowed then [] else [field]) := by
  cases h : Check.object raw required (some allowed) field with
  | ok members =>
      obtain ⟨rfl, hrequired, hallowed⟩ := Check.object_eq_ok_iff.mp h
      have hkeys : (Json.obj members).hasKeys required allowed = true :=
        Json.hasKeys_iff.mpr ⟨members, rfl, hrequired, hallowed allowed rfl⟩
      rw [if_pos hkeys]
      exact .ok members
  | error e =>
      obtain ⟨fault, rfl⟩ := Check.object_eq_error h
      have hkeys : ¬raw.hasKeys required allowed = true := by
        intro hkeys
        obtain ⟨members, rfl, hrequired, hallowed⟩ := Json.hasKeys_iff.mp hkeys
        have hok : Check.object (.obj members) required (some allowed) field = .ok members :=
          Check.object_eq_ok_iff.mpr ⟨rfl, hrequired, by simpa using hallowed⟩
        rw [h] at hok
        cases hok
      rw [if_neg hkeys]
      exact ⟨.fault fault, rfl⟩

namespace Section

theorem kindOf_name {s : Section} {f : Field} (hf : f ∈ s.fields) : s.kindOf f.name = f.kind := by
  revert f
  cases s <;> decide

/-- A written section: an object with all required fields in which each member is
a field and has a value that the field takes. -/
def Admits (s : Section) (raw : Json) : Prop :=
  ∃ members, raw = .obj members ∧ (∀ f ∈ s.fields, f.required = true → f.name ∈ Json.keys members) ∧
    ∀ m ∈ members, ∃ f ∈ s.fields, f.name = m.1 ∧ f.kind.admits m.2 = true

/-- The places of a section that break the schema: the section itself when its
keys do, else the fields with a value they do not take, in the order written. -/
def violations (s : Section) (raw : Json) : List String :=
  if raw.hasKeys s.requiredNames s.fieldNames then
    raw.members.flatMap fun m => if (s.kindOf m.1).admits m.2 then [] else [s.path m.1]
  else [s.key]

theorem violations_eq_nil_iff {s : Section} {raw : Json} :
    s.violations raw = [] ↔ s.Admits raw := by
  have hrequired (members : List (String × Json)) :
      (∀ k ∈ s.requiredNames, k ∈ Json.keys members) ↔
        ∀ f ∈ s.fields, f.required = true → f.name ∈ Json.keys members := by
    constructor
    · intro h f hf hreq
      exact h f.name (List.mem_map_of_mem (List.mem_filter.mpr ⟨hf, hreq⟩))
    · intro h k hk
      obtain ⟨f, hf, rfl⟩ := List.mem_map.mp hk
      exact h f (List.mem_filter.mp hf).1 (List.mem_filter.mp hf).2
  unfold violations
  split
  next hkeys =>
    obtain ⟨members, rfl, hreq, hallowed⟩ := Json.hasKeys_iff.mp hkeys
    rw [List.flatMap_eq_nil_iff]
    constructor
    · intro h
      refine ⟨members, rfl, (hrequired members).mp hreq, fun m hm => ?_⟩
      obtain ⟨f, hf, hname⟩ := List.mem_map.mp (hallowed m.1 (List.mem_map_of_mem hm))
      refine ⟨f, hf, hname, ?_⟩
      have hadmits := h m hm
      rw [← hname, kindOf_name hf] at hadmits
      simpa using hadmits
    · intro h m hm
      obtain ⟨members', hobj, -, hvalues⟩ := h
      cases hobj
      obtain ⟨f, hf, hname, hadmits⟩ := hvalues m hm
      rw [← hname, kindOf_name hf, if_pos hadmits]
  next hkeys =>
    constructor
    · intro h
      cases h
    · intro h
      obtain ⟨members, rfl, hreq, hvalues⟩ := h
      refine absurd (Json.hasKeys_iff.mpr ⟨members, rfl, (hrequired members).mpr hreq, ?_⟩) hkeys
      intro k hk
      obtain ⟨m, hm, rfl⟩ := List.mem_map.mp hk
      obtain ⟨f, hf, hname, -⟩ := hvalues m hm
      exact List.mem_map.mpr ⟨f, hf, hname⟩

/-- Reading the section writes no integer that is too long: neither in place of a numeral
nor in a message about a value that is not taken. -/
def IsLegible (s : Section) (raw : Json) : Prop :=
  ∀ m ∈ raw.members, (s.kindOf m.1 = .numeral ∨ (s.kindOf m.1).admits m.2 = false) →
    m.2.isWritable = true

theorem isLegible_of_isWritable {s : Section} {raw : Json} (h : raw.isWritable = true) :
    s.IsLegible raw := by
  intro m hm _
  cases raw with
  | obj members => exact Json.membersWritable_iff.mp h m hm
  | _ => cases hm

theorem reports_read (s : Section) {raw : Json} (hraw : s.IsLegible raw) :
    Reports (s.read raw) (s.violations raw) := by
  have hshape := Check.reports_object raw s.requiredNames s.fieldNames s.key
  unfold violations
  split
  next hkeys =>
    rw [if_pos hkeys] at hshape
    refine hshape.bind fun members h => ?_
    obtain ⟨rfl, -⟩ := Check.object_eq_ok_iff.mp (within_eq_ok_iff.mp h)
    refine Reports.mapM fun m hm => ?_
    exact ((s.kindOf m.1).reports_read (s.path m.1) (hraw m hm)).map fun d => (m.1, d)
  next hkeys =>
    rw [if_neg hkeys] at hshape
    exact hshape.stop _

theorem lookup_of_forall₂ {s : Section} {members : List (String × Json)}
    {data : List (String × Datum)}
    (h : List.Forall₂ (fun m e => e.1 = m.1 ∧ (s.kindOf m.1).stored (some m.2) = some e.2)
      members data) (name : String) :
    (members.lookup name = none ∧ data.lookup name = none) ∨
      ∃ v d, members.lookup name = some v ∧ (s.kindOf name).stored (some v) = some d ∧
        data.lookup name = some d := by
  induction h with
  | nil => exact .inl ⟨rfl, rfl⟩
  | @cons m e members data hm _ ih =>
      obtain ⟨k, v⟩ := m
      obtain ⟨k', d⟩ := e
      obtain ⟨rfl, hd⟩ := hm
      rw [List.lookup_cons, List.lookup_cons]
      by_cases hname : name = k'
      · subst hname
        exact .inr ⟨v, d, by simp, hd, by simp⟩
      · rw [beq_false_of_ne hname]
        exact ih

theorem lookup_read {s : Section} {raw : Json} {data : List (String × Datum)}
    (h : s.read raw = .ok data) (name : String) :
    (raw.get? name = none ∧ data.lookup name = none) ∨
      ∃ v d, raw.get? name = some v ∧ (s.kindOf name).stored (some v) = some d ∧
        data.lookup name = some d := by
  obtain ⟨members, hshape, hdata⟩ := bind_eq_ok_iff.mp h
  obtain ⟨rfl, -⟩ := Check.object_eq_ok_iff.mp (within_eq_ok_iff.mp hshape)
  refine lookup_of_forall₂ ((mapM_eq_ok_iff.mp hdata).imp fun m e hm => ?_) name
  obtain ⟨d, hd, he⟩ := bind_eq_ok_iff.mp hm
  cases he
  exact ⟨rfl, FieldKind.stored_of_read hd⟩

theorem exists_get?_of_required {s : Section} {raw : Json} {data : List (String × Datum)}
    (h : s.read raw = .ok data) {f : Field} (hf : f ∈ s.fields) (hreq : f.required = true) :
    ∃ v, raw.get? f.name = some v := by
  obtain ⟨members, hshape, -⟩ := bind_eq_ok_iff.mp h
  obtain ⟨rfl, hrequired, -⟩ := Check.object_eq_ok_iff.mp (within_eq_ok_iff.mp hshape)
  exact Json.exists_member?
    (hrequired f.name (List.mem_map_of_mem (List.mem_filter.mpr ⟨hf, hreq⟩)))

/-- The values of a section, field by field, hold what is written. -/
def Stores (s : Section) (raw : Json) (values : List (String × Datum)) : Prop :=
  List.Forall₂ (fun f value => value.1 = f.name ∧ f.kind.stored (raw.get? f.name) = some value.2)
    s.fields values

/-- What is taken from the data of a section as the value of a field. -/
def taken (default : String → Int) (data : List (String × Datum)) (f : Field) : String × Datum :=
  (f.name, match f.kind with
    | .integer => .integer (Datum.integerOf f.name (default f.name) data)
    | .address => .address (Datum.addressOf f.name data)
    | .numeral => .text (Datum.textOf f.name data)
    | .text => .text (Datum.textOf f.name data))

theorem required_of_kind {s : Section} {f : Field} (hf : f ∈ s.fields)
    (h : f.kind = .numeral ∨ f.kind = .text) : f.required = true := by
  revert f
  cases s <;> decide

theorem stores_taken {s : Section} {raw : Json} {data : List (String × Datum)}
    (h : s.read raw = .ok data) (default : String → Int)
    (hdefault : ∀ f ∈ s.fields, f.required = false → default f.name = FixedPoint.defaultDecimals) :
    s.Stores raw (s.fields.map (taken default data)) := by
  unfold Stores
  rw [List.forall₂_map_right_iff, List.forall₂_same]
  intro f hf
  refine ⟨rfl, ?_⟩
  unfold taken
  rcases lookup_read h f.name with ⟨hget, hlookup⟩ | ⟨v, d, hget, hstored, hlookup⟩
  · have hreq : f.required = false := by
      by_contra hreq
      obtain ⟨v, hv⟩ := exists_get?_of_required h hf (by simpa using hreq)
      rw [hget] at hv
      cases hv
    rw [hget]
    cases hkind : f.kind with
    | integer => simp [FieldKind.stored, Datum.integerOf, hlookup, hdefault f hf hreq]
    | address => simp [FieldKind.stored, Datum.addressOf, hlookup]
    | numeral => simp [required_of_kind hf (.inl hkind)] at hreq
    | text => simp [required_of_kind hf (.inr hkind)] at hreq
  · rw [kindOf_name hf] at hstored
    rw [hget, hstored]
    cases hkind : f.kind with
    | integer =>
        rw [hkind] at hstored
        cases v <;> cases hstored
        simp [Datum.integerOf, hlookup]
    | address =>
        rw [hkind] at hstored
        cases v <;> cases hstored <;> simp [Datum.addressOf, hlookup]
    | numeral =>
        rw [hkind] at hstored
        cases v <;> cases hstored <;> simp [Datum.textOf, hlookup]
    | text =>
        rw [hkind] at hstored
        cases v <;> cases hstored
        simp [Datum.textOf, hlookup]

end Section

/-!
## Records

The `values` of a section stand in the order its fields are declared.
-/

def PriceFeed.values (p : PriceFeed) : List (String × Datum) :=
  [("decimals", .integer p.decimals), ("oracle_hub_contract", .address p.oracleHub)]

def Engine.values (e : Engine) : List (String × Datum) :=
  [("decimals", .integer e.decimals), ("initial_margin_ratio", .text e.initialMarginRatio),
    ("maintenance_margin_ratio", .text e.maintenanceMarginRatio),
    ("liquidation_fee", .text e.liquidationFee), ("insurance_fund", .address e.insuranceFund),
    ("fee_pool", .address e.feePool), ("eligible_collateral", .address e.eligibleCollateral)]

def Vamm.values (v : Vamm) : List (String × Datum) :=
  [("decimals", .integer v.decimals), ("quote_asset", .text v.quoteAsset),
    ("base_asset", .text v.baseAsset), ("quote_asset_reserve", .text v.quoteReserve),
    ("base_asset_reserve", .text v.baseReserve), ("funding_period", .integer v.fundingPeriod),
    ("toll_ratio", .text v.tollRatio), ("spread_ratio", .text v.spreadRatio),
    ("fluctuation_limit_ratio", .text v.fluctuationLimitRatio), ("pricefeed", .address v.pricefeed)]

def Asset.values (a : Asset) : List (String × Datum) :=
  [("symbol", .text a.symbol), ("address", .address a.address), ("decimals", .integer a.decimals)]

open Section

theorem PriceFeed.stores_ofData {raw : Json} {data : List (String × Datum)}
    (h : Section.priceFeed.read raw = .ok data) :
    Section.priceFeed.Stores raw (PriceFeed.ofData data).values :=
  stores_taken h (fun _ => FixedPoint.defaultDecimals) fun _ _ _ => rfl

theorem Engine.stores_ofData {raw : Json} {data : List (String × Datum)}
    (h : Section.engine.read raw = .ok data) :
    Section.engine.Stores raw (Engine.ofData data).values :=
  stores_taken h (fun _ => FixedPoint.defaultDecimals) fun _ _ _ => rfl

/-- The funding period must be there, so its default does not matter. -/
theorem Vamm.stores_ofData {raw : Json} {data : List (String × Datum)}
    (h : Section.vamm.read raw = .ok data) :
    Section.vamm.Stores raw (Vamm.ofData data).values :=
  stores_taken h
    (fun name => if name = "funding_period" then 0 else FixedPoint.defaultDecimals) (by decide)

theorem Asset.stores_ofData {raw : Json} {data : List (String × Datum)}
    (h : Section.initialAssets.read raw = .ok data) :
    Section.initialAssets.Stores raw (Asset.ofData data).values :=
  stores_taken h (fun _ => FixedPoint.defaultDecimals) fun _ _ _ => rfl

namespace Record

/-- The sections that are objects, in the order they are looked at. -/
def objectSections : List Section := [.priceFeed, .engine, .vamm, .insuranceFund]

/-- The value is a written record. -/
structure Admits (raw : Json) : Prop where
  /-- An object of sections, with those that must be there. -/
  keys : ∃ members, raw = .obj members ∧
    (∀ s ∈ requiredSections, s.key ∈ Json.keys members) ∧
    ∀ k ∈ Json.keys members, ∃ s : Section, k = s.key
  /-- The assets are a list of written assets, if they are there. -/
  assets : ∀ v, raw.get? Section.initialAssets.key = some v →
    ∃ items, v = .arr items ∧ ∀ item ∈ items, Section.initialAssets.Admits item
  /-- The other sections that are there are written sections. -/
  sections : ∀ s ∈ objectSections, ∀ v, raw.get? s.key = some v → s.Admits v

/-- The record holds what is written. -/
structure Transcribes (raw : Json) (r : Record) : Prop where
  priceFeed : ∃ v, raw.get? Section.priceFeed.key = some v ∧
    Section.priceFeed.Stores v r.priceFeed.values
  engine : ∃ v, raw.get? Section.engine.key = some v ∧ Section.engine.Stores v r.engine.values
  vamm : ∃ v, raw.get? Section.vamm.key = some v ∧ Section.vamm.Stores v r.vamm.values
  assets : ∃ items, (raw.get? Section.initialAssets.key).getD (.arr []) = .arr items ∧
    List.Forall₂ (fun item a => Section.initialAssets.Stores item a.values) items r.assets

/-- The places that break the schema, in the order they are looked at: the keys
of the object, assets that are no list, the sections one by one, the assets. -/
def violations (raw : Json) : List String :=
  if raw.hasKeys (requiredSections.map Section.key) (Section.all.map Section.key) then
    match (raw.get? Section.initialAssets.key).getD (.arr []) with
    | .arr items =>
      (objectSections.flatMap fun s => (raw.get? s.key).toList.flatMap s.violations) ++
        items.flatMap Section.initialAssets.violations
    | _ => [Section.initialAssets.key]
  else ["config"]

theorem keys_iff {raw : Json} :
    raw.hasKeys (requiredSections.map Section.key) (Section.all.map Section.key) = true ↔
      ∃ members, raw = .obj members ∧ (∀ s ∈ requiredSections, s.key ∈ Json.keys members) ∧
        ∀ k ∈ Json.keys members, ∃ s : Section, k = s.key := by
  have hall (k : String) : k ∈ Section.all.map Section.key ↔ ∃ s : Section, k = s.key := by
    constructor
    · intro hk
      obtain ⟨s, -, rfl⟩ := List.mem_map.mp hk
      exact ⟨s, rfl⟩
    · intro hk
      obtain ⟨s, rfl⟩ := hk
      exact List.mem_map_of_mem (by cases s <;> decide)
  simp only [Json.hasKeys_iff, List.forall_mem_map, hall]

theorem items_violations_eq_nil_iff {items : List Json} :
    items.flatMap Section.initialAssets.violations = [] ↔
      ∀ item ∈ items, Section.initialAssets.Admits item := by
  simp only [List.flatMap_eq_nil_iff, Section.violations_eq_nil_iff]

theorem sections_violations_eq_nil_iff {raw : Json} :
    (objectSections.flatMap fun s => (raw.get? s.key).toList.flatMap s.violations) = [] ↔
      ∀ s ∈ objectSections, ∀ v, raw.get? s.key = some v → s.Admits v := by
  simp only [List.flatMap_eq_nil_iff, Section.violations_eq_nil_iff, Option.mem_toList]

/-- Nothing breaks the schema exactly in a written record. -/
theorem violations_eq_nil_iff {raw : Json} : violations raw = [] ↔ Admits raw := by
  unfold violations
  split
  next hkeys =>
    cases hassets : raw.get? Section.initialAssets.key with
    | none =>
        change _ ++ [] = [] ↔ _
        rw [List.append_nil, sections_violations_eq_nil_iff]
        constructor
        · intro h
          exact ⟨keys_iff.mp hkeys, by simp [hassets], h⟩
        · intro h
          exact h.sections
    | some v =>
        cases v with
        | arr items =>
            change _ ++ items.flatMap _ = [] ↔ _
            rw [List.append_eq_nil_iff, sections_violations_eq_nil_iff, items_violations_eq_nil_iff]
            constructor
            · intro h
              refine ⟨keys_iff.mp hkeys, fun v hv => ?_, h.1⟩
              rw [hassets] at hv
              cases hv
              exact ⟨items, rfl, h.2⟩
            · intro h
              obtain ⟨_, hitems, hall⟩ := h.assets _ hassets
              cases hitems
              exact ⟨h.sections, hall⟩
        | _ =>
            constructor
            · intro h
              cases h
            · intro h
              obtain ⟨_, hitems, -⟩ := h.assets _ hassets
              cases hitems
  next hkeys =>
    constructor
    · intro h
      cases h
    · intro h
      exact absurd (keys_iff.mpr h.keys) hkeys

/-- Reading the record writes no integer that is too long. -/
structure IsLegible (raw : Json) : Prop where
  sections : ∀ s ∈ objectSections, ∀ v, raw.get? s.key = some v → s.IsLegible v
  assets : ∀ items, (raw.get? Section.initialAssets.key).getD (.arr []) = .arr items →
    ∀ item ∈ items, Section.initialAssets.IsLegible item

theorem isWritable_of_items {raw : Json} (hraw : raw.isWritable = true) {name : String}
    {items : List Json} (h : (raw.get? name).getD (.arr []) = .arr items) :
    ∀ item ∈ items, item.isWritable = true := by
  rw [← Json.itemsWritable_iff]
  cases hget : raw.get? name with
  | none =>
      rw [hget] at h
      cases h
      rfl
  | some v =>
      rw [hget] at h
      cases h
      exact Json.isWritable_of_get? hraw hget

theorem isLegible_of_isWritable {raw : Json} (h : raw.isWritable = true) : IsLegible raw where
  sections _ _ _ hv := Section.isLegible_of_isWritable (Json.isWritable_of_get? h hv)
  assets _ hitems item hitem :=
    Section.isLegible_of_isWritable (isWritable_of_items h hitems item hitem)

/-- A section that is there reports what its reading reports, and one that is
not reports nothing. -/
theorem reports_read_getD {raw : Json} (hraw : IsLegible raw) {s : Section}
    (hs : s ∈ objectSections) {d : Json} (hd : raw.get? s.key = none → Reports (s.read d) []) :
    Reports (s.read ((raw.get? s.key).getD d))
      ((raw.get? s.key).toList.flatMap s.violations) := by
  cases h : raw.get? s.key with
  | none => exact hd h
  | some v => simpa using s.reports_read (hraw.sections s hs v h)

theorem get?_ne_none {members : List (String × Json)} {s : Section}
    (hrequired : ∀ k ∈ requiredSections.map Section.key, k ∈ Json.keys members)
    (hs : s ∈ requiredSections) : (Json.obj members).get? s.key ≠ none := by
  obtain ⟨v, hv⟩ := Json.exists_member? (hrequired s.key (List.mem_map_of_mem hs))
  change Json.member? s.key members ≠ none
  rw [hv]
  exact Option.some_ne_none v

theorem reports_ofJson_of_isLegible {raw : Json} (hraw : IsLegible raw) :
    Reports (ofJson raw) (violations raw) := by
  have hshape := Check.reports_object raw (requiredSections.map Section.key)
    (Section.all.map Section.key) "config"
  unfold violations ofJson
  split
  next hkeys =>
    rw [if_pos hkeys] at hshape
    refine hshape.bind fun members h => ?_
    obtain ⟨rfl, hrequired, -⟩ := Check.object_eq_ok_iff.mp (within_eq_ok_iff.mp h)
    have hread (s : Section) (hs : s ∈ objectSections) (hreq : s ∈ requiredSections) :=
      reports_read_getD (d := .null) hraw hs fun h => absurd h (get?_ne_none hrequired hreq)
    change Reports (match ((Json.obj members).get? Section.initialAssets.key).getD (.arr []) with
      | .arr items => _ | other => _) _
    cases hassets : ((Json.obj members).get? Section.initialAssets.key).getD (.arr []) with
    | arr items =>
        simp only [objectSections, List.flatMap_cons, List.flatMap_nil, List.append_nil,
          List.append_assoc]
        refine (hread .priceFeed (by decide) (by decide)).bind fun priceFeed _ => ?_
        refine (hread .engine (by decide) (by decide)).bind fun engine _ => ?_
        refine (hread .vamm (by decide) (by decide)).bind fun vamm _ => ?_
        have hnoFund : Reports (Section.insuranceFund.read (.obj [])) [] :=
          Section.insuranceFund.reports_read (Section.isLegible_of_isWritable rfl)
        refine (reports_read_getD hraw (by decide) fun _ => hnoFund).bind fun _ _ => ?_
        refine (Reports.mapM fun item hitem => ?_).map _
        exact (Section.initialAssets.reports_read (hraw.assets items hassets item hitem)).map _
    | _ => exact ⟨_, rfl⟩
  next hkeys =>
    rw [if_neg hkeys] at hshape
    exact hshape.stop _

theorem reports_ofJson {raw : Json} (hraw : raw.isWritable = true) :
    Reports (ofJson raw) (violations raw) :=
  reports_ofJson_of_isLegible (isLegible_of_isWritable hraw)

theorem exists_read_of_getD (raw : Json) (s : Section) {data : List (String × Datum)}
    (h : s.read ((raw.get? s.key).getD .null) = .ok data) :
    ∃ v, raw.get? s.key = some v ∧ s.read v = .ok data := by
  cases hget : raw.get? s.key with
  | none =>
      rw [hget] at h
      cases h
  | some v =>
      rw [hget] at h
      exact ⟨v, rfl, h⟩

theorem Asset.stores_of_ofJson {item : Json} {a : Asset} (h : Asset.ofJson item = .ok a) :
    Section.initialAssets.Stores item a.values := by
  obtain ⟨data, hdata, ha⟩ := bind_eq_ok_iff.mp h
  cases ha
  exact Asset.stores_ofData hdata

theorem transcribes_ofJson {raw : Json} {r : Record} (h : ofJson raw = .ok r) :
    Transcribes raw r := by
  obtain ⟨members, hshape, hsections⟩ := bind_eq_ok_iff.mp h
  obtain ⟨rfl, -⟩ := Check.object_eq_ok_iff.mp (within_eq_ok_iff.mp hshape)
  change (match ((Json.obj members).get? Section.initialAssets.key).getD (.arr []) with
    | .arr items => _ | other => _) = Except.ok r at hsections
  cases hassets : ((Json.obj members).get? Section.initialAssets.key).getD (.arr []) with
  | arr items =>
      rw [hassets] at hsections
      obtain ⟨priceFeed, hpriceFeed, hsections⟩ := bind_eq_ok_iff.mp hsections
      obtain ⟨engine, hengine, hsections⟩ := bind_eq_ok_iff.mp hsections
      obtain ⟨vamm, hvamm, hsections⟩ := bind_eq_ok_iff.mp hsections
      obtain ⟨_, _, hsections⟩ := bind_eq_ok_iff.mp hsections
      obtain ⟨assets, hitems, hsections⟩ := bind_eq_ok_iff.mp hsections
      cases hsections
      obtain ⟨v, hv, hpriceFeed⟩ := exists_read_of_getD (.obj members) .priceFeed hpriceFeed
      obtain ⟨w, hw, hengine⟩ := exists_read_of_getD (.obj members) .engine hengine
      obtain ⟨x, hx, hvamm⟩ := exists_read_of_getD (.obj members) .vamm hvamm
      exact {
        priceFeed := ⟨v, hv, PriceFeed.stores_ofData hpriceFeed⟩
        engine := ⟨w, hw, Engine.stores_ofData hengine⟩
        vamm := ⟨x, hx, Vamm.stores_ofData hvamm⟩
        assets := ⟨items, hassets, (mapM_eq_ok_iff.mp hitems).imp fun _ _ h =>
          Asset.stores_of_ofJson h⟩ }
  | _ =>
      rw [hassets] at hsections
      cases hsections

/-- Reading follows the schema: it accepts exactly the written records, gives the
record that is written, and rejects anything else at the first violation. -/
theorem ofJson_schema (raw : Json) (hraw : raw.isWritable = true) :
    ((∃ r, ofJson raw = .ok r) ↔ Admits raw) ∧
    (∀ r, ofJson raw = .ok r → Transcribes raw r) ∧
    (¬Admits raw → ∃ field rest reason, violations raw = field :: rest ∧
      ofJson raw = .error (.invalid ⟨field, none, reason⟩)) := by
  have hreports := reports_ofJson hraw
  refine ⟨?_, fun r h => transcribes_ofJson h, fun h => ?_⟩
  · rw [← violations_eq_nil_iff]
    exact hreports.exists_ok_iff
  · exact hreports.exists_error fun hnil => h (violations_eq_nil_iff.mp hnil)

/-- A value with three places that break the schema; the market maker comes first
in it and the assets next. -/
def misspelled : Json :=
  .obj [
    ("vammInitMsg", .obj [("decimals", .bool true), ("quote_asset", .str "usd"),
      ("base_asset", .str "eth"), ("quote_asset_reserve", .int 1000),
      ("base_asset_reserve", .str "100"), ("funding_period", .int 3600), ("toll_ratio", .str "0"),
      ("spread_ratio", .str "0"), ("fluctuation_limit_ratio", .str "0")]),
    ("initialAssets", .arr [.obj [("symbol", .str "usd")], .obj [("decimals", .int 6)]]),
    ("priceFeedInitMsg", .obj [("decimals", .int 6)]),
    ("engineInitMsg", .obj [("fee_pool", .int 1), ("decimals", .int 6),
      ("initial_margin_ratio", .int 62500), ("maintenance_margin_ratio", .str "50000"),
      ("liquidation_fee", .str "0")])]

theorem ofJson_schema_of_misspelled :
    misspelled.isWritable = true ∧ ¬Admits misspelled ∧
      ∃ reason, ofJson misspelled = .error (.invalid ⟨"engineInitMsg.fee_pool", none, reason⟩) := by
  have hraw : misspelled.isWritable = true := by decide
  have hviolations : violations misspelled =
      ["engineInitMsg.fee_pool", "vammInitMsg.decimals", "initialAssets"] := by decide
  have hnot : ¬Admits misspelled := by
    rw [← violations_eq_nil_iff, hviolations]
    exact List.cons_ne_nil _ _
  obtain ⟨field, rest, reason, hfirst, h⟩ := (ofJson_schema misspelled hraw).2.2 hnot
  rw [hviolations] at hfirst
  cases hfirst
  exact ⟨hraw, hnot, reason, h⟩

end Record

end PerpRollout
