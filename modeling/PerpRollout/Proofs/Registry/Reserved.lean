import PerpRollout.Proofs.Registry.File
import PerpRollout.Proofs.Registry.Mapping

/-!
# The names that the template form uses

An object of records may have no environment called `defaults` or `environments`, as it
would be taken for the template form. Reading refuses these names in such an object, but
not among the overrides of the template form, and registering does not refuse them: they
get into a registry on these two ways and on no other. What such a registry writes is
never read again, either because the names are refused or because the record under
`environments` is taken for the overrides (`reservedFault`); without such a name all of
it is read (`run_reserved`).
-/

namespace PerpRollout.Registry

variable {r : Registry} {name : String}

/-! ## How a reserved name gets in -/

/-- The name is that of an override in the template form. -/
def Nests (raw : Json) (name : String) : Prop :=
  ∃ members, raw = .obj members ∧ IsTemplate members ∧ name ∈ Json.keys (overrides members)

theorem keys_records_of_isTemplate {members : List (String × Json)} (h : IsTemplate members) :
    Json.keys (records members) = Json.keys (overrides members) := by
  rw [records, if_pos h, Json.keys, List.map_map]
  rfl

theorem mem_names_ofJson_of_reserved {raw : Json} {issued : Nat}
    (h : (ofJson raw issued).result = .ok r) (hname : name ∈ templateKeys) :
    name ∈ r.names ↔ Nests raw name := by
  obtain ⟨members, rfl, hshape, h⟩ := exists_members_of_result_ofJson h
  rw [mem_names_registerAll h]
  by_cases htemplate : IsTemplate members
  · simp [Nests, htemplate, keys_records_of_isTemplate, names]
  · rw [WellShaped, if_neg htemplate] at hshape
    simp [Nests, htemplate, records, names, hshape name hname]

/-! ## What is written under a reserved name -/

theorem keys_members_toJson (r : Registry) : Json.keys r.toJson.members = r.names := by
  simp [toJson, Json.members, Json.keys, names]

theorem member?_members_toJson (r : Registry) (name : String) :
    Json.member? name r.toJson.members = (r.find? name).map (·.edition.record.toJson) := by
  change (r.entries.map fun e => (e.name, e.edition.record.toJson)).lookup name =
    (r.entries.find? fun e => e.name = name).map _
  induction r.entries with
  | nil => rfl
  | cons e entries ih =>
      rw [List.map_cons, List.lookup_cons, List.find?_cons, ih]
      by_cases h : e.name = name
      · simp [h]
      · have hne : (name == e.name) = false := by simpa using Ne.symm h
        simp [h, hne]

/-- The fault that is told of a registry with a reserved name, when what it writes is
read: the first section of a record is no override. -/
def reservedFault (names : List String) : Invalid :=
  if environmentsKey ∈ names ∧ ∀ name ∈ names, name = defaultsKey ∨ name = environmentsKey then
    ⟨"environments.initialAssets", some "initialAssets",
      .fault (.notObject "environments.initialAssets" .arr)⟩
  else ⟨"registry", none, .reservedNames (templateKeys.filter (· ∈ names))⟩

theorem isPart_partOf_toJson (r : Registry) (key : String) :
    IsPart (partOf r.toJson.members key) := by
  rw [partOf, member?_members_toJson]
  cases r.find? key with
  | none => exact .inl rfl
  | some e => exact .inr ⟨_, rfl⟩

theorem isTemplate_toJson_iff : IsTemplate r.toJson.members ↔
    environmentsKey ∈ r.names ∧ ∀ name ∈ r.names, name = defaultsKey ∨ name = environmentsKey := by
  rw [IsTemplate, keys_members_toJson]

theorem shapeFaults_toJson (h : ∃ name ∈ templateKeys, name ∈ r.names) :
    ∃ rest, shapeFaults r.toJson.members = reservedFault r.names :: rest := by
  unfold shapeFaults reservedFault
  by_cases htemplate : IsTemplate r.toJson.members
  · rw [if_pos htemplate, if_pos (isTemplate_toJson_iff.mp htemplate)]
    obtain ⟨hname, -⟩ := isTemplate_toJson_iff.mp htemplate
    obtain ⟨e, he⟩ := Option.isSome_iff_exists.mp (isSome_find?_iff.mpr hname)
    have hoverrides : overrides r.toJson.members = e.edition.record.toJson.members := by
      rw [overrides, partOf, member?_members_toJson, he]
      rfl
    rw [partFaults_eq_nil_iff.mpr (isPart_partOf_toJson r _),
      partFaults_eq_nil_iff.mpr (isPart_partOf_toJson r _), hoverrides]
    exact ⟨_, rfl⟩
  · rw [if_neg htemplate, if_neg (mt isTemplate_toJson_iff.mpr htemplate), keys_members_toJson]
    obtain ⟨name, hkey, hname⟩ := h
    have hmem : name ∈ templateKeys.filter (· ∈ r.names) :=
      List.mem_filter.mpr ⟨hkey, decide_eq_true hname⟩
    split
    next hnil =>
      rw [hnil] at hmem
      cases hmem
    next => exact ⟨[], rfl⟩

theorem result_ofJson_toJson_of_reserved (h : ∃ name ∈ templateKeys, name ∈ r.names)
    (issued : Nat) :
    (ofJson r.toJson issued).result = .error (.invalid (reservedFault r.names)) := by
  obtain ⟨rest, hfaults⟩ := shapeFaults_toJson h
  exact result_ofJson_of_shapeFaults hfaults issued

/-! ## Runs -/

/-- Take any run of calls on a registry that was read. There is an environment under a
name that the template form uses exactly if that name was nested in the template form or
a call registered it. Without such a name, what the registry writes is read again as it
is; with one it is refused. -/
theorem run_reserved {raw : Json} {issued : Nat} {r : Registry}
    (hread : (ofJson raw issued).result = .ok r) {calls : List Call}
    (proper : ∀ call ∈ calls, ∀ c ∈ call.offered?, c.IsProper) :
    (∀ name ∈ templateKeys, name ∈ (r.run calls).names ↔
      Nests raw name ∨ ∃ c, (name, c) ∈ (r.accepted calls).filterMap Call.registration?) ∧
    ((∀ name ∈ templateKeys, name ∉ (r.run calls).names) → ∀ issued,
      (ofJson (r.run calls).toJson issued).result = .ok ((r.run calls).reloaded issued)) ∧
    ((∃ name ∈ templateKeys, name ∈ (r.run calls).names) → ∀ issued,
      (ofJson (r.run calls).toJson issued).result =
        .error (.invalid (reservedFault (r.run calls).names))) := by
  refine ⟨fun name hname => ?_, fun h issued => ?_, result_ofJson_toJson_of_reserved⟩
  · rw [mem_names_run, mem_names_ofJson_of_reserved hread hname]
  · have sound := sound_of_reachable (Reachable.run (.read hread) proper)
    exact result_ofJson_toJson sound (h _ (by decide)) (h _ (by decide)) issued

/-- The template form with an environment under a name that it uses itself. -/
def nesting : List (String × Json) :=
  [(defaultsKey, Environment.template), (environmentsKey, .obj [(environmentsKey, .null)])]

/-- A call that registers a record under the other name. -/
def registering : Call :=
  .register (.str defaultsKey) (.record escaping)

theorem proper_registering : ∀ c ∈ registering.offered?, c.IsProper := by
  intro c hc
  cases hc
  change ∀ value ∈ escaping.values, value.2.IsProper
  decide

/-- Both names get in, one nested and one registered, and nothing is read again. -/
theorem run_reserved_nesting : ∃ r, (ofJson (.obj nesting) 0).result = .ok r ∧
    environmentsKey ∈ (r.run [registering]).names ∧ defaultsKey ∈ (r.run [registering]).names ∧
    (ofJson (r.run [registering]).toJson 0).result =
      .error (.invalid (reservedFault (r.run [registering]).names)) := by
  have hmembers : (Json.obj nesting).WellFormed :=
    ⟨by decide, wellFormed_template, ⟨⟨by decide, trivial, trivial⟩, trivial⟩⟩
  obtain ⟨r, hr⟩ := exists_result_ofJson hmembers (by decide) (by decide) 0
  have hnew : r.find? defaultsKey = none := by
    rw [← Option.not_isSome_iff_eq_none, isSome_find?_iff,
      mem_names_ofJson_of_reserved hr (by decide)]
    rintro ⟨_, hraw, -, hnests⟩
    cases hraw
    revert hnests
    decide
  obtain ⟨r', hregister, -⟩ := exists_result_register (by decide) hnew escaping
  have hcall : r.attempt registering = .ok r' := hregister
  have haccepted : r.accepted [registering] = [registering] := accepted_cons_of_ok hcall []
  obtain ⟨hnames, -, hrefused⟩ := run_reserved hr (List.forall_mem_singleton.mpr proper_registering)
  have hnested := (hnames environmentsKey (by decide)).mpr
    (.inl ⟨nesting, rfl, by decide, by decide⟩)
  have hregistered := (hnames defaultsKey (by decide)).mpr
    (.inr ⟨escaping, by rw [haccepted]; exact List.mem_cons_self⟩)
  exact ⟨r, hr, hnested, hregistered, hrefused ⟨_, by decide, hnested⟩ 0⟩

/-- Registering is enough to have an environment under such a name. -/
theorem not_reserved_of_reachable :
    ¬∀ r, Reachable r → ∀ name ∈ templateKeys, name ∉ r.names := by
  intro h
  have hcall : attempt {} registering = .ok ⟨[⟨defaultsKey, ⟨escaping, 0⟩, []⟩], 1⟩ := rfl
  have hreachable := (Reachable.empty 0).call proper_registering hcall
  exact h _ hreachable defaultsKey (by decide) (by decide)

end PerpRollout.Registry
