import PerpRollout.Proofs.Registry.Source

/-!
# What a written registry gives

A written registry is looked at in two stages. First its shape: the faults of the shape
stand in a list (`shapeFaults`), and only when there are none are there records
(`records`); `writtenRecords_obj` says that of this the program tells the first fault or
gives the records. Then the records, one after the other, up to the first environment
that is refused (`FirstRefused`). So either everything is registered, or nothing comes of
it but one failure (`ofJson_all_or_nothing`).

Each place of the shape is looked at in turn, and `unlessFaulty` is one look: its lemmas
put the faults of looks that follow each other into one list.
-/

namespace PerpRollout.Registry

variable {α β : Type} {members : List (String × Json)}

/-! ## The first of several faults -/

/-- A result, unless something is at fault: then the first fault is told. -/
def unlessFaulty (faults : List Invalid) (a : α) : Except Failure α :=
  match faults with
  | [] => .ok a
  | i :: _ => .error (.invalid i)

theorem unlessFaulty_bind {faults later : List Invalid} {a : α} {b : β}
    {f : α → Except Failure β} (h : f a = unlessFaulty later b) :
    unlessFaulty faults a >>= f = unlessFaulty (faults ++ later) b := by
  cases faults with
  | nil => exact h
  | cons i faults => rfl

theorem unlessFaulty_map (faults : List Invalid) (a : α) (f : α → β) :
    (unlessFaulty faults a >>= fun a => pure (f a)) = unlessFaulty faults (f a) := by
  cases faults <;> rfl

theorem mapM_unlessFaulty (faults : α → List Invalid) (f : α → β) (items : List α) :
    items.mapM (fun a => unlessFaulty (faults a) (f a)) =
      unlessFaulty (items.flatMap faults) (items.map f) := by
  induction items with
  | nil => rfl
  | cons a items ih =>
      rw [List.mapM_cons, ih, List.flatMap_cons, List.map_cons]
      cases faults a <;> cases items.flatMap faults <;> rfl

theorem unlessFaulty_eq_ok_iff {faults : List Invalid} {a b : α} :
    unlessFaulty faults a = .ok b ↔ faults = [] ∧ a = b := by
  cases faults <;> simp [unlessFaulty]

/-! ## The shape -/

/-- There are environments, and nothing but what the template form has. -/
def IsTemplate (members : List (String × Json)) : Prop :=
  environmentsKey ∈ Json.keys members ∧
    ∀ key ∈ Json.keys members, key = defaultsKey ∨ key = environmentsKey

instance (members : List (String × Json)) : Decidable (IsTemplate members) :=
  inferInstanceAs (Decidable (_ ∧ _))

theorem isTemplate_iff : isTemplate members = true ↔ IsTemplate members := by
  simp [isTemplate, IsTemplate, templateKeys]

/-- An object, or null in place of an empty one. -/
def IsPart (v : Json) : Prop :=
  v = .null ∨ ∃ members, v = .obj members

instance : (v : Json) → Decidable (IsPart v)
  | .null => .isTrue (.inl rfl)
  | .obj members => .isTrue (.inr ⟨members, rfl⟩)
  | .bool _ => .isFalse (by simp [IsPart])
  | .int _ => .isFalse (by simp [IsPart])
  | .float _ => .isFalse (by simp [IsPart])
  | .str _ => .isFalse (by simp [IsPart])
  | .arr _ => .isFalse (by simp [IsPart])

/-- What stands under a key, null if nothing does. -/
def partOf (members : List (String × Json)) (key : String) : Json :=
  (Json.member? key members).getD .null

/-- The overrides of the template form, by environment. -/
def overrides (members : List (String × Json)) : List (String × Json) :=
  (partOf members environmentsKey).members

/-- The sections and overrides of the template form are all there or null; what is not in
the template form has none of its keys. -/
def WellShaped (members : List (String × Json)) : Prop :=
  if IsTemplate members then
    IsPart (partOf members defaultsKey) ∧ IsPart (partOf members environmentsKey) ∧
      ∀ x ∈ overrides members, IsPart x.2
  else ∀ key ∈ templateKeys, key ∉ Json.keys members

instance (members : List (String × Json)) : Decidable (WellShaped members) :=
  inferInstanceAs (Decidable (if IsTemplate members then _ ∧ _ ∧ _ else _))

/-- What is wrong with a part of the template form. -/
def partFaults (field : String) (environment : Option String) : Json → List Invalid
  | .null => []
  | .obj _ => []
  | v => [⟨field, environment, .fault (.notObject field v.kind)⟩]

/-- What is wrong with the shape, in the order in which it is looked at: the defaults, the
environments, and each override. -/
def shapeFaults (members : List (String × Json)) : List Invalid :=
  if IsTemplate members then
    partFaults defaultsKey none (partOf members defaultsKey) ++
      (partFaults environmentsKey none (partOf members environmentsKey) ++
        (overrides members).flatMap fun x =>
          partFaults (environmentsKey ++ "." ++ x.1) (some x.1) x.2)
  else
    match templateKeys.filter (· ∈ Json.keys members) with
    | [] => []
    | reserved => [⟨"registry", none, .reservedNames reserved⟩]

/-- The written record of each environment: in the template form each override on top of
the defaults. -/
def records (members : List (String × Json)) : List (String × Json) :=
  if IsTemplate members then
    (overrides members).map fun x =>
      (x.1, .obj (Json.overlayMembers (partOf members defaultsKey).members x.2.members))
  else members

theorem partFaults_eq_nil_iff {field : String} {environment : Option String} {v : Json} :
    partFaults field environment v = [] ↔ IsPart v := by
  cases v <;> simp [partFaults, IsPart]

theorem shapeFaults_eq_nil_iff : shapeFaults members = [] ↔ WellShaped members := by
  unfold shapeFaults WellShaped
  split
  next => simp [partFaults_eq_nil_iff, List.append_eq_nil_iff, List.flatMap_eq_nil_iff]
  next =>
    split
    next h => simpa [List.filter_eq_nil_iff] using h
    next h => simpa [List.filter_eq_nil_iff] using h

/-! ## The two stages -/

theorem part_eq (v : Json) (field : String) (environment : Option String) :
    part v field environment = unlessFaulty (partFaults field environment v) v.members := by
  cases v with
  | obj members => exact within_eq_ok_iff.mpr (Check.object_eq_ok_iff.mpr ⟨rfl, by simp⟩)
  | _ => rfl

theorem templateRecords_eq (h : IsTemplate members) :
    templateRecords members = unlessFaulty (shapeFaults members) (records members) := by
  have heach (x : String × Json) :
      (part x.2 (environmentsKey ++ "." ++ x.1) (some x.1) >>= fun changes =>
        pure (x.1, Json.obj (Json.overlayMembers (partOf members defaultsKey).members changes))) =
      unlessFaulty (partFaults (environmentsKey ++ "." ++ x.1) (some x.1) x.2)
        (x.1, Json.obj
          (Json.overlayMembers (partOf members defaultsKey).members x.2.members)) := by
    rw [part_eq]
    exact unlessFaulty_map _ _ _
  rw [shapeFaults, records, if_pos h, if_pos h, templateRecords, part_eq]
  refine unlessFaulty_bind ?_
  rw [part_eq]
  refine unlessFaulty_bind ?_
  rw [← mapM_unlessFaulty]
  exact congrArg (fun f => (overrides members).mapM f) (funext heach)

theorem sortNames_filter_templateKeys (p : String → Bool) :
    Text.sortNames (templateKeys.filter p) = templateKeys.filter p := by
  refine List.mergeSort_of_pairwise (List.Pairwise.filter p ?_)
  decide

/-- The first stage: the first fault of the shape is told, or there is none and the
records are given. -/
theorem writtenRecords_obj (members : List (String × Json)) :
    writtenRecords (.obj members) = unlessFaulty (shapeFaults members) (records members) := by
  rw [writtenRecords]
  by_cases h : IsTemplate members
  · rw [if_pos (isTemplate_iff.mpr h), templateRecords_eq h]
  · have hreserved : templateKeys.filter (Json.keys members).contains =
        templateKeys.filter (· ∈ Json.keys members) :=
      List.filter_congr fun key _ => List.contains_eq_mem key _
    rw [if_neg (mt isTemplate_iff.mp h), sortNames_filter_templateKeys, hreserved, shapeFaults,
      records, if_neg h, if_neg h]
    cases templateKeys.filter (· ∈ Json.keys members) <;> rfl

/-! ## Registering the records -/

/-- Nothing that is there is changed by registering more. -/
theorem find?_registerAll_of_some {recs : List (String × Json)} {r r' : Registry}
    (h : (r.registerAll recs).result = .ok r') {name : String} {e : Entry}
    (he : r.find? name = some e) : r'.find? name = some e := by
  induction recs generalizing r with
  | nil =>
      cases h
      exact he
  | cons x recs ih =>
      obtain ⟨first, raw⟩ := x
      obtain ⟨c, next, -, hcall, h⟩ := result_registerAll_cons_eq_ok_iff.mp h
      have hne : first ≠ name := by
        rintro rfl
        cases he.symm.trans (find?_attempt_register hcall).1
      refine ih h ((find?_attempt_of_ne hcall ?_).trans he)
      exact fun henv => hne (Json.str.inj henv)

theorem mem_names_registerAll {recs : List (String × Json)} {r r' : Registry}
    (h : (r.registerAll recs).result = .ok r') (name : String) :
    name ∈ r'.names ↔ name ∈ r.names ∨ name ∈ Json.keys recs := by
  induction recs generalizing r with
  | nil =>
      cases h
      simp [Json.keys]
  | cons x recs ih =>
      obtain ⟨first, raw⟩ := x
      obtain ⟨c, next, -, hcall, h⟩ := result_registerAll_cons_eq_ok_iff.mp h
      rw [ih h, mem_names_attempt hcall, or_assoc]
      simp [Call.registration?, Submission.record?, Json.keys, eq_comm]

/-- Each record is there as it is read, with no history. -/
theorem find?_registerAll_of_mem {recs : List (String × Json)} {r r' : Registry}
    (h : (r.registerAll recs).result = .ok r') {x : String × Json} (hx : x ∈ recs) :
    ∃ edition, Record.ofJson x.2 = .ok edition.record ∧
      r'.find? x.1 = some ⟨x.1, edition, []⟩ := by
  induction recs generalizing r with
  | nil => cases hx
  | cons y recs ih =>
      obtain ⟨name, raw⟩ := y
      obtain ⟨c, next, hread, hcall, h⟩ := result_registerAll_cons_eq_ok_iff.mp h
      rcases List.mem_cons.mp hx with rfl | hx
      · obtain ⟨-, edition, hedition, hfind⟩ := find?_attempt_register hcall
        rw [Option.some.inj hedition] at hread
        exact ⟨edition, hread, find?_registerAll_of_some h hfind⟩
      · exact ih h hx

theorem FirstRefused.not_forall_accepted {recs : List (String × Json)} {e : Failure}
    (h : FirstRefused recs e) : ¬∀ x ∈ recs, Accepted x := by
  induction h with
  | here h => exact fun hall => (hall _ List.mem_cons_self).not_refused _ h
  | later _ _ ih => exact fun hall => ih (List.forall_mem_cons.mp hall).2

theorem exists_result_registerAll_iff {recs : List (String × Json)}
    (hrecs : (Json.obj recs).WellFormed) (issued : Nat) :
    (∃ r, (registerAll { issued } recs).result = .ok r) ↔ ∀ x ∈ recs, Accepted x := by
  constructor
  · rintro ⟨r, h⟩ x hx
    obtain ⟨edition, hread, -⟩ := find?_registerAll_of_mem h hx
    have hname : x.1 ∈ r.names :=
      (mem_names_registerAll h x.1).mpr (.inr (List.mem_map_of_mem hx))
    exact ⟨⟨_, hread⟩, ((sound_empty issued).registerAll h).visible x.1 hname⟩
  · intro hall
    cases h : (registerAll { issued } recs).result with
    | ok r => exact ⟨r, rfl⟩
    | error e =>
        have hfirst := (result_registerAll_eq_error_iff hrecs fun _ _ => rfl).mp h
        exact absurd hall hfirst.not_forall_accepted

/-! ## Both stages -/

theorem wellFormed_records (h : (Json.obj members).WellFormed) (hshape : WellShaped members) :
    (Json.obj (records members)).WellFormed := by
  refine wellFormed_of_writtenRecords h ?_
  rw [writtenRecords_obj, shapeFaults_eq_nil_iff.mpr hshape]
  rfl

theorem result_ofJson_obj (members : List (String × Json)) (issued : Nat) :
    (ofJson (.obj members) issued).result =
      unlessFaulty (shapeFaults members) (records members) >>= fun recs =>
        (registerAll { issued } recs).result := by
  rw [ofJson, Logged.result_bind, Logged.result_liftM, writtenRecords_obj]

theorem result_ofJson_of_wellShaped (h : WellShaped members) (issued : Nat) :
    (ofJson (.obj members) issued).result =
      (registerAll { issued } (records members)).result := by
  rw [result_ofJson_obj, shapeFaults_eq_nil_iff.mpr h]
  rfl

theorem result_ofJson_of_shapeFaults {i : Invalid} {rest : List Invalid}
    (h : shapeFaults members = i :: rest) (issued : Nat) :
    (ofJson (.obj members) issued).result = .error (.invalid i) := by
  rw [result_ofJson_obj, h]
  rfl

/-- Only an object of the right shape is read. -/
theorem exists_members_of_result_ofJson {raw : Json} {issued : Nat} {r : Registry}
    (h : (ofJson raw issued).result = .ok r) :
    ∃ members, raw = .obj members ∧ WellShaped members ∧
      (registerAll { issued } (records members)).result = .ok r := by
  cases raw with
  | obj members =>
      rw [result_ofJson_obj, bind_eq_ok_iff] at h
      obtain ⟨recs, hrecs, h⟩ := h
      obtain ⟨hfaults, rfl⟩ := unlessFaulty_eq_ok_iff.mp hrecs
      exact ⟨members, rfl, shapeFaults_eq_nil_iff.mp hfaults, h⟩
  | _ => cases h

theorem exists_result_ofJson (hmembers : (Json.obj members).WellFormed)
    (hshape : WellShaped members) (hrecords : ∀ x ∈ records members,
      Record.violations x.2 = [] ∧ Text.blank x.1 = false) (issued : Nat) :
    ∃ r, (ofJson (.obj members) issued).result = .ok r := by
  have hwf := wellFormed_records hmembers hshape
  rw [result_ofJson_of_wellShaped hshape, exists_result_registerAll_iff hwf]
  intro x hx
  have hreports := Record.reports_ofJson (Json.membersWritable_iff.mp hwf.isWritable x hx)
  exact ⟨hreports.exists_ok_iff.mpr (hrecords x hx).1, (hrecords x hx).2⟩

/-- A written registry is read as a whole or not at all. It gives a registry when its
shape is right, every record can be read and no name is blank; then the names are those
of the records, each environment has its record as read, and no history. If its shape is
not right, the first fault of the shape is told, and no record is looked at. Otherwise
what is told is what is wrong with the first environment that is refused. -/
theorem ofJson_all_or_nothing (hmembers : (Json.obj members).WellFormed) (issued : Nat) :
    ((∃ r, (ofJson (.obj members) issued).result = .ok r) ↔
      WellShaped members ∧ ∀ x ∈ records members, Accepted x) ∧
    (∀ r, (ofJson (.obj members) issued).result = .ok r →
      r.names.Perm (Json.keys (records members)) ∧
      ∀ x ∈ records members, ∃ edition, Record.ofJson x.2 = .ok edition.record ∧
        (r.get (.str x.1)).result = .ok edition ∧ (r.history (.str x.1)).result = .ok []) ∧
    (¬WellShaped members → ∃ i rest, shapeFaults members = i :: rest ∧
      (ofJson (.obj members) issued).result = .error (.invalid i)) ∧
    (WellShaped members → ∀ e, (ofJson (.obj members) issued).result = .error e ↔
      FirstRefused (records members) e) := by
  by_cases hshape : WellShaped members
  · have hrecords := wellFormed_records hmembers hshape
    rw [result_ofJson_of_wellShaped hshape]
    refine ⟨?_, fun r h => ⟨?_, fun x hx => ?_⟩, fun hno => absurd hshape hno, fun _ e => ?_⟩
    · rw [exists_result_registerAll_iff hrecords, and_iff_right hshape]
    · have hsorted := ((sound_empty issued).registerAll h).sorted
      refine (List.perm_ext_iff_of_nodup ?_ hrecords.1).mpr fun name => ?_
      · exact (List.pairwise_map.mpr hsorted).imp String.ne_of_lt
      · exact (mem_names_registerAll h name).trans (by simp [names])
    · obtain ⟨edition, hread, hfind⟩ := find?_registerAll_of_mem h hx
      have hjson := findJson?_eq_some_iff.mpr ⟨x.1, rfl, hfind⟩
      exact ⟨edition, hread, result_get_eq_ok_iff.mpr ⟨_, hjson, rfl⟩,
        result_history_eq_ok_iff.mpr ⟨_, hjson, rfl⟩⟩
    · exact result_registerAll_eq_error_iff hrecords fun _ _ => rfl
  · obtain ⟨i, rest, hfaults⟩ := List.exists_cons_of_ne_nil (mt shapeFaults_eq_nil_iff.mp hshape)
    have herror := result_ofJson_of_shapeFaults hfaults issued
    rw [herror]
    refine ⟨?_, fun r h => ?_, fun _ => ⟨i, rest, hfaults, rfl⟩, fun h => absurd h hshape⟩
    · simp [hshape]
    · cases h

/-- The bundled environments in the template form, and one that overrides nothing. -/
def bundledTemplate : List (String × Json) :=
  [(defaultsKey, Environment.template),
    (environmentsKey, .obj (("plain", .null) :: Environment.overrides))]

theorem wellFormed_bundledTemplate : (Json.obj bundledTemplate).WellFormed := by
  refine ⟨by decide, wellFormed_template, ⟨⟨by decide, trivial, ?_⟩, trivial⟩⟩
  exact Json.wellFormedMembers_iff.mpr wellFormed_override

theorem ofJson_all_or_nothing_bundledTemplate :
    ∃ r, (ofJson (.obj bundledTemplate) 0).result = .ok r ∧
      r.names.Perm ["plain", "juno_testnet", "osmo_testnet", "local"] := by
  have hmembers := wellFormed_bundledTemplate
  obtain ⟨r, hr⟩ := exists_result_ofJson hmembers (by decide) (by decide) 0
  exact ⟨r, hr, ((ofJson_all_or_nothing hmembers 0).2.1 r hr).1⟩

end PerpRollout.Registry
