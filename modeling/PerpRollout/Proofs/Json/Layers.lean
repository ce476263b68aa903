import PerpRollout.Proofs.Json.Place

/-!
# Laws of overlays

An empty object changes nothing, whether it is laid on top or lies below, and neither does
laying the same changes on top again. Of three objects it is the same to join the upper two
first or the lower two, unless a value that is no object lies between two objects at some
place (`Parts`): in the first order the lower object is joined with the upper one there, in
the second it is lost.

Objects are equal when they have the same keys in the same order and equal values under each
(`eq_of_member?`). So every law is one about lists of keys, which is settled by
`keys_overlayMembers`, and one about the values under a key, which is the law again, for
smaller values (`memberRec`).
-/

namespace PerpRollout.Json

variable {a b c v w : Json} {members others : List (String × Json)}

/-! ## Objects by their members -/

theorem sizeOf_lt_of_member? {k : String} (h : member? k members = some v) :
    sizeOf v < sizeOf (obj members) := by
  have hmem := List.sizeOf_lt_of_mem (mem_of_member? h)
  simp only [Prod.mk.sizeOf_spec] at hmem
  simp only [obj.sizeOf_spec]
  omega

/-- Induction on a value through what is under the keys of its objects. -/
theorem memberRec {motive : Json → Prop} (other : ∀ v, v.isObject = false → motive v)
    (obj : ∀ members, (∀ k v, member? k members = some v → motive v) → motive (.obj members)) :
    ∀ v, motive v
  | .obj members => obj members fun _ v _ => memberRec other obj v
  | .null => other _ rfl
  | .bool _ => other _ rfl
  | .int _ => other _ rfl
  | .float _ => other _ rfl
  | .str _ => other _ rfl
  | .arr _ => other _ rfl
termination_by v => sizeOf v
decreasing_by exact sizeOf_lt_of_member? ‹_›

/-- Objects are equal when they have the same keys in the same order, with equal values. -/
theorem eq_of_member? (hkeys : keys members = keys others) (hnodup : (keys members).Nodup)
    (h : ∀ k, member? k members = member? k others) : members = others := by
  induction members generalizing others with
  | nil =>
      cases others with
      | nil => rfl
      | cons m others => cases hkeys
  | cons m members ih =>
      cases others with
      | nil => cases hkeys
      | cons m' others =>
          obtain ⟨k, v⟩ := m
          obtain ⟨k', v'⟩ := m'
          obtain ⟨rfl, hrest⟩ : k = k' ∧ keys members = keys others := List.cons.inj hkeys
          obtain ⟨hk, hnodup⟩ := List.nodup_cons.mp hnodup
          have hv : v = v' := by simpa [member?] using h k
          subst hv
          refine congrArg _ (ih hrest hnodup fun name => ?_)
          by_cases hname : name = k
          · subst hname
            rw [member?_eq_none_iff.mpr hk, member?_eq_none_iff.mpr (hrest ▸ hk)]
          · simpa [member?, List.lookup_cons, beq_false_of_ne hname] using h name

theorem overlay?_none (v? : Option Json) : overlay? none v? = v? := by
  cases v? <;> rfl

/-! ## The laws -/

theorem overlay_nil (members : List (String × Json)) :
    overlay (.obj members) (.obj []) = .obj members := by
  rw [overlay_obj, overlayMembers]

theorem nil_overlay (distinct : (obj members).DistinctKeys) :
    overlay (.obj []) (.obj members) = .obj members := by
  have hkeys : keys (overlayMembers [] members) = keys members := by
    rw [keys_overlayMembers distinct.1]
    simp [keys]
  rw [overlay_obj]
  refine congrArg obj (eq_of_member? hkeys (hkeys ▸ distinct.1) fun k => ?_)
  rw [member?_overlayMembers distinct.1]
  exact overlay?_none _

/-- On top of itself a value is the same. -/
theorem overlay_self (distinct : v.DistinctKeys) : overlay v v = v := by
  induction v using memberRec with
  | other v h => exact overlay_of_not_isObject (.inl h)
  | obj members ih =>
      have hkeys : keys (overlayMembers members members) = keys members := by
        rw [keys_overlayMembers distinct.1, List.filter_eq_nil_iff.mpr (by simp),
          List.append_nil]
      rw [overlay_obj]
      refine congrArg obj (eq_of_member? hkeys (hkeys ▸ distinct.1) fun k => ?_)
      rw [member?_overlayMembers distinct.1]
      cases h : member? k members with
      | none => rfl
      | some v =>
          exact congrArg some
            (ih k v h (distinctKeysMembers_iff.mp distinct.2 _ (mem_of_member? h)))

/-- At the place there are objects below and on top, and between them a value that is
none. -/
structure Parts (a b c : Json) (path : List String) : Prop where
  below : ∃ old, a.at? path = some (.obj old)
  between : ∃ v, b.at? path = some v ∧ v.isObject = false
  above : ∃ new, c.at? path = some (.obj new)

/-- What parts the values under a key parts the objects. -/
theorem Parts.cons {as bs cs : List (String × Json)} {k : String} {path : List String}
    (h : Parts a b c path) (ha : member? k as = some a) (hb : member? k bs = some b)
    (hc : member? k cs = some c) : Parts (.obj as) (.obj bs) (.obj cs) (k :: path) := by
  have hstep {members : List (String × Json)} {v : Json} (hv : member? k members = some v) :
      (obj members).at? (k :: path) = v.at? path :=
    congrArg (Option.bind · _) hv
  obtain ⟨hbelow, hbetween, habove⟩ := h
  rw [← hstep ha] at hbelow
  rw [← hstep hb] at hbetween
  rw [← hstep hc] at habove
  exact ⟨hbelow, hbetween, habove⟩

/-- Keys of three objects are put together in one order only. -/
theorem keys_overlayMembers_assoc {as bs cs : List (String × Json)} (hb : (keys bs).Nodup)
    (hc : (keys cs).Nodup) :
    keys (overlayMembers (overlayMembers as bs) cs) =
      keys (overlayMembers as (overlayMembers bs cs)) := by
  rw [keys_overlayMembers hc, keys_overlayMembers hb,
    keys_overlayMembers (nodup_keys_overlayMembers hb cs), keys_overlayMembers hc,
    List.filter_append, List.filter_filter, List.append_assoc]
  refine congrArg (keys as ++ ·) (congrArg ((keys bs).filter _ ++ ·) ?_)
  refine List.filter_congr fun k _ => ?_
  by_cases k ∈ keys as <;> simp [*]

theorem overlay?_assoc {a? b? c? : Option Json}
    (h : ∀ a ∈ a?, ∀ b ∈ b?, ∀ c ∈ c?, overlay (overlay a b) c = overlay a (overlay b c)) :
    overlay? (overlay? a? b?) c? = overlay? a? (overlay? b? c?) := by
  cases c? with
  | none => rfl
  | some c =>
      cases b? with
      | none => rfl
      | some b =>
          cases a? with
          | none => rfl
          | some a => exact congrArg some (h a rfl b rfl c rfl)

theorem overlay_assoc (hb : b.DistinctKeys) (hc : c.DistinctKeys) (ha : a.DistinctKeys)
    (h : ∀ path, ¬Parts a b c path) : overlay (overlay a b) c = overlay a (overlay b c) := by
  induction c using memberRec generalizing a b with
  | other c hother =>
      rw [overlay_of_not_isObject (.inr hother), overlay_of_not_isObject (.inr hother),
        overlay_of_not_isObject (.inr hother)]
  | obj cs ih =>
      by_cases hbobj : b.isObject = false
      · -- Under `c` there is no object to be joined, so there may be none below either.
        have haobj : a.isObject = false := by
          cases a with
          | obj as => exact absurd ⟨⟨as, rfl⟩, ⟨b, rfl, hbobj⟩, ⟨cs, rfl⟩⟩ (h [])
          | _ => rfl
        rw [overlay_of_not_isObject (.inl haobj), overlay_of_not_isObject (.inl haobj)]
      · by_cases haobj : a.isObject = false
        · rw [overlay_of_not_isObject (.inl haobj), overlay_of_not_isObject (.inl haobj)]
        · rw [Bool.not_eq_false, isObject_iff] at haobj hbobj
          obtain ⟨as, rfl⟩ := haobj
          obtain ⟨bs, rfl⟩ := hbobj
          simp only [overlay_obj]
          refine congrArg obj (eq_of_member? (keys_overlayMembers_assoc hb.1 hc.1)
            (nodup_keys_overlayMembers (nodup_keys_overlayMembers ha.1 bs) cs) fun k => ?_)
          rw [member?_overlayMembers hc.1, member?_overlayMembers hb.1,
            member?_overlayMembers (nodup_keys_overlayMembers hb.1 cs),
            member?_overlayMembers hc.1]
          refine overlay?_assoc fun a hak b hbk c hck => ?_
          have distinct {members : List (String × Json)} {v : Json}
              (hmembers : (obj members).DistinctKeys) (hv : member? k members = some v) :=
            distinctKeysMembers_iff.mp hmembers.2 _ (mem_of_member? hv)
          exact ih k c hck (distinct hb hbk) (distinct hc hck) (distinct ha hak)
            fun path hparts => h (k :: path) (hparts.cons hak hbk hck)

/-- An empty object changes nothing, on top or below, and the same changes on top again change
nothing more. Three objects can be joined in either order, if at no place objects of the lower
and the upper one have a value between them that is no object. All keys keep their order. -/
theorem overlay_laws {as bs cs : List (String × Json)} (ha : (obj as).DistinctKeys)
    (hb : (obj bs).DistinctKeys) (hc : (obj cs).DistinctKeys) :
    overlay (.obj bs) (.obj []) = .obj bs ∧
    overlay (.obj []) (.obj cs) = .obj cs ∧
    overlay (overlay (.obj bs) (.obj cs)) (.obj cs) = overlay (.obj bs) (.obj cs) ∧
    ((∀ path, ¬Parts (.obj as) (.obj bs) (.obj cs) path) →
      overlay (overlay (.obj as) (.obj bs)) (.obj cs) =
        overlay (.obj as) (overlay (.obj bs) (.obj cs))) := by
  refine ⟨overlay_nil bs, nil_overlay hc, ?_, overlay_assoc hb hc ha⟩
  -- Nothing can lie between two layers that are the same.
  have hnone : ∀ path, ¬Parts (.obj bs) (.obj cs) (.obj cs) path := by
    rintro path ⟨-, ⟨v, hv, hother⟩, ⟨new, hnew⟩⟩
    cases hv.symm.trans hnew
    cases hother
  rw [overlay_assoc hc hc hb hnone, overlay_self hc]

/-- Changes on top of the revision. -/
def ownership : Json :=
  .obj [("owner", .str "team"), ("engine", .obj [("pair", .null), ("margin", .int 5)])]

theorem not_parts_ownership (path : List String) : ¬Parts settings revision ownership path := by
  rintro ⟨-, ⟨v, hv, hother⟩, ⟨new, hnew⟩⟩
  cases path with
  | nil =>
      cases hv
      cases hother
  | cons k path =>
      obtain ⟨w, hw, hnew⟩ := Option.bind_eq_some_iff.mp hnew
      rcases List.mem_pair.mp (mem_of_member? hw) with h | h
      · cases h
        cases path <;> cases hnew
      · cases h
        cases path with
        | nil =>
            cases hv
            cases hother
        | cons k path =>
            obtain ⟨w, hw, hnew⟩ := Option.bind_eq_some_iff.mp hnew
            rcases List.mem_pair.mp (mem_of_member? hw) with h | h <;> cases h <;>
              cases path <;> cases hnew

theorem overlay_laws_ownership :
    (settings.DistinctKeys ∧ revision.DistinctKeys ∧ ownership.DistinctKeys) ∧
      (∀ path, ¬Parts settings revision ownership path) ∧
      overlay (overlay settings revision) revision = overlay settings revision ∧
      overlay (overlay settings revision) ownership =
        overlay settings (overlay revision ownership) := by
  have distinct : settings.DistinctKeys ∧ revision.DistinctKeys ∧ ownership.DistinctKeys := by
    simp [settings, revision, ownership, DistinctKeys, distinctKeysMembers, distinctKeysItems, keys]
  obtain ⟨ha, hb, hc⟩ := distinct
  exact ⟨⟨ha, hb, hc⟩, not_parts_ownership, (overlay_laws ha ha hb).2.2.1,
    (overlay_laws ha hb hc).2.2.2 not_parts_ownership⟩

/-- Fees that are an object again after the revision: in one order the old toll comes back. -/
example : overlay (overlay settings revision) (.obj [("engine", .obj [("fees", .obj [])])]) ≠
    overlay settings (overlay revision (.obj [("engine", .obj [("fees", .obj [])])])) := by
  simp [settings, revision, overlay, overlayMembers, setMember, member?, List.lookup_cons]

end PerpRollout.Json
