import PerpRollout.Proofs.Json.Overlay
import PerpRollout.Proofs.Json.Sorted

/-!
# What stands at a place of an overlay

A place in a value is given by the keys that lead to it, one object into the next
(`Json.at?`). What stands there after one value is laid on top of another follows from what
stands there in the two (`Laid`): two objects are joined, and otherwise the upper value counts
as far as it reaches. It does not reach a place at which it has nothing, unless a value in it
that is no object cuts the place off (`CutsOff`).

One step of a path leads from an overlay of objects to the overlay of what is under the key
(`member?_overlayMembers`), so the whole is an induction on the path (`laid_overlay`).
-/

namespace PerpRollout.Json

def isObject : Json → Bool
  | .obj _ => true
  | _ => false

/-- What the keys lead to, one after the other; nothing when one of them is not there. -/
def at? : Json → List String → Option Json
  | v, [] => some v
  | v, k :: path => (v.get? k).bind fun w => w.at? path

/-- On the way to the place there is a value that is no object. -/
def CutsOff (v : Json) (path : List String) : Prop :=
  ∃ before k after w, path = before ++ k :: after ∧ v.at? before = some w ∧ w.isObject = false

/-- What stands at a place of an overlay, by what stands there in the two values. -/
structure Laid (base? changes? merged? : Option Json) (cut : Prop) : Prop where
  /-- Nothing stands below a value of the changes that is no object. -/
  below : cut → merged? = none
  /-- A value of the changes that is no object replaces what there is. -/
  replaced : ∀ v, changes? = some v → v.isObject = false → merged? = some v
  /-- An object of the changes is taken as it is where the base has none. -/
  taken : ∀ new, changes? = some (.obj new) → (∀ old, base? ≠ some (.obj old)) →
    merged? = some (.obj new)
  /-- Two objects are joined: the keys of the base keep their order, new ones follow in the
  order of the changes. -/
  joined : ∀ old new, base? = some (.obj old) → changes? = some (.obj new) →
    ∃ members, merged? = some (.obj members) ∧
      keys members = keys old ++ (keys new).filter (· ∉ keys old)
  /-- What the changes do not reach stays as it is, there or not. -/
  kept : changes? = none → ¬cut → merged? = base?

variable {v w base changes : Json} {members : List (String × Json)} {path : List String}

/-! ## Places -/

theorem isObject_iff : v.isObject = true ↔ ∃ members, v = .obj members := by
  cases v <;> simp [isObject]

theorem get?_of_not_isObject (h : v.isObject = false) (k : String) : v.get? k = none := by
  cases v with
  | obj members => cases h
  | _ => rfl

theorem at?_cons_of_not_isObject (h : v.isObject = false) (k : String) (path : List String) :
    v.at? (k :: path) = none := by
  rw [at?, get?_of_not_isObject h, Option.bind_none]

theorem at?_append (v : Json) (before after : List String) :
    v.at? (before ++ after) = (v.at? before).bind fun w => w.at? after := by
  induction before generalizing v with
  | nil => rfl
  | cons k before ih =>
      rw [List.cons_append, at?, at?, Option.bind_assoc]
      exact congrArg _ (funext ih)

theorem not_cutsOff_nil (v : Json) : ¬v.CutsOff [] := by
  rintro ⟨before, k, after, w, hpath, -⟩
  simp at hpath

theorem at?_of_cutsOff (h : v.CutsOff path) : v.at? path = none := by
  obtain ⟨before, k, after, w, rfl, hw, hother⟩ := h
  rw [at?_append, hw, Option.bind_some, at?_cons_of_not_isObject hother]

theorem cutsOff_cons_of_not_isObject (h : v.isObject = false) (k : String) (path : List String) :
    v.CutsOff (k :: path) :=
  ⟨[], k, path, v, rfl, rfl, h⟩

/-- An object itself cuts nothing off, only what is under the key can. -/
theorem cutsOff_cons_iff {k : String} :
    (obj members).CutsOff (k :: path) ↔ ∃ w ∈ member? k members, w.CutsOff path := by
  constructor
  · rintro ⟨before, k', after, u, hpath, hu, hother⟩
    cases before with
    | nil =>
        cases hu
        cases hother
    | cons first before =>
        rw [List.cons_append, List.cons.injEq] at hpath
        obtain ⟨rfl, rfl⟩ := hpath
        obtain ⟨w, hw, hu⟩ := Option.bind_eq_some_iff.mp hu
        exact ⟨w, hw, before, k', after, u, rfl, hu, hother⟩
  · rintro ⟨w, hw, before, k', after, u, rfl, hu, hother⟩
    exact ⟨k :: before, k', after, u, rfl, Option.bind_eq_some_iff.mpr ⟨w, hw, hu⟩, hother⟩

/-! ## Overlays of objects -/

theorem overlay_obj (members changes : List (String × Json)) :
    overlay (.obj members) (.obj changes) = .obj (overlayMembers members changes) := by
  rw [overlay]

/-- Only objects are joined, anything else is replaced. -/
theorem overlay_of_not_isObject (h : base.isObject = false ∨ changes.isObject = false) :
    overlay base changes = changes := by
  cases changes with
  | obj changes =>
      cases base with
      | obj members => simp [isObject] at h
      | _ => rw [overlay]; rintro _ ⟨⟩
  | _ => simp [overlay]

/-- What is under a key of an overlay, by what is under it in the two objects. -/
def overlay? (base? : Option Json) : Option Json → Option Json
  | none => base?
  | some v => some (overlayOn base? v)

theorem member?_overlayMembers {changes : List (String × Json)} (hnodup : (keys changes).Nodup)
    (name : String) (base : List (String × Json)) :
    member? name (overlayMembers base changes) =
      overlay? (member? name base) (member? name changes) := by
  cases h : member? name changes with
  | none => exact member?_overlayMembers_of_none h base
  | some v => exact member?_overlayMembers_of_some hnodup h base

/-- The keys of the base keep their order, new ones follow in the order of the changes. -/
theorem keys_overlayMembers {changes : List (String × Json)} (hnodup : (keys changes).Nodup)
    (base : List (String × Json)) :
    keys (overlayMembers base changes) = keys base ++ (keys changes).filter (· ∉ keys base) := by
  induction changes generalizing base with
  | nil =>
      rw [overlayMembers]
      exact (List.append_nil _).symm
  | cons m rest ih =>
      obtain ⟨k, v⟩ := m
      obtain ⟨hk, hrest⟩ := List.nodup_cons.mp hnodup
      rw [overlayMembers_cons, ih hrest, keys_setMember]
      change _ = keys base ++ (k :: keys rest).filter _
      by_cases hmem : k ∈ keys base
      · rw [if_pos hmem, List.filter_cons_of_neg (by simpa using hmem)]
      · -- The key is added here, and it does not come again.
        have hfilter : (keys rest).filter (· ∉ keys base ++ [k]) =
            (keys rest).filter (· ∉ keys base) := by
          refine List.filter_congr fun other hother => ?_
          have hne : other ≠ k := fun heq => hk (heq ▸ hother)
          simp [hne]
        rw [if_neg hmem, hfilter, List.filter_cons_of_pos (by simpa using hmem),
          List.append_assoc]
        rfl

/-! ## Places in overlays -/

/-- The upper value as it is, where there are not two objects to be joined. -/
theorem Laid.of_changes {base? changes? : Option Json} {cut : Prop}
    (hcut : cut → changes? = none)
    (hother : ∀ old new, base? = some (.obj old) → changes? ≠ some (.obj new))
    (hkept : changes? = none → ¬cut → base? = none) : Laid base? changes? changes? cut where
  below := hcut
  replaced _ hv _ := hv
  taken _ hnew _ := hnew
  joined old new hold hnew := absurd hnew (hother old new hold)
  kept hnone hno := hnone.trans (hkept hnone hno).symm

/-- The base as it is, where the changes have nothing and cut nothing off. -/
theorem Laid.of_base {base? : Option Json} {cut : Prop} (hcut : ¬cut) :
    Laid base? none base? cut where
  below h := absurd h hcut
  replaced _ hv _ := nomatch hv
  taken _ hnew _ := nomatch hnew
  joined _ _ _ hnew := nomatch hnew
  kept _ _ := rfl

theorem laid_of_not_isObject (h : base.isObject = false ∨ changes.isObject = false)
    (path : List String) :
    Laid (base.at? path) (changes.at? path) (changes.at? path) (changes.CutsOff path) := by
  refine .of_changes at?_of_cutsOff ?_ ?_
  · intro old new hold hnew
    cases path with
    | nil =>
        cases hold
        cases hnew
        simp [isObject] at h
    | cons k path =>
        rcases h with h | h
        · rw [at?_cons_of_not_isObject h] at hold
          cases hold
        · rw [at?_cons_of_not_isObject h] at hnew
          cases hnew
  · intro hnone hno
    cases path with
    | nil => cases hnone
    | cons k path =>
        rcases h with h | h
        · exact at?_cons_of_not_isObject h k path
        · exact absurd (cutsOff_cons_of_not_isObject h k path) hno

theorem laid_nil {old new : List (String × Json)} (hnodup : (keys new).Nodup) :
    Laid (some (.obj old)) (some (.obj new)) (some (overlay (.obj old) (.obj new)))
      ((obj new).CutsOff []) where
  below h := absurd h (not_cutsOff_nil _)
  replaced v hv hother := by
    cases hv
    cases hother
  taken _ _ hno := absurd rfl (hno old)
  joined old' new' hold hnew := by
    cases hold
    cases hnew
    exact ⟨_, congrArg some (overlay_obj old new), keys_overlayMembers hnodup old⟩
  kept hnone := nomatch hnone

/-- Lay a value on top of another. What then stands at a place is told by what stands there in
the two: nothing below a value of the changes that is no object; such a value itself; an
object of the changes, where the base has none, as it is; of two objects one with the keys of
the base in their order and then the new ones in theirs; and what stands in the base, if
anything, where the changes do not reach. -/
theorem laid_overlay (base : Json) {changes : Json} (distinct : changes.DistinctKeys)
    (path : List String) :
    Laid (base.at? path) (changes.at? path) ((overlay base changes).at? path)
      (changes.CutsOff path) := by
  induction path generalizing base changes with
  | nil =>
      by_cases h : base.isObject = false ∨ changes.isObject = false
      · rw [overlay_of_not_isObject h]
        exact laid_of_not_isObject h []
      · simp only [not_or, Bool.not_eq_false, isObject_iff] at h
        obtain ⟨⟨old, rfl⟩, ⟨new, rfl⟩⟩ := h
        exact laid_nil distinct.1
  | cons k path ih =>
      by_cases h : base.isObject = false ∨ changes.isObject = false
      · rw [overlay_of_not_isObject h]
        exact laid_of_not_isObject h (k :: path)
      · simp only [not_or, Bool.not_eq_false, isObject_iff] at h
        obtain ⟨⟨old, rfl⟩, ⟨new, rfl⟩⟩ := h
        -- The first key leads into the two objects, and so into their overlay.
        rw [overlay_obj, cutsOff_cons_iff]
        change Laid ((member? k old).bind _) ((member? k new).bind _)
          ((member? k (overlayMembers old new)).bind _) _
        rw [member?_overlayMembers distinct.1]
        cases hnew : member? k new with
        | none => exact .of_base (by simp)
        | some v =>
            simp only [Option.bind_some, Option.mem_some_iff, exists_eq_left']
            cases hold : member? k old with
            | none => exact .of_changes at?_of_cutsOff (by simp) (by simp)
            | some u =>
                exact ih u (distinctKeysMembers_iff.mp distinct.2 _ (mem_of_member? hnew))

/-- Settings of a margin engine. -/
def settings : Json :=
  .obj [("owner", .str "dao"), ("assets", .arr []),
    ("engine", .obj [("decimals", .int 6), ("fees", .obj [("toll", .int 1)])])]

/-- Changes to these settings: fees are dropped, assets are by name now. -/
def revision : Json :=
  .obj [("assets", .obj [("usd", .obj [])]),
    ("engine", .obj [("pair", .null), ("fees", .str "none"), ("decimals", .int 8)])]

theorem laid_overlay_revision :
    revision.DistinctKeys ∧
      (overlay settings revision).at? ["engine", "fees", "toll"] = none ∧
      (overlay settings revision).at? ["engine", "decimals"] = some (.int 8) ∧
      (overlay settings revision).at? ["assets"] = some (.obj [("usd", .obj [])]) ∧
      (∃ members, (overlay settings revision).at? ["engine"] = some (.obj members) ∧
        keys members = ["decimals", "fees", "pair"]) ∧
      (overlay settings revision).at? ["owner"] = some (.str "dao") := by
  have distinct : revision.DistinctKeys := by
    simp [revision, DistinctKeys, distinctKeysMembers, keys]
  have hbelow : revision.CutsOff ["engine", "fees", "toll"] :=
    ⟨["engine", "fees"], "toll", [], .str "none", rfl, rfl, rfl⟩
  have hkept : ¬revision.CutsOff ["owner"] := by
    simp [revision, cutsOff_cons_iff, not_cutsOff_nil]
  have hassets : ∀ old, settings.at? ["assets"] ≠ some (.obj old) := by
    intro old hold
    cases hold
  exact ⟨distinct, (laid_overlay settings distinct _).below hbelow,
    (laid_overlay settings distinct _).replaced _ rfl rfl,
    (laid_overlay settings distinct _).taken _ rfl hassets,
    (laid_overlay settings distinct ["engine"]).joined _ _ rfl rfl,
    (laid_overlay settings distinct ["owner"]).kept rfl hkept⟩

end PerpRollout.Json
