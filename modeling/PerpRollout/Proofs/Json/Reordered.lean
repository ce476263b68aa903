import PerpRollout.Proofs.Json.Overlay
import PerpRollout.Proofs.Json.Sorted
import PerpRollout.Proofs.Json.WellFormed

/-!
# Objects with their keys in another order

`Json.Reordered` relates values that differ at most in the order of the keys of objects, at
any depth. Keys being distinct, values that are so related have under every key related
values again (`Reordered.get?`), and overlays of related values are related
(`Reordered.overlay`): that members are looked up by name is all that later arguments need
to know about their order. A value with its keys sorted is an instance
(`reordered_sortKeys`).
-/

namespace PerpRollout.Json

/-- No list and no object. -/
def isAtom : Json → Bool
  | .arr _ => false
  | .obj _ => false
  | _ => true

/-- The values are the same but for the order of the keys of objects, at any depth. -/
inductive Reordered : Json → Json → Prop
  | atom {v : Json} (h : v.isAtom = true) : Reordered v v
  | arr {items others : List Json} (length : items.length = others.length)
      (values : ∀ (i : Nat) v w, items[i]? = some v → others[i]? = some w → Reordered v w) :
      Reordered (.arr items) (.arr others)
  | obj {members others : List (String × Json)} (keys : (keys members).Perm (keys others))
      (values : ∀ k v w, (k, v) ∈ members → (k, w) ∈ others → Reordered v w) :
      Reordered (.obj members) (.obj others)

variable {v w : Json} {items items' : List Json} {members others : List (String × Json)}

theorem exists_item_of_mem (length : items.length = items'.length) (hw : w ∈ items') :
    ∃ (i : Nat) (v : Json), items[i]? = some v ∧ items'[i]? = some w := by
  obtain ⟨i, hi⟩ := List.mem_iff_getElem?.mp hw
  have hlt : i < items.length := length ▸ (List.getElem?_eq_some_iff.mp hi).1
  exact ⟨i, items[i], List.getElem?_eq_getElem hlt, hi⟩

theorem exists_member_of_mem (perm : (keys members).Perm (keys others)) {k : String}
    (hw : (k, w) ∈ others) : ∃ v, (k, v) ∈ members := by
  obtain ⟨m, hm, rfl⟩ := List.mem_map.mp (perm.mem_iff.mpr (List.mem_map_of_mem hw))
  exact ⟨m.2, hm⟩

namespace Reordered

theorem symm (h : Reordered v w) : Reordered w v := by
  induction h with
  | atom h => exact .atom h
  | arr length _ ih => exact .arr length.symm fun i v w hv hw => ih i w v hw hv
  | obj keys _ ih => exact .obj keys.symm fun k v w hv hw => ih k w v hw hv

theorem trans {u : Json} (h : Reordered v w) (h' : Reordered w u) : Reordered v u := by
  induction h generalizing u with
  | atom _ => exact h'
  | @arr items others length values ih =>
      cases h' with
      | atom h => cases h
      | arr length' values' =>
          refine .arr (length.trans length') fun i v u hv hu => ?_
          have hi : i < others.length := length ▸ (List.getElem?_eq_some_iff.mp hv).1
          have hw : others[i]? = some others[i] := List.getElem?_eq_getElem hi
          exact ih i v _ hv hw (values' i _ u hw hu)
  | @obj members others keys values ih =>
      cases h' with
      | atom h => cases h
      | obj keys' values' =>
          refine .obj (keys.trans keys') fun k v u hv hu => ?_
          obtain ⟨w, hw⟩ := exists_member_of_mem keys' hu
          exact ih k v w hv hw (values' k w u hw hu)

/-! ## Lists and objects -/

theorem exists_items (h : Reordered (.arr items) w) :
    ∃ items', w = .arr items' ∧ List.Forall₂ Reordered items items' := by
  cases h with
  | atom h => cases h
  | arr length values =>
      refine ⟨_, rfl, List.forall₂_iff_get.mpr ⟨length, fun i hi hi' => ?_⟩⟩
      exact values i _ _ (List.getElem?_eq_getElem hi) (List.getElem?_eq_getElem hi')

theorem exists_members (h : Reordered (.obj members) w) :
    ∃ others, w = .obj others ∧ (keys members).Perm (keys others) := by
  cases h with
  | atom h => cases h
  | obj keys _ => exact ⟨_, rfl, keys⟩

theorem perm_keys (h : Reordered (.obj members) (.obj others)) :
    (keys members).Perm (keys others) := by
  obtain ⟨others', hobj, keys⟩ := h.exists_members
  cases hobj
  exact keys

theorem of_mem (h : Reordered (.obj members) (.obj others)) {k : String}
    (hv : (k, v) ∈ members) (hw : (k, w) ∈ others) : Reordered v w := by
  cases h with
  | atom h => cases h
  | obj _ values => exact values k v w hv hw

/-- Each member has its counterpart, under the same key. -/
theorem exists_of_mem (h : Reordered (.obj members) (.obj others)) {k : String}
    (hw : (k, w) ∈ others) : ∃ v, (k, v) ∈ members ∧ Reordered v w := by
  obtain ⟨v, hv⟩ := exists_member_of_mem h.perm_keys hw
  exact ⟨v, hv, h.of_mem hv hw⟩

theorem distinctKeys (h : Reordered v w) (hv : v.DistinctKeys) : w.DistinctKeys := by
  induction h with
  | atom _ => exact hv
  | arr length _ ih =>
      refine distinctKeysItems_iff.mpr fun w hw => ?_
      obtain ⟨i, v, hi, hi'⟩ := exists_item_of_mem length hw
      exact ih i v w hi hi' (distinctKeysItems_iff.mp hv v (List.mem_of_getElem? hi))
  | obj keys _ ih =>
      refine ⟨keys.nodup_iff.mp hv.1, distinctKeysMembers_iff.mpr fun m hm => ?_⟩
      obtain ⟨v, hmem⟩ := exists_member_of_mem keys hm
      exact ih m.1 v m.2 hmem hm (distinctKeysMembers_iff.mp hv.2 _ hmem)

theorem isWritable (h : Reordered v w) (hv : v.isWritable = true) : w.isWritable = true := by
  induction h with
  | atom _ => exact hv
  | arr length _ ih =>
      refine itemsWritable_iff.mpr fun w hw => ?_
      obtain ⟨i, v, hi, hi'⟩ := exists_item_of_mem length hw
      exact ih i v w hi hi' (itemsWritable_iff.mp hv v (List.mem_of_getElem? hi))
  | obj keys _ ih =>
      refine membersWritable_iff.mpr fun m hm => ?_
      obtain ⟨v, hmem⟩ := exists_member_of_mem keys hm
      exact ih m.1 v m.2 hmem hm (membersWritable_iff.mp hv _ hmem)

theorem wellFormed (h : Reordered v w) (hv : v.WellFormed) : w.WellFormed :=
  wellFormed_iff.mpr ⟨h.distinctKeys hv.distinctKeys, h.isWritable hv.isWritable⟩

/-! ## Look-ups -/

/-- Related objects have related values under the same keys. -/
theorem member? (h : Reordered (.obj members) (.obj others)) (hmembers : (keys members).Nodup)
    (name : String) :
    Option.Rel Reordered (Json.member? name members) (Json.member? name others) := by
  have hothers : (keys others).Nodup := h.perm_keys.nodup_iff.mp hmembers
  cases hw : Json.member? name others with
  | none =>
      rw [member?_eq_none_iff, ← h.perm_keys.mem_iff, ← member?_eq_none_iff] at hw
      rw [hw]
      exact .none
  | some w =>
      obtain ⟨v, hv, hvw⟩ := h.exists_of_mem (mem_of_member? hw)
      have hfound : Json.member? name members = some v := lookup_of_mem hmembers hv
      rw [hfound]
      exact .some hvw

theorem get? (h : Reordered v w) (distinct : v.DistinctKeys) (name : String) :
    Option.Rel Reordered (v.get? name) (w.get? name) := by
  cases h with
  | atom h =>
      cases v with
      | obj members => cases h
      | _ => exact .none
  | arr length values => exact .none
  | obj keys values => exact (obj keys values).member? distinct.1 name

/-- Objects with related values under every key are related. -/
theorem of_member? (hmembers : (keys members).Nodup) (hothers : (keys others).Nodup)
    (h : ∀ name, Option.Rel Reordered (Json.member? name members) (Json.member? name others)) :
    Reordered (.obj members) (.obj others) := by
  refine .obj ((List.perm_ext_iff_of_nodup hmembers hothers).mpr fun name => ?_)
    fun k v w hv hw => ?_
  · have hname := h name
    rw [← not_iff_not, ← member?_eq_none_iff, ← member?_eq_none_iff]
    generalize Json.member? name members = v? at hname ⊢
    generalize Json.member? name others = w? at hname ⊢
    cases hname with
    | none => rfl
    | some _ => simp
  · have hvw := h k
    rw [Json.member?, Json.member?, lookup_of_mem hmembers hv, lookup_of_mem hothers hw] at hvw
    cases hvw with
    | some hvw => exact hvw

/-! ## Overlays -/

theorem overlay_of_isAtom (h : v.isAtom = true) (base : Json) : Json.overlay base v = v := by
  cases v with
  | obj members => cases h
  | _ => simp [Json.overlay]

/-- One value laid on top of what another object has under the key. -/
theorem overlayOn {base? base?' : Option Json} (hbase : Option.Rel Reordered base? base?')
    (h : Reordered v w)
    (hoverlay : ∀ old old', old ∈ base? → Reordered old old' →
      Reordered (Json.overlay old v) (Json.overlay old' w)) :
    Reordered (Json.overlayOn base? v) (Json.overlayOn base?' w) := by
  cases hbase with
  | none => exact h
  | some hold => exact hoverlay _ _ rfl hold

/-- Overlays of objects are related if overlays of their values under the same key are. -/
theorem overlayMembers {changes changes' : List (String × Json)}
    (hbase : Reordered (.obj members) (.obj others))
    (hchanges : Reordered (.obj changes) (.obj changes'))
    (hmembers : (keys members).Nodup) (hnodup : (keys changes).Nodup)
    (hoverlay : ∀ k v w, (k, v) ∈ changes → (k, w) ∈ changes' →
      ∀ old old', (k, old) ∈ members → Reordered old old' →
        Reordered (Json.overlay old v) (Json.overlay old' w)) :
    Reordered (.obj (Json.overlayMembers members changes))
      (.obj (Json.overlayMembers others changes')) := by
  have hothers := hbase.perm_keys.nodup_iff.mp hmembers
  have hnodup' := hchanges.perm_keys.nodup_iff.mp hnodup
  refine of_member? (nodup_keys_overlayMembers hmembers _)
    (nodup_keys_overlayMembers hothers _) fun name => ?_
  have hold := hbase.member? hmembers name
  cases hname : Json.member? name changes with
  | none =>
      have hname' : Json.member? name changes' = none := by
        rwa [member?_eq_none_iff, ← hchanges.perm_keys.mem_iff, ← member?_eq_none_iff]
      rw [member?_overlayMembers_of_none hname, member?_overlayMembers_of_none hname']
      exact hold
  | some v =>
      have hv := mem_of_member? hname
      obtain ⟨w, hw, hwv⟩ := hchanges.symm.exists_of_mem hv
      rw [member?_overlayMembers_of_some hnodup hname,
        member?_overlayMembers_of_some hnodup' (lookup_of_mem hnodup' hw)]
      exact .some (overlayOn hold hwv.symm fun old old' hmember =>
        hoverlay name v w hv hw old old' (mem_of_member? hmember))

/-- Overlays of related values are related. -/
theorem overlay {base base' : Json} (hbase : Reordered base base') (h : Reordered v w)
    (distinct : base.DistinctKeys) (hv : v.DistinctKeys) :
    Reordered (Json.overlay base v) (Json.overlay base' w) := by
  induction h generalizing base base' with
  | atom h =>
      rw [overlay_of_isAtom h, overlay_of_isAtom h]
      exact .atom h
  | arr length values _ =>
      simp only [Json.overlay]
      exact .arr length values
  | @obj changes changes' keys values ih =>
      have hchanges : Reordered (.obj changes) (.obj changes') := .obj keys values
      cases hbase with
      | @atom base h =>
          cases base with
          | obj members => cases h
          | _ => simpa only [Json.overlay] using hchanges
      | arr => simpa only [Json.overlay] using hchanges
      | obj keys' values' =>
          simp only [Json.overlay]
          refine (obj keys' values').overlayMembers hchanges distinct.1 hv.1 ?_
          intro k v w hmem hmem' old old' hold hrel
          exact ih k v w hmem hmem' hrel (distinctKeysMembers_iff.mp distinct.2 _ hold)
            (distinctKeysMembers_iff.mp hv.2 _ hmem)

end Reordered

mutual
theorem reordered_sortKeys : {v : Json} → v.DistinctKeys → Reordered v v.sortKeys
  | .null, _ => .atom rfl
  | .bool _, _ => .atom rfl
  | .int _, _ => .atom rfl
  | .float _, _ => .atom rfl
  | .str _, _ => .atom rfl
  | .arr items, h => by
      have hitems := reordered_sortKeysItems h
      rw [sortKeys_arr]
      refine .arr (List.length_map sortKeys).symm fun i v w hv hw => ?_
      rw [List.getElem?_map, hv] at hw
      cases hw
      exact hitems v (List.mem_of_getElem? hv)
  | .obj members, h => by
      have hmembers := reordered_sortKeysMembers h.2
      obtain ⟨sorted, hobj, hperm⟩ := exists_sortKeys_obj members
      rw [hobj]
      refine .obj ?_ fun k v w hv hw => ?_
      · rw [← keys_sortKeysMembers members]
        exact (hperm.map Prod.fst).symm
      · obtain ⟨u, hu, rfl⟩ := mem_sortKeysMembers (hperm.mem_iff.mp hw)
        have heq : u = v := Option.some.inj ((lookup_of_mem h.1 hu).symm.trans (lookup_of_mem h.1 hv))
        rw [heq]
        exact hmembers (k, v) hv
theorem reordered_sortKeysItems : {items : List Json} → distinctKeysItems items →
    ∀ v ∈ items, Reordered v v.sortKeys
  | [], _ => by simp
  | _ :: _, h => List.forall_mem_cons.mpr ⟨reordered_sortKeys h.1, reordered_sortKeysItems h.2⟩
theorem reordered_sortKeysMembers : {members : List (String × Json)} →
    distinctKeysMembers members → ∀ m ∈ members, Reordered m.2 m.2.sortKeys
  | [], _ => by simp
  | _ :: _, h => List.forall_mem_cons.mpr ⟨reordered_sortKeys h.1, reordered_sortKeysMembers h.2⟩
end

/-- Keys being distinct, a value differs from itself in nothing. -/
theorem Reordered.refl (h : v.DistinctKeys) : Reordered v v :=
  (reordered_sortKeys h).trans (reordered_sortKeys h).symm

theorem reordered_of_perm (h : members.Perm others) (distinct : (obj members).DistinctKeys) :
    Reordered (.obj members) (.obj others) := by
  refine .obj (h.map Prod.fst) fun k v w hv hw => ?_
  have hfound := lookup_of_mem distinct.1 (h.mem_iff.mpr hw)
  cases (lookup_of_mem distinct.1 hv).symm.trans hfound
  exact .refl (distinctKeysMembers_iff.mp distinct.2 _ hv)

end PerpRollout.Json
