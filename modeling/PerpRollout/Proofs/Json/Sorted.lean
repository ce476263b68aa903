import PerpRollout.Proofs.Json.Text
import PerpRollout.Proofs.Record.Schema

/-!
# Objects with their members by key

Sorting the members of every object in a value changes their places only: each member has
its value sorted in the same way, under the same key (`exists_sortKeys_obj`). A value can be
read back, or be written at all, sorted or not.
-/

namespace PerpRollout

/-- Of entries with distinct names each one is found under its own. -/
theorem lookup_of_mem {α : Type} {entries : List (String × α)}
    (h : (entries.map Prod.fst).Nodup) {entry : String × α} (hmem : entry ∈ entries) :
    entries.lookup entry.1 = some entry.2 := by
  obtain ⟨before, after, rfl⟩ := List.append_of_mem hmem
  rw [List.lookup_eq_some_iff]
  refine ⟨before, after, rfl, fun x hx => ?_⟩
  rw [List.map_append, List.nodup_append] at h
  have hne := h.2.2 x.1 (List.mem_map_of_mem hx) entry.1 (by simp)
  simpa using Ne.symm hne

namespace Json

theorem sortKeysItems_eq (items : List Json) : sortKeysItems items = items.map sortKeys := by
  induction items with
  | nil => rfl
  | cons v items ih => rw [sortKeysItems, ih, List.map_cons]

theorem sortKeys_arr (items : List Json) : (arr items).sortKeys = arr (items.map sortKeys) := by
  rw [sortKeys, sortKeysItems_eq]

theorem keys_sortKeysMembers (members : List (String × Json)) :
    keys (sortKeysMembers members) = keys members := by
  induction members with
  | nil => rfl
  | cons m members ih => exact congrArg (m.1 :: ·) ih

theorem mem_sortKeysMembers {name : String} {v : Json} {members : List (String × Json)}
    (h : (name, v) ∈ sortKeysMembers members) : ∃ w, (name, w) ∈ members ∧ v = w.sortKeys := by
  induction members with
  | nil => cases h
  | cons m members ih =>
      rcases List.mem_cons.mp h with h | h
      · cases h
        exact ⟨m.2, List.mem_cons_self, rfl⟩
      · obtain ⟨w, hw, rfl⟩ := ih h
        exact ⟨w, List.mem_cons_of_mem _ hw, rfl⟩

/-- The members of a sorted object are those of the object, each sorted, in another order. -/
theorem exists_sortKeys_obj (members : List (String × Json)) :
    ∃ sorted, (obj members).sortKeys = obj sorted ∧ sorted.Perm (sortKeysMembers members) := by
  refine ⟨_, by rw [sortKeys], ?_⟩
  exact List.mergeSort_perm _ _

theorem distinctKeysItems_iff {items : List Json} :
    distinctKeysItems items ↔ ∀ v ∈ items, DistinctKeys v := by
  induction items with
  | nil => simp [distinctKeysItems]
  | cons v items ih => simp [distinctKeysItems, ih]

theorem distinctKeysMembers_iff {members : List (String × Json)} :
    distinctKeysMembers members ↔ ∀ m ∈ members, DistinctKeys m.2 := by
  induction members with
  | nil => simp [distinctKeysMembers]
  | cons m members ih =>
      obtain ⟨k, v⟩ := m
      simp [distinctKeysMembers, ih]

theorem distinctKeys_of_get? {raw v : Json} (distinct : raw.DistinctKeys) {name : String}
    (h : raw.get? name = some v) : v.DistinctKeys := by
  cases raw with
  | obj members => exact distinctKeysMembers_iff.mp distinct.2 (name, v) (mem_of_member? h)
  | _ => cases h

mutual
/-- Sorting neither makes an integer longer nor leaves one out. -/
theorem isWritable_sortKeys : (v : Json) → (v.sortKeys.isWritable = true ↔ v.isWritable = true)
  | .null => Iff.rfl
  | .bool _ => Iff.rfl
  | .int _ => Iff.rfl
  | .float _ => Iff.rfl
  | .str _ => Iff.rfl
  | .arr items => itemsWritable_sortKeysItems items
  | .obj members => by
      obtain ⟨sorted, hobj, hperm⟩ := exists_sortKeys_obj members
      have hmembers := membersWritable_sortKeysMembers members
      rw [membersWritable_iff] at hmembers
      rw [hobj]
      change membersWritable sorted = true ↔ membersWritable members = true
      rw [← hmembers, membersWritable_iff]
      simp only [hperm.mem_iff]
theorem itemsWritable_sortKeysItems : (items : List Json) →
    (itemsWritable (sortKeysItems items) = true ↔ itemsWritable items = true)
  | [] => Iff.rfl
  | v :: items => by
      simp only [sortKeysItems, itemsWritable, Bool.and_eq_true, isWritable_sortKeys v,
        itemsWritable_sortKeysItems items]
theorem membersWritable_sortKeysMembers : (members : List (String × Json)) →
    (membersWritable (sortKeysMembers members) = true ↔ membersWritable members = true)
  | [] => Iff.rfl
  | (_, v) :: members => by
      simp only [sortKeysMembers, membersWritable, Bool.and_eq_true, isWritable_sortKeys v,
        membersWritable_sortKeysMembers members]
end

mutual
/-- What can be read back can be read back sorted. -/
theorem readable_sortKeys : {v : Json} → Readable v → Readable v.sortKeys
  | .null, h => h
  | .bool _, h => h
  | .int _, h => h
  | .str _, h => h
  | .arr _, h => readableItems_sortKeysItems h
  | .obj members, h => by
      obtain ⟨sorted, hobj, hperm⟩ := exists_sortKeys_obj members
      have hmembers := readableMembers_iff.mp (readableMembers_sortKeysMembers h.2)
      rw [hobj]
      refine ⟨?_, readableMembers_iff.mpr fun m hm => hmembers m (hperm.mem_iff.mp hm)⟩
      apply (hperm.map Prod.fst).nodup_iff.mpr
      change (keys (sortKeysMembers members)).Nodup
      rw [keys_sortKeysMembers]
      exact h.1
theorem readableItems_sortKeysItems : {items : List Json} → readableItems items →
    readableItems (sortKeysItems items)
  | [], h => h
  | _ :: _, h => ⟨readable_sortKeys h.1, readableItems_sortKeysItems h.2⟩
theorem readableMembers_sortKeysMembers : {members : List (String × Json)} →
    readableMembers members → readableMembers (sortKeysMembers members)
  | [], h => h
  | _ :: _, h => ⟨readable_sortKeys h.1, readableMembers_sortKeysMembers h.2⟩
end

end Json

end PerpRollout
