import PerpRollout.Proofs.Json.WellFormed

/-!
# What is found in an overlay

Laying members on top of others is read key by key: a key that is not changed keeps what
it has (`member?_overlayMembers_of_none`), and one that is changed has the new value, laid
on top of the old one if there is an old one (`member?_overlayMembers_of_some`).
-/

namespace PerpRollout.Json

/-- The value `changes` on top of what is there, if something is. -/
def overlayOn (base? : Option Json) (changes : Json) : Json :=
  match base? with
  | some old => overlay old changes
  | none => changes

theorem member?_eq_none_iff {name : String} {members : List (String × Json)} :
    member? name members = none ↔ name ∉ keys members := by
  constructor
  · intro h hname
    obtain ⟨v, hv⟩ := exists_member? hname
    cases h.symm.trans hv
  · intro h
    cases hv : member? name members with
    | none => rfl
    | some v => exact absurd (List.mem_map_of_mem (mem_of_member? hv)) h

theorem overlayMembers_cons (base : List (String × Json)) (k : String) (v : Json)
    (rest : List (String × Json)) :
    overlayMembers base ((k, v) :: rest) =
      overlayMembers (setMember k (overlayOn (member? k base) v) base) rest := by
  rw [overlayMembers]
  rfl

theorem nodup_keys_overlayMembers {base : List (String × Json)} (h : (keys base).Nodup)
    (changes : List (String × Json)) : (keys (overlayMembers base changes)).Nodup := by
  induction changes generalizing base with
  | nil =>
      rw [overlayMembers]
      exact h
  | cons m rest ih =>
      rw [overlayMembers_cons]
      exact ih (nodup_keys_setMember h _ _)

theorem member?_overlayMembers_of_none {name : String} {changes : List (String × Json)}
    (h : member? name changes = none) (base : List (String × Json)) :
    member? name (overlayMembers base changes) = member? name base := by
  induction changes generalizing base with
  | nil => rw [overlayMembers]
  | cons m rest ih =>
      obtain ⟨k, v⟩ := m
      rw [member?, List.lookup_cons] at h
      split at h
      next => cases h
      next hne =>
        rw [overlayMembers_cons, ih h, member?_setMember_of_ne (by simpa using hne)]

theorem member?_overlayMembers_of_some {name : String} {v : Json}
    {changes : List (String × Json)} (hnodup : (keys changes).Nodup)
    (h : member? name changes = some v) (base : List (String × Json)) :
    member? name (overlayMembers base changes) = some (overlayOn (member? name base) v) := by
  induction changes generalizing base with
  | nil => cases h
  | cons m rest ih =>
      obtain ⟨k, w⟩ := m
      obtain ⟨hk, hrest⟩ := List.nodup_cons.mp hnodup
      rw [member?, List.lookup_cons] at h
      rw [overlayMembers_cons]
      split at h
      next heq =>
        cases h
        rw [beq_iff_eq] at heq
        subst heq
        -- The key does not come again, so its value is not touched any more.
        rw [member?_overlayMembers_of_none (member?_eq_none_iff.mpr hk), member?_setMember_self]
      next hne =>
        rw [ih hrest h, member?_setMember_of_ne (by simpa using hne)]

end PerpRollout.Json
