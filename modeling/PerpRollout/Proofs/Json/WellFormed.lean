import Mathlib.Data.List.Nodup
import Mathlib.Data.List.TakeDrop
import Mathlib.Data.List.TakeWhile
import PerpRollout.Json.Overlay
import PerpRollout.Json.Parser
import PerpRollout.Proofs.Numeral
import PerpRollout.Proofs.Outcome
import PerpRollout.Proofs.Record.Schema

/-!
# What is read from a text is well-formed

A value is well-formed when the keys of every object in it are distinct and no integer in
it is too long to be written (`Json.WellFormed`). Whatever is read from a text within the
limit on digits is well-formed (`wellFormed_of_parse`): of a repeated key the last value
counts, and a longer integer is not read. Laying members on top of others keeps values
well-formed (`wellFormed_overlay`).
-/

namespace PerpRollout.Json

mutual
/-- Distinct keys, and no integer too long to be written, in the value and in every value
in it. -/
def WellFormed : Json → Prop
  | .int n => Numeral.isWritable n = true
  | .arr items => wellFormedItems items
  | .obj members => (keys members).Nodup ∧ wellFormedMembers members
  | _ => True
/-- `WellFormed` for each item. -/
def wellFormedItems : List Json → Prop
  | [] => True
  | v :: rest => WellFormed v ∧ wellFormedItems rest
/-- `WellFormed` for the value of each member. -/
def wellFormedMembers : List (String × Json) → Prop
  | [] => True
  | (_, v) :: rest => WellFormed v ∧ wellFormedMembers rest
end

theorem wellFormedItems_iff {items : List Json} :
    wellFormedItems items ↔ ∀ v ∈ items, WellFormed v := by
  induction items with
  | nil => simp [wellFormedItems]
  | cons v items ih => simp [wellFormedItems, ih]

theorem wellFormedMembers_iff {members : List (String × Json)} :
    wellFormedMembers members ↔ ∀ m ∈ members, WellFormed m.2 := by
  induction members with
  | nil => simp [wellFormedMembers]
  | cons m members ih =>
      obtain ⟨k, v⟩ := m
      simp [wellFormedMembers, ih]

mutual
/-- Well-formed is what has distinct keys and can be written. -/
theorem wellFormed_iff : {v : Json} → (v.WellFormed ↔ v.DistinctKeys ∧ v.isWritable = true)
  | .null => by simp [WellFormed, DistinctKeys, isWritable]
  | .bool _ => by simp [WellFormed, DistinctKeys, isWritable]
  | .int _ => by simp [WellFormed, DistinctKeys, isWritable]
  | .float _ => by simp [WellFormed, DistinctKeys, isWritable]
  | .str _ => by simp [WellFormed, DistinctKeys, isWritable]
  | .arr _ => by
      rw [WellFormed, DistinctKeys, isWritable]
      exact wellFormedItems_iff_and
  | .obj _ => by
      rw [WellFormed, DistinctKeys, isWritable, and_assoc, and_congr_right_iff]
      exact fun _ => wellFormedMembers_iff_and
theorem wellFormedItems_iff_and : {items : List Json} →
    (wellFormedItems items ↔ distinctKeysItems items ∧ itemsWritable items = true)
  | [] => by simp [wellFormedItems, distinctKeysItems, itemsWritable]
  | _ :: _ => by
      rw [wellFormedItems, distinctKeysItems, itemsWritable, Bool.and_eq_true, wellFormed_iff,
        wellFormedItems_iff_and, and_and_and_comm]
theorem wellFormedMembers_iff_and : {members : List (String × Json)} →
    (wellFormedMembers members ↔ distinctKeysMembers members ∧ membersWritable members = true)
  | [] => by simp [wellFormedMembers, distinctKeysMembers, membersWritable]
  | (_, _) :: _ => by
      rw [wellFormedMembers, distinctKeysMembers, membersWritable, Bool.and_eq_true,
        wellFormed_iff, wellFormedMembers_iff_and, and_and_and_comm]
end

theorem WellFormed.distinctKeys {v : Json} (h : v.WellFormed) : v.DistinctKeys :=
  (wellFormed_iff.mp h).1

/-- A well-formed value can be written. -/
theorem WellFormed.isWritable {v : Json} (h : v.WellFormed) : v.isWritable = true :=
  (wellFormed_iff.mp h).2

/-! ## Members -/

theorem nodup_keys_setMember {members : List (String × Json)} (h : (keys members).Nodup)
    (name : String) (value : Json) : (keys (setMember name value members)).Nodup := by
  rw [keys_setMember]
  split
  next => exact h
  next hname =>
    rw [List.nodup_append]
    refine ⟨h, List.nodup_singleton name, ?_⟩
    intro k hk k' hk' heq
    rw [List.mem_singleton.mp hk'] at heq
    exact hname (heq ▸ hk)

theorem mem_setMember {name : String} {value : Json} {members : List (String × Json)}
    {m : String × Json} (h : m ∈ setMember name value members) :
    m ∈ members ∨ m = (name, value) := by
  induction members with
  | nil =>
      rw [setMember, List.mem_singleton] at h
      exact .inr h
  | cons x members ih =>
      obtain ⟨k, v⟩ := x
      rw [setMember] at h
      split at h
      next hk =>
        rcases List.mem_cons.mp h with rfl | h
        · exact .inr (by rw [hk])
        · exact .inl (List.mem_cons_of_mem _ h)
      next =>
        rcases List.mem_cons.mp h with rfl | h
        · exact .inl List.mem_cons_self
        · exact (ih h).imp_left (List.mem_cons_of_mem _)

theorem wellFormed_setMember {members : List (String × Json)} (h : WellFormed (.obj members))
    (name : String) {value : Json} (hvalue : WellFormed value) :
    WellFormed (.obj (setMember name value members)) := by
  refine ⟨nodup_keys_setMember h.1 name value, wellFormedMembers_iff.mpr fun m hm => ?_⟩
  rcases mem_setMember hm with hm | hm
  · exact wellFormedMembers_iff.mp h.2 m hm
  · exact hm ▸ hvalue

theorem wellFormed_foldl_setMember {members : List (String × Json)}
    (h : ∀ m ∈ members, WellFormed m.2) {acc : List (String × Json)}
    (hacc : WellFormed (.obj acc)) :
    WellFormed (.obj (members.foldl (fun acc m => setMember m.1 m.2 acc) acc)) := by
  induction members generalizing acc with
  | nil => exact hacc
  | cons m members ih =>
      have hm := h m List.mem_cons_self
      exact ih (fun x hx => h x (List.mem_cons_of_mem m hx)) (wellFormed_setMember hacc m.1 hm)

/-- Members with well-formed values give a well-formed object, repeated keys or not. -/
theorem wellFormed_ofMembers {members : List (String × Json)}
    (h : ∀ m ∈ members, WellFormed m.2) : WellFormed (ofMembers members) :=
  wellFormed_foldl_setMember h ⟨List.nodup_nil, trivial⟩

/-- Other values under the same keys, each well-formed if the old one is. -/
theorem wellFormed_of_forall₂ {members others : List (String × Json)}
    (h : List.Forall₂ (fun m m' => m.1 = m'.1 ∧ (WellFormed m.2 → WellFormed m'.2)) members others)
    (hmembers : WellFormed (.obj members)) : WellFormed (.obj others) := by
  have hkeys : keys members = keys others := by
    rw [keys, keys, ← List.forall₂_eq_eq_eq, List.forall₂_map_left_iff, List.forall₂_map_right_iff]
    exact h.imp fun _ _ h => h.1
  refine ⟨hkeys ▸ hmembers.1, ?_⟩
  have hvalues := hmembers.2
  clear hmembers hkeys
  induction h with
  | nil => trivial
  | cons hm _ ih => exact ⟨hm.2 hvalues.1, ih hvalues.2⟩

/-! ## Overlays -/

theorem wellFormed_of_member? {name : String} {v : Json} {members : List (String × Json)}
    (h : WellFormed (.obj members)) (hv : member? name members = some v) : WellFormed v :=
  wellFormedMembers_iff.mp h.2 (name, v) (mem_of_member? hv)

mutual
theorem wellFormed_overlay {base : Json} (hbase : WellFormed base) : {changes : Json} →
    WellFormed changes → WellFormed (overlay base changes)
  | .obj changes, h => by
      cases base with
      | obj members => exact wellFormed_overlayMembers hbase h.2
      | _ => exact h
  | .null, h => h
  | .bool _, h => h
  | .int _, h => h
  | .float _, h => h
  | .str _, h => h
  | .arr _, h => h
theorem wellFormed_overlayMembers {base : List (String × Json)} (hbase : WellFormed (.obj base)) :
    {changes : List (String × Json)} → wellFormedMembers changes →
    WellFormed (.obj (overlayMembers base changes))
  | [], _ => by
      rw [overlayMembers]
      exact hbase
  | (k, v) :: rest, h => by
      rw [overlayMembers]
      refine wellFormed_overlayMembers (wellFormed_setMember hbase k ?_) h.2
      split
      next old hold => exact wellFormed_overlay (wellFormed_of_member? hbase hold) h.1
      next => exact h.1
end

/-! ## Reading -/

variable {cs rest : List Char} {v : Json} {items : List Json} {members : List (String × Json)}

theorem isDigit_of_integerPart? {digits : List Char} (h : integerPart? cs = some (digits, rest)) :
    ∀ c ∈ digits, c.isDigit = true := by
  unfold integerPart? at h
  split at h
  next =>
    cases h
    intro c hc
    rw [List.mem_singleton.mp hc]
    rfl
  next =>
    split at h
    next => cases h
    next =>
      have hspan : spanDigits cs = (digits, rest) := Option.some.inj h
      rw [spanDigits, List.span_eq_takeWhile_dropWhile, Prod.mk.injEq] at hspan
      intro c hc
      rw [← hspan.1] at hc
      exact (Numeral.isAsciiDigit_iff c).mp (List.mem_takeWhile_imp hc)

theorem wellFormed_of_parseNumber {limit : Nat} (hlimit : limit ≤ Numeral.digitLimit)
    (h : parseNumber limit cs = .ok (v, rest)) : v.WellFormed := by
  unfold parseNumber at h
  split at h
  next negative digits heq =>
    split at h
    next => cases h
    next digits rest hdigits =>
      have hdigits := isDigit_of_integerPart? hdigits
      split at h
      split at h
      split at h
      next =>
        split at h
        next => cases h
        next hlength =>
          have hn := Numeral.isWritable_value hdigits (Nat.le_trans (Nat.not_lt.mp hlength) hlimit)
          cases h
          cases negative with
          | true => exact (Numeral.isWritable_neg _).trans hn
          | false => exact hn
      next =>
        cases h
        trivial

theorem wellFormed_of_parseAtom {limit : Nat} (hlimit : limit ≤ Numeral.digitLimit)
    (h : parseAtom limit cs = .ok (v, rest)) : v.WellFormed := by
  unfold parseAtom at h
  split at h
  case h_7 => exact wellFormed_of_parseNumber hlimit h
  all_goals
    cases h
    trivial

/-- What is read within a number of steps is well-formed. The three readers call each other
with a step less, so this is one statement about all of them. -/
structure ReadsWellFormed (limit steps : Nat) : Prop where
  value : ∀ {cs v rest}, parseValue limit steps cs = .ok (v, rest) → v.WellFormed
  items : ∀ {cs items rest}, parseItems limit steps cs = .ok (items, rest) →
    ∀ v ∈ items, v.WellFormed
  members : ∀ {cs members rest}, parseMembers limit steps cs = .ok (members, rest) →
    ∀ m ∈ members, m.2.WellFormed

theorem ReadsWellFormed.zero (limit : Nat) : ReadsWellFormed limit 0 where
  value h := by
    rw [parseValue] at h
    cases h
  items h := by
    rw [parseItems] at h
    cases h
  members h := by
    rw [parseMembers] at h
    cases h

theorem ReadsWellFormed.succ {limit steps : Nat} (hlimit : limit ≤ Numeral.digitLimit)
    (ih : ReadsWellFormed limit steps) : ReadsWellFormed limit (steps + 1) where
  value {cs v rest} h := by
    rw [parseValue.eq_def] at h
    dsimp only at h
    split at h
    next =>
      obtain ⟨⟨s, after⟩, -, h⟩ := bind_eq_ok_iff.mp h
      cases h
      trivial
    next =>
      split at h
      next =>
        cases h
        exact ⟨List.nodup_nil, trivial⟩
      next =>
        obtain ⟨⟨members, after⟩, hmembers, h⟩ := bind_eq_ok_iff.mp h
        cases h
        exact wellFormed_ofMembers (ih.members hmembers)
    next =>
      split at h
      next =>
        cases h
        trivial
      next =>
        obtain ⟨⟨items, after⟩, hitems, h⟩ := bind_eq_ok_iff.mp h
        cases h
        exact wellFormedItems_iff.mpr (ih.items hitems)
    next => exact wellFormed_of_parseAtom hlimit h
  items {cs items rest} h := by
    rw [parseItems] at h
    obtain ⟨⟨v, after⟩, hv, h⟩ := bind_eq_ok_iff.mp h
    have hfirst := ih.value hv
    dsimp only at h
    split at h
    next =>
      cases h
      simpa using hfirst
    next =>
      obtain ⟨⟨others, after⟩, hothers, h⟩ := bind_eq_ok_iff.mp h
      cases h
      exact List.forall_mem_cons.mpr ⟨hfirst, ih.items hothers⟩
    next => cases h
  members {cs members rest} h := by
    rw [parseMembers] at h
    obtain ⟨⟨key, colon⟩, -, h⟩ := bind_eq_ok_iff.mp h
    obtain ⟨⟨v, after⟩, hv, h⟩ := bind_eq_ok_iff.mp h
    have hfirst := ih.value hv
    dsimp only at h
    split at h
    next =>
      cases h
      simpa using hfirst
    next =>
      obtain ⟨⟨others, after⟩, hothers, h⟩ := bind_eq_ok_iff.mp h
      cases h
      exact List.forall_mem_cons.mpr ⟨hfirst, ih.members hothers⟩
    next => cases h

/-- What is read from a text within the limit is well-formed. -/
theorem wellFormed_of_parse {limit : Nat} (hlimit : limit ≤ Numeral.digitLimit)
    (h : parse limit cs = .ok v) : v.WellFormed := by
  have hreads (steps : Nat) : ReadsWellFormed limit steps := by
    induction steps with
    | zero => exact .zero limit
    | succ steps ih => exact ih.succ hlimit
  unfold parse at h
  split at h
  next => cases h
  next =>
    obtain ⟨⟨w, after⟩, hw, h⟩ := bind_eq_ok_iff.mp h
    dsimp only at h
    split at h
    next =>
      cases h
      exact (hreads _).value hw
    next => cases h

end PerpRollout.Json
