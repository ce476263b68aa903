import Mathlib.Data.List.Nodup
import PerpRollout.Proofs.Json.Text
import PerpRollout.Proofs.Outcome

/-!
# Values are read back as they are written

A value without floats whose keys are distinct and whose integers are within the
limit (`Json.Readable`) is read back from its text, in any layout that puts blanks
only (`parse_chars`). The induction is on the value; what it carries through the
text is that the steps left are at least the characters still to be read.
-/

namespace PerpRollout.Json

theorem setMember_of_not_mem {name : String} {value : Json} {members : List (String × Json)}
    (h : name ∉ keys members) : setMember name value members = members ++ [(name, value)] := by
  induction members with
  | nil => rfl
  | cons m members ih =>
      obtain ⟨k, v⟩ := m
      rw [keys, List.map_cons, List.mem_cons, not_or] at h
      rw [setMember, if_neg (Ne.symm h.1), ih h.2, List.cons_append]

theorem foldl_setMember {acc members : List (String × Json)}
    (h : (keys (acc ++ members)).Nodup) :
    members.foldl (fun acc m => setMember m.1 m.2 acc) acc = acc ++ members := by
  induction members generalizing acc with
  | nil => simp
  | cons m members ih =>
      have hm : m.1 ∉ keys acc := by
        rw [keys, List.map_append, List.nodup_append] at h
        intro hm
        exact h.2.2 m.1 hm m.1 (by simp) rfl
      rw [List.foldl_cons, setMember_of_not_mem hm, ih (by simpa using h), List.append_assoc,
        List.singleton_append]

/-- Members with distinct keys spell out the object of these members. -/
theorem ofMembers_of_nodup {members : List (String × Json)} (h : (keys members).Nodup) :
    ofMembers members = .obj members :=
  congrArg Json.obj (@foldl_setMember [] members h)

/-! ## Gaps -/

/-- A layout that puts only blanks between the parts of a text. -/
def Layout.Blank (l : Layout) : Prop :=
  (∀ c ∈ l.afterComma, isGap c = true) ∧ ∀ depth, ∀ c ∈ l.margin depth, isGap c = true

theorem Layout.blank_indented : Layout.indented.Blank := by
  constructor
  · simp [Layout.indented]
  · intro depth c hc
    rw [Layout.indented, List.mem_cons, List.mem_replicate] at hc
    rcases hc with rfl | ⟨-, rfl⟩ <;> decide

theorem Layout.blank_line : Layout.line.Blank := by
  constructor <;> simp [Layout.line, isGap]

theorem skipGap_cons {c : Char} (h : isGap c = false) (cs : List Char) :
    skipGap (c :: cs) = c :: cs := by
  simp [skipGap, h]

theorem skipGap_append {gap : List Char} (h : ∀ c ∈ gap, isGap c = true) (cs : List Char) :
    skipGap (gap ++ cs) = skipGap cs := by
  rw [skipGap, skipGap, List.dropWhile_append_of_pos h]

/-! ## Steps of the reader -/

section Steps

variable {limit steps : Nat} {cs rest : List Char} {v : Json} {items : List Json}
  {members : List (String × Json)}

theorem parseValue_str (s : String) :
    parseValue limit (steps + 1) (stringText s ++ rest) = .ok (.str s, rest) := by
  have h := parseText_stringText s rest
  simp [stringText, parseValue, h]

theorem parseKey_stringText (k : String) :
    parseKey (stringText k ++ ':' :: rest) = .ok (k, skipGap rest) := by
  have hcolon : isGap ':' = false := rfl
  have h := parseText_stringText k (':' :: rest)
  simp [stringText, parseKey, h, ok_bind, skipGap_cons hcolon]
  rfl

theorem parseValue_arr_nil :
    parseValue limit (steps + 1) ('[' :: ']' :: rest) = .ok (.arr [], rest) := by
  have hclose : isGap ']' = false := rfl
  simp [parseValue, skipGap_cons hclose]

theorem parseValue_obj_nil :
    parseValue limit (steps + 1) ('\x7b' :: '\x7d' :: rest) = .ok (.obj [], rest) := by
  have hclose : isGap '\x7d' = false := rfl
  simp [parseValue, skipGap_cons hclose]

theorem parseValue_arr {c : Char} {more : List Char} (hstart : skipGap cs = c :: more)
    (hc : c ≠ ']') (h : parseItems limit steps (c :: more) = .ok (items, rest)) :
    parseValue limit (steps + 1) ('[' :: cs) = .ok (.arr items, rest) := by
  simp [parseValue, hstart, hc, h]

theorem parseValue_obj {c : Char} {more : List Char} (hstart : skipGap cs = c :: more)
    (hc : c ≠ '\x7d') (h : parseMembers limit steps (c :: more) = .ok (members, rest)) :
    parseValue limit (steps + 1) ('\x7b' :: cs) = .ok (ofMembers members, rest) := by
  simp [parseValue, hstart, hc, h]

theorem parseItems_last {after : List Char} (hv : parseValue limit steps cs = .ok (v, after))
    (hafter : skipGap after = ']' :: rest) :
    parseItems limit (steps + 1) cs = .ok ([v], rest) := by
  simp [parseItems, hv, hafter, ok_bind]
  rfl

theorem parseItems_more {after more : List Char}
    (hv : parseValue limit steps cs = .ok (v, after)) (hafter : skipGap after = ',' :: more)
    (h : parseItems limit steps (skipGap more) = .ok (items, rest)) :
    parseItems limit (steps + 1) cs = .ok (v :: items, rest) := by
  simp [parseItems, hv, hafter, h, ok_bind]

theorem parseMembers_last {k : String} {value after : List Char} (hk : parseKey cs = .ok (k, value))
    (hv : parseValue limit steps value = .ok (v, after)) (hafter : skipGap after = '\x7d' :: rest) :
    parseMembers limit (steps + 1) cs = .ok ([(k, v)], rest) := by
  simp [parseMembers, hk, hv, hafter, ok_bind]
  rfl

theorem parseMembers_more {k : String} {value after more : List Char}
    (hk : parseKey cs = .ok (k, value)) (hv : parseValue limit steps value = .ok (v, after))
    (hafter : skipGap after = ',' :: more)
    (h : parseMembers limit steps (skipGap more) = .ok (members, rest)) :
    parseMembers limit (steps + 1) cs = .ok ((k, v) :: members, rest) := by
  simp [parseMembers, hk, hv, hafter, h, ok_bind]

theorem parseValue_atom {c : Char} (hquote : c ≠ '"') (hbrace : c ≠ '\x7b') (hbracket : c ≠ '[') :
    parseValue limit (steps + 1) (c :: cs) = parseAtom limit (c :: cs) := by
  rw [parseValue]
  · exact fun _ h => hquote (List.cons.inj h).1
  · exact fun _ h => hbrace (List.cons.inj h).1
  · exact fun _ h => hbracket (List.cons.inj h).1

theorem parseAtom_digit {d : Char} (h : Text.isAsciiDigit d = true) :
    parseAtom limit (d :: cs) = parseNumber limit (d :: cs) := by
  rw [parseAtom]
  all_goals exact fun _ hcs => ne_of_isAsciiDigit h (by decide) (List.cons.inj hcs).1

theorem parseAtom_neg {d : Char} (h : Text.isAsciiDigit d = true) :
    parseAtom limit ('-' :: d :: cs) = parseNumber limit ('-' :: d :: cs) := by
  rw [parseAtom]
  all_goals
    intro _ hcs
    cases hcs
  -- only `-Infinity` starts with the sign as well
  cases h

theorem parseValue_int {n : Int} (hlimit : Numeral.length n.natAbs ≤ limit) (hrest : Ends rest) :
    parseValue limit (steps + 1) ((Numeral.ofInt n).toList ++ rest) = .ok (.int n, rest) := by
  have hread := parseNumber_ofInt hlimit hrest
  cases n with
  | ofNat n =>
      change parseNumber limit ((Numeral.ofInt (n : Int)).toList ++ rest) = _ at hread
      change parseValue limit _ ((Numeral.ofInt (n : Int)).toList ++ rest) = _
      obtain ⟨d, ds, hds, hdigit⟩ := exists_toDigits_eq_cons n
      rw [toList_ofInt_ofNat, hds, List.cons_append] at hread ⊢
      rw [parseValue_atom (ne_of_isAsciiDigit hdigit (by decide))
        (ne_of_isAsciiDigit hdigit (by decide)) (ne_of_isAsciiDigit hdigit (by decide)),
        parseAtom_digit hdigit]
      exact hread
  | negSucc n =>
      obtain ⟨d, ds, hds, hdigit⟩ := exists_toDigits_eq_cons (n + 1)
      rw [toList_ofInt_negSucc, hds, List.cons_append, List.cons_append] at hread ⊢
      rw [parseValue_atom (by decide) (by decide) (by decide), parseAtom_neg hdigit]
      exact hread

end Steps

/-! ## The round trip -/

theorem ends_of_isGap {c : Char} (h : isGap c = true) (rest : List Char) : Ends (c :: rest) := by
  simp only [isGap, Bool.or_eq_true, decide_eq_true_eq] at h
  rw [ends_cons]
  rcases h with ((rfl | rfl) | rfl) | rfl <;> decide

theorem ends_append {gap : List Char} (h : ∀ c ∈ gap, isGap c = true) {rest : List Char}
    (hrest : Ends rest) : Ends (gap ++ rest) := by
  cases gap with
  | nil => exact hrest
  | cons c gap => exact ends_of_isGap (h c List.mem_cons_self) _

/-- The blanks in front of a value end where the value starts. -/
theorem skipGap_chars (l : Layout) (depth : Nat) {gap : List Char}
    (hgap : ∀ c ∈ gap, isGap c = true) {v : Json} (hv : Readable v) (after : List Char) :
    skipGap (gap ++ (chars l depth v ++ after)) = chars l depth v ++ after := by
  obtain ⟨c, cs, hcs, hc, -, -⟩ := exists_chars_eq_cons l depth hv
  rw [skipGap_append hgap, hcs, List.cons_append, skipGap_cons hc]

theorem skipGap_itemChars (l : Layout) (depth : Nat) {gap : List Char}
    (hgap : ∀ c ∈ gap, isGap c = true) {v : Json} (hv : Readable v) (items : List Json)
    (after : List Char) :
    skipGap (gap ++ (itemChars l depth (v :: items) ++ after)) =
      itemChars l depth (v :: items) ++ after := by
  rw [itemChars, List.append_assoc]
  exact skipGap_chars l depth hgap hv _

theorem skipGap_memberChars (l : Layout) (depth : Nat) {gap : List Char}
    (hgap : ∀ c ∈ gap, isGap c = true) (m : String × Json) (members : List (String × Json))
    (after : List Char) :
    skipGap (gap ++ (memberChars l depth (m :: members) ++ after)) =
      memberChars l depth (m :: members) ++ after := by
  rw [skipGap_append hgap]
  exact skipGap_cons rfl _

/-- A key is read up to the value after it. -/
theorem parseKey_chars (l : Layout) (depth : Nat) (k : String) {v : Json} (hv : Readable v)
    (after : List Char) :
    parseKey (stringText k ++ ':' :: ' ' :: (chars l depth v ++ after)) =
      .ok (k, chars l depth v ++ after) := by
  have hgap : ∀ c ∈ [' '], isGap c = true := List.all_eq_true.mp rfl
  have hskip := skipGap_chars l depth hgap hv after
  rw [List.singleton_append] at hskip
  rw [parseKey_stringText, hskip]

theorem ends_comma (rest : List Char) : Ends (',' :: rest) := by
  rw [ends_cons]
  decide

/-- What ends a list or an object is not taken for more of the value before it. -/
theorem ends_close {gap : List Char} (hgap : ∀ c ∈ gap, isGap c = true) {c : Char}
    (hc : c = ']' ∨ c = '\x7d') (rest : List Char) : Ends (gap ++ c :: rest) := by
  refine ends_append hgap ?_
  rw [ends_cons]
  rcases hc with rfl | rfl <;> decide

section RoundTrip

variable {l : Layout} (hl : l.Blank)
include hl

theorem parseValue_arr_chars {depth steps : Nat} {v : Json} (hv : Readable v) {items : List Json}
    {rest : List Char}
    (h : parseItems Numeral.digitLimit steps
      (itemChars l (depth + 1) (v :: items) ++ (l.margin depth ++ ']' :: rest)) =
        .ok (v :: items, rest)) :
    parseValue Numeral.digitLimit (steps + 1) (chars l depth (.arr (v :: items)) ++ rest) =
      .ok (.arr (v :: items), rest) := by
  obtain ⟨c, cs, hcs, -, hne, -⟩ := exists_chars_eq_cons l (depth + 1) hv
  obtain ⟨more, hmore⟩ : ∃ more, itemChars l (depth + 1) (v :: items) ++
      (l.margin depth ++ ']' :: rest) = c :: more := by
    rw [itemChars, hcs]
    exact ⟨_, rfl⟩
  have hstart := skipGap_itemChars l (depth + 1) (hl.2 (depth + 1)) hv items
    (l.margin depth ++ ']' :: rest)
  rw [hmore] at h hstart
  have hparse := parseValue_arr hstart hne h
  rw [← hmore] at hparse
  rw [chars_arr_cons]
  simpa using hparse

theorem parseValue_obj_chars {depth steps : Nat} {m : String × Json}
    {members : List (String × Json)} (hkeys : (keys (m :: members)).Nodup) {rest : List Char}
    (h : parseMembers Numeral.digitLimit steps
      (memberChars l (depth + 1) (m :: members) ++ (l.margin depth ++ '\x7d' :: rest)) =
        .ok (m :: members, rest)) :
    parseValue Numeral.digitLimit (steps + 1) (chars l depth (.obj (m :: members)) ++ rest) =
      .ok (.obj (m :: members), rest) := by
  obtain ⟨more, hmore⟩ : ∃ more, memberChars l (depth + 1) (m :: members) ++
      (l.margin depth ++ '\x7d' :: rest) = '"' :: more := ⟨_, rfl⟩
  have hstart := skipGap_memberChars l (depth + 1) (hl.2 (depth + 1)) m members
    (l.margin depth ++ '\x7d' :: rest)
  rw [hmore] at h hstart
  have hparse := parseValue_obj hstart (by decide) h
  rw [← hmore] at hparse
  rw [chars_obj_cons, ← ofMembers_of_nodup hkeys]
  simpa using hparse

theorem isGap_of_mem_separator (depth : Nat) :
    ∀ c ∈ l.afterComma ++ l.margin depth, isGap c = true := by
  intro c hc
  rcases List.mem_append.mp hc with hc | hc
  · exact hl.1 c hc
  · exact hl.2 depth c hc

theorem parseItems_more_chars {depth steps : Nat} {v w : Json} (hw : Readable w)
    {items : List Json} {after rest : List Char}
    (hv : ∀ more, Ends more → parseValue Numeral.digitLimit steps (chars l depth v ++ more) =
      .ok (v, more))
    (h : parseItems Numeral.digitLimit steps (itemChars l depth (w :: items) ++ after) =
      .ok (w :: items, rest)) :
    parseItems Numeral.digitLimit (steps + 1) (itemChars l depth (v :: w :: items) ++ after) =
      .ok (v :: w :: items, rest) := by
  have hcomma := hv _ (ends_comma
    ((l.afterComma ++ l.margin depth) ++ (itemChars l depth (w :: items) ++ after)))
  have hmore := skipGap_itemChars l depth (isGap_of_mem_separator hl depth) hw items after
  rw [← hmore] at h
  rw [itemChars_cons_cons]
  simpa using parseItems_more hcomma (skipGap_cons rfl _) h

theorem parseMembers_more_chars {depth steps : Nat} (k : String) {v : Json} (hk : Readable v)
    {m : String × Json} {members : List (String × Json)} {after rest : List Char}
    (hv : ∀ more, Ends more → parseValue Numeral.digitLimit steps (chars l depth v ++ more) =
      .ok (v, more))
    (h : parseMembers Numeral.digitLimit steps (memberChars l depth (m :: members) ++ after) =
      .ok (m :: members, rest)) :
    parseMembers Numeral.digitLimit (steps + 1)
      (memberChars l depth ((k, v) :: m :: members) ++ after) =
        .ok ((k, v) :: m :: members, rest) := by
  have hkey := parseKey_chars l depth k hk (',' :: ((l.afterComma ++ l.margin depth) ++
    (memberChars l depth (m :: members) ++ after)))
  have hcomma := hv _ (ends_comma
    ((l.afterComma ++ l.margin depth) ++ (memberChars l depth (m :: members) ++ after)))
  have hmore := skipGap_memberChars l depth (isGap_of_mem_separator hl depth) m members after
  rw [← hmore] at h
  rw [memberChars_cons_cons]
  simpa using parseMembers_more hkey hcomma (skipGap_cons rfl _) h

mutual
/-- A value is read back from its characters. -/
theorem parseValue_chars {v : Json} (hv : Readable v) {depth steps : Nat}
    (hsteps : (chars l depth v).length ≤ steps) {rest : List Char} (hrest : Ends rest) :
    parseValue Numeral.digitLimit steps (chars l depth v ++ rest) = .ok (v, rest) := by
  obtain ⟨c, cs, hcs, -, -, -⟩ := exists_chars_eq_cons l depth hv
  obtain ⟨steps, rfl⟩ : ∃ s, steps = s + 1 := by
    rw [hcs, List.length_cons] at hsteps
    exact ⟨steps - 1, by omega⟩
  match v, hv with
  | .null, _ => rfl
  | .bool true, _ => rfl
  | .bool false, _ => rfl
  | .int n, hv =>
      rw [chars_int]
      exact parseValue_int (by simpa [Readable, Numeral.isWritable] using hv) hrest
  | .str s, _ =>
      rw [chars_str]
      exact parseValue_str s
  | .arr [], _ => exact parseValue_arr_nil
  | .arr (v :: items), hitems =>
      rw [chars_arr_cons] at hsteps
      simp only [List.length_cons, List.length_append] at hsteps
      exact parseValue_arr_chars hl hitems.1
        (parseItems_chars hitems (by simp) (by omega) (hl.2 depth) rest)
  | .obj [], _ => exact parseValue_obj_nil
  | .obj (m :: members), hmembers =>
      rw [chars_obj_cons] at hsteps
      simp only [List.length_cons, List.length_append] at hsteps
      exact parseValue_obj_chars hl hmembers.1
        (parseMembers_chars hmembers.2 (by simp) (by omega) (hl.2 depth) rest)
theorem parseItems_chars {items : List Json} (hitems : readableItems items) (hne : items ≠ [])
    {depth steps : Nat} (hsteps : (itemChars l depth items).length < steps) {gap : List Char}
    (hgap : ∀ c ∈ gap, isGap c = true) (rest : List Char) :
    parseItems Numeral.digitLimit steps (itemChars l depth items ++ (gap ++ ']' :: rest)) =
      .ok (items, rest) := by
  obtain ⟨steps, rfl⟩ : ∃ s, steps = s + 1 := ⟨steps - 1, by omega⟩
  match items, hitems with
  | [], _ => exact absurd rfl hne
  | [v], hitems =>
      rw [itemChars_singleton] at hsteps ⊢
      have hends := ends_close hgap (.inl rfl) rest
      refine parseItems_last (parseValue_chars hitems.1 (by omega) hends) ?_
      rw [skipGap_append hgap, skipGap_cons rfl]
  | v :: w :: items, hitems =>
      rw [itemChars_cons_cons] at hsteps
      simp only [List.length_cons, List.length_append] at hsteps
      exact parseItems_more_chars hl hitems.2.1
        (fun more hmore => parseValue_chars hitems.1 (by omega) hmore)
        (parseItems_chars hitems.2 (by simp) (by omega) hgap rest)
theorem parseMembers_chars {members : List (String × Json)} (hmembers : readableMembers members)
    (hne : members ≠ []) {depth steps : Nat}
    (hsteps : (memberChars l depth members).length < steps) {gap : List Char}
    (hgap : ∀ c ∈ gap, isGap c = true) (rest : List Char) :
    parseMembers Numeral.digitLimit steps (memberChars l depth members ++ (gap ++ '\x7d' :: rest)) =
      .ok (members, rest) := by
  obtain ⟨steps, rfl⟩ : ∃ s, steps = s + 1 := ⟨steps - 1, by omega⟩
  match members, hmembers with
  | [], _ => exact absurd rfl hne
  | [(k, v)], hmembers =>
      rw [memberChars_singleton] at hsteps ⊢
      simp only [List.length_cons, List.length_append] at hsteps
      have hkey := parseKey_chars l depth k hmembers.1 (gap ++ '\x7d' :: rest)
      have hends : Ends (gap ++ '\x7d' :: rest) := ends_close hgap (.inr rfl) rest
      have hvalue :
          parseValue Numeral.digitLimit steps (chars l depth v ++ (gap ++ '\x7d' :: rest)) =
            .ok (v, gap ++ '\x7d' :: rest) := parseValue_chars hmembers.1 (by omega) hends
      have hclose : skipGap (gap ++ '\x7d' :: rest) = '\x7d' :: rest := by
        rw [skipGap_append hgap, skipGap_cons rfl]
      simpa using parseMembers_last hkey hvalue hclose
  | (k, v) :: m :: members, hmembers =>
      rw [memberChars_cons_cons] at hsteps
      simp only [List.length_cons, List.length_append] at hsteps
      exact parseMembers_more_chars hl k hmembers.1
        (fun more hmore => parseValue_chars hmembers.1 (by omega) hmore)
        (parseMembers_chars hmembers.2 (by simp) (by omega) hgap rest)
end

/-- A text is read back with nothing but blanks after it. -/
theorem parse_chars {v : Json} (hv : Readable v) {tail : List Char}
    (htail : ∀ c ∈ tail, isGap c = true) :
    parse Numeral.digitLimit (chars l 0 v ++ tail) = .ok v := by
  obtain ⟨c, cs, hcs, hc, -, hbom⟩ := exists_chars_eq_cons l 0 hv
  have hends : Ends tail := by
    rw [← List.append_nil tail]
    exact ends_append htail ends_nil
  have hsteps : (chars l 0 v).length ≤ 2 * (chars l 0 v ++ tail).length + 2 := by
    rw [List.length_append]
    omega
  have hread := parseValue_chars hl hv hsteps hends
  have hskip : skipGap tail = [] := by
    rw [← List.append_nil tail, skipGap_append htail]
    rfl
  rw [hcs] at hread ⊢
  rw [List.cons_append] at hread ⊢
  rw [parse]
  · rw [skipGap_cons hc, hread, ok_bind]
    simp only [hskip]
    rfl
  · exact fun _ h => hbom (List.cons.inj h).1

end RoundTrip

end PerpRollout.Json
