import PerpRollout.Json.Parser
import PerpRollout.Json.Printer

/-!
# Texts are read back as they are spelled

`Json.stringText` spells a text in ASCII, with escapes for everything that is not
printable and two of them for a character above U+FFFF. `Json.parseText` reads it
back: first the spelling, unit by unit (`parseString_escape`), then the characters
the units stand for (`joinUnits_spell`), where the halves of a surrogate pair meet
again.
-/

namespace PerpRollout.Json

/-! ## Hexadecimal digits -/

theorem hexValue?_digitChar {k : Nat} (h : k < 16) : Text.hexValue? (Nat.digitChar k) = some k := by
  have h16 : ∀ k < 16, Text.hexValue? (Nat.digitChar k) = some k := by decide
  exact h16 k h

theorem hexDigits_four (n : Nat) :
    Text.hexDigits 4 n = [Nat.digitChar (n / 4096 % 16), Nat.digitChar (n / 256 % 16),
      Nat.digitChar (n / 16 % 16), Nat.digitChar (n % 16)] := by
  simp [Text.hexDigits, Nat.div_div_eq_div_mul]

theorem hexUnit?_hexDigits {n : Nat} (h : n < 0x10000) :
    hexUnit? (Nat.digitChar (n / 4096 % 16)) (Nat.digitChar (n / 256 % 16))
      (Nat.digitChar (n / 16 % 16)) (Nat.digitChar (n % 16)) = some n := by
  have hlt (m : Nat) : m % 16 < 16 := Nat.mod_lt m (by decide)
  have hn : ((n / 4096 % 16 * 16 + n / 256 % 16) * 16 + n / 16 % 16) * 16 + n % 16 = n := by omega
  simp [hexUnit?, hexValue?_digitChar (hlt _), hn]

/-! ## The spelling of a character -/

/-- The characters that are spelled by an escape of one letter. -/
def isShort (c : Char) : Bool :=
  c = '"' || c = '\\' || c = '\n' || c = '\r' || c = '\t' || c = '\x08' || c = '\x0C'

/-- The first half of the surrogate pair of a character. -/
def highUnit (n : Nat) : Nat := 0xD800 + (n - 0x10000) / 0x400

/-- The second half of the surrogate pair of a character. -/
def lowUnit (n : Nat) : Nat := 0xDC00 + (n - 0x10000) % 0x400

/-- What the escapes of a character spell. -/
def spell (c : Char) : List Spelled :=
  if isShort c || (0x20 ≤ c.toNat && c.toNat ≤ 0x7E) then [.char c]
  else if c.toNat ≤ 0xFFFF then [.unit c.toNat]
  else [.unit (highUnit c.toNat), .unit (lowUnit c.toNat)]

variable {opening cs rest : List Char} {sp : List Spelled}

theorem ne_nil_of_parseString (h : parseString opening cs = .ok (sp, rest)) : cs ≠ [] := by
  intro hcs
  rw [hcs, parseString] at h
  cases h

theorem parseString_plain {c : Char} (hquote : c ≠ '"') (hback : c ≠ '\\') (hc : 0x1F < c.toNat)
    (h : parseString opening cs = .ok (sp, rest)) :
    parseString opening (c :: cs) = .ok (.char c :: sp, rest) := by
  have hcontrol : ¬c.toNat ≤ 0x1F := Nat.not_le.mpr hc
  rw [parseString.eq_def]
  simp [hquote, hback, hcontrol, h, consSpelled]

theorem parseString_short {e c : Char} (hu : e ≠ 'u') (he : simpleEscape? e = some c)
    (h : parseString opening cs = .ok (sp, rest)) :
    parseString opening ('\\' :: e :: cs) = .ok (.char c :: sp, rest) := by
  rw [parseString]
  · simp [he, h, consSpelled]
  · exact hu

theorem parseString_escapeUnit {n : Nat} (hn : n < 0x10000)
    (h : parseString opening cs = .ok (sp, rest)) :
    parseString opening (escapeUnit n ++ cs) = .ok (.unit n :: sp, rest) := by
  have hcs := ne_nil_of_parseString h
  rw [escapeUnit, hexDigits_four]
  simp [parseString, hexUnit?_hexDigits hn, hcs, h, consSpelled]

theorem shortEscape {c : Char} (h : isShort c = true) :
    ∃ e, escape c = ['\\', e] ∧ e ≠ 'u' ∧ simpleEscape? e = some c := by
  simp only [isShort, Bool.or_eq_true, decide_eq_true_eq] at h
  rcases h with (((((rfl | rfl) | rfl) | rfl) | rfl) | rfl) | rfl
  · exact ⟨'"', by decide⟩
  · exact ⟨'\\', by decide⟩
  · exact ⟨'n', by decide⟩
  · exact ⟨'r', by decide⟩
  · exact ⟨'t', by decide⟩
  · exact ⟨'b', by decide⟩
  · exact ⟨'f', by decide⟩

theorem escape_of_not_short {c : Char} (h : isShort c = false) :
    escape c =
      if 0x20 ≤ c.toNat ∧ c.toNat ≤ 0x7E then [c]
      else if c.toNat ≤ 0xFFFF then escapeUnit c.toNat
      else escapeUnit (highUnit c.toNat) ++ escapeUnit (lowUnit c.toNat) := by
  simp only [isShort, Bool.or_eq_false_iff, decide_eq_false_iff_not] at h
  obtain ⟨⟨⟨⟨⟨⟨hquote, hback⟩, hn⟩, hr⟩, ht⟩, hb⟩, hf⟩ := h
  have hb' : c.toNat ≠ 0x8 := fun h => hb (Char.toNat_inj.mp h)
  have hf' : c.toNat ≠ 0xC := fun h => hf (Char.toNat_inj.mp h)
  simp [escape, hquote, hback, hn, hr, ht, hb', hf', highUnit, lowUnit]

/-- No character is half of a surrogate pair. -/
theorem scalar (c : Char) : c.toNat < 0xD800 ∨ (0xDFFF < c.toNat ∧ c.toNat < 0x110000) :=
  c.valid

/-- One character after another is spelled back. -/
theorem parseString_escape (c : Char) (h : parseString opening cs = .ok (sp, rest)) :
    parseString opening (escape c ++ cs) = .ok (spell c ++ sp, rest) := by
  by_cases hshort : isShort c = true
  · obtain ⟨e, hescape, hu, he⟩ := shortEscape hshort
    rw [hescape, spell, hshort]
    exact parseString_short hu he h
  · rw [Bool.not_eq_true] at hshort
    rw [escape_of_not_short hshort, spell, hshort]
    simp only [Bool.false_or, Bool.and_eq_true, decide_eq_true_eq]
    split
    next hplain =>
      have hquote : c ≠ '"' := by
        intro hc
        rw [hc] at hshort
        cases hshort
      have hback : c ≠ '\\' := by
        intro hc
        rw [hc] at hshort
        cases hshort
      exact parseString_plain hquote hback hplain.1 h
    next hplain =>
      split
      next hbmp => exact parseString_escapeUnit (Nat.lt_succ_of_le hbmp) h
      next hbmp =>
        have hc := scalar c
        have hhigh : highUnit c.toNat < 0x10000 := by
          unfold highUnit
          omega
        have hlow : lowUnit c.toNat < 0x10000 := by
          unfold lowUnit
          omega
        rw [List.append_assoc]
        exact parseString_escapeUnit hhigh (parseString_escapeUnit hlow h)

theorem parseString_text (cs rest : List Char) :
    parseString opening (cs.flatMap escape ++ '"' :: rest) = .ok (cs.flatMap spell, rest) := by
  induction cs with
  | nil =>
      rw [List.flatMap_nil, List.flatMap_nil, List.nil_append, parseString.eq_def]
      simp
  | cons c cs ih =>
      rw [List.flatMap_cons, List.flatMap_cons, List.append_assoc]
      exact parseString_escape c ih

/-! ## The characters that are spelled -/

theorem charOfUnit_toNat (c : Char) : charOfUnit c.toNat = c := by
  have hc := scalar c
  have hsurrogate : ¬(0xD800 ≤ c.toNat ∧ c.toNat ≤ 0xDFFF) := by omega
  simp [charOfUnit, hsurrogate, Char.ofNat_toNat]

/-- The unit of a whole character waits for no other half. -/
theorem joinUnits_some_toNat (c : Char) (sp : List Spelled) :
    joinUnits (some c.toNat) sp = c :: joinUnits none sp := by
  have hc := scalar c
  have hhigh (low : Nat) : charOfPair? c.toNat low = none := by
    have hnot : ¬(0xD800 ≤ c.toNat ∧ c.toNat ≤ 0xDBFF) := by omega
    rw [charOfPair?, if_neg]
    simp only [Bool.and_eq_true, decide_eq_true_eq]
    intro h
    exact hnot h.1.1
  cases sp with
  | nil => simp [joinUnits, charOfUnit_toNat]
  | cons s sp =>
      cases s with
      | char d => simp [joinUnits, charOfUnit_toNat]
      | unit n => simp [joinUnits, hhigh, charOfUnit_toNat]

theorem charOfPair?_units {c : Char} (h : 0xFFFF < c.toNat) :
    charOfPair? (highUnit c.toNat) (lowUnit c.toNat) = some c := by
  have hc := scalar c
  have hpair : 0xD800 ≤ highUnit c.toNat ∧ highUnit c.toNat ≤ 0xDBFF ∧
      0xDC00 ≤ lowUnit c.toNat ∧ lowUnit c.toNat ≤ 0xDFFF := by
    unfold highUnit lowUnit
    omega
  have hvalue : 0x10000 + (highUnit c.toNat - 0xD800) * 0x400 + (lowUnit c.toNat - 0xDC00) =
      c.toNat := by
    unfold highUnit lowUnit
    omega
  rw [charOfPair?, if_pos, hvalue, Char.ofNat_toNat]
  simp only [Bool.and_eq_true, decide_eq_true_eq]
  exact ⟨⟨⟨hpair.1, hpair.2.1⟩, hpair.2.2.1⟩, hpair.2.2.2⟩

theorem joinUnits_pair {high low : Nat} {c : Char} (h : charOfPair? high low = some c)
    (sp : List Spelled) :
    joinUnits none (.unit high :: .unit low :: sp) = c :: joinUnits none sp := by
  rw [joinUnits]
  simp only [joinUnits, h]

theorem joinUnits_spell (c : Char) (sp : List Spelled) :
    joinUnits none (spell c ++ sp) = c :: joinUnits none sp := by
  unfold spell
  split
  next => simp [joinUnits]
  next =>
    split
    next =>
      rw [List.singleton_append, joinUnits]
      exact joinUnits_some_toNat c sp
    next hbmp =>
      exact joinUnits_pair (charOfPair?_units (Nat.lt_of_not_le hbmp)) sp

theorem joinUnits_text (cs : List Char) : joinUnits none (cs.flatMap spell) = cs := by
  induction cs with
  | nil => rfl
  | cons c cs ih => rw [List.flatMap_cons, joinUnits_spell, ih]

/-- A text that is spelled is read back, whatever follows it. -/
theorem parseText_stringText (s : String) (rest : List Char) :
    parseText (s.toList.flatMap escape ++ '"' :: rest) = .ok (s, rest) := by
  rw [parseText, parseString_text]
  simp [joinUnits_text]

/-! ## The characters of a spelling -/

/-- A printable ASCII character. -/
def isPlain (c : Char) : Bool :=
  0x20 ≤ c.toNat && c.toNat ≤ 0x7E

theorem isPlain_digitChar {k : Nat} (h : k < 16) : isPlain (Nat.digitChar k) = true := by
  have h16 : ∀ k < 16, isPlain (Nat.digitChar k) = true := by decide
  exact h16 k h

theorem isPlain_escapeUnit (n : Nat) : ∀ c ∈ escapeUnit n, isPlain c = true := by
  have hlt (m : Nat) : m % 16 < 16 := Nat.mod_lt m (by decide)
  have hback : isPlain '\\' = true ∧ isPlain 'u' = true := by decide
  simp [escapeUnit, hexDigits_four, isPlain_digitChar (hlt _), hback]

theorem isPlain_escape (c : Char) : ∀ d ∈ escape c, isPlain d = true := by
  by_cases hshort : isShort c = true
  · simp only [isShort, Bool.or_eq_true, decide_eq_true_eq] at hshort
    rcases hshort with (((((rfl | rfl) | rfl) | rfl) | rfl) | rfl) | rfl <;>
      exact List.all_eq_true.mp rfl
  · rw [Bool.not_eq_true] at hshort
    rw [escape_of_not_short hshort]
    split
    next hplain => simpa [isPlain] using hplain
    next =>
      split
      next => exact isPlain_escapeUnit c.toNat
      next =>
        intro d hd
        rcases List.mem_append.mp hd with hd | hd
        · exact isPlain_escapeUnit _ d hd
        · exact isPlain_escapeUnit _ d hd

theorem isPlain_stringText (s : String) : ∀ c ∈ stringText s, isPlain c = true := by
  intro c hc
  rw [stringText, List.cons_append, List.mem_cons, List.mem_append, List.mem_singleton,
    List.mem_flatMap] at hc
  rcases hc with rfl | ⟨d, -, hc⟩ | rfl
  · decide
  · exact isPlain_escape d c hc
  · decide

end PerpRollout.Json
