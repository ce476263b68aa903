import PerpRollout.Proofs.Record.Resolving

/-!
# Spellings of a name

A name is spelled with any of its letters in upper case and with blanks around it
(`Text.Spells`). Trimming and lower-casing undo exactly this (`Text.spelling_eq_iff`), and it
does not matter how the lower-casing treats characters beyond ASCII: it leaves something
beyond ASCII of each (`Text.IsLowerCase.eq_iff`), with one exception. The lower case of the
Kelvin sign is the letter `k`, so the names that this is about have no `k` (`Text.IsWord`).
-/

namespace PerpRollout.Text

variable {cs core ds : List Char} {c d : Char} {text name : String}

/-! ## Blanks around a text -/

/-- The text is the core with blanks around it. -/
def Padded (cs core : List Char) : Prop :=
  ∃ before after, cs = before ++ core ++ after ∧
    (∀ c ∈ before, isBlank c = true) ∧ ∀ c ∈ after, isBlank c = true

/-- What trimming leaves stands between blanks. -/
theorem padded_trim (cs : List Char) : Padded cs (trim cs) := by
  have hblank {ds : List Char} : ∀ c ∈ ds.takeWhile isBlank, isBlank c = true :=
    fun c hc => List.mem_takeWhile_imp hc
  refine ⟨cs.takeWhile isBlank, ((cs.dropWhile isBlank).reverse.takeWhile isBlank).reverse,
    ?_, hblank, fun c hc => hblank c (List.mem_reverse.mp hc)⟩
  rw [trim, trimBy, List.append_assoc, ← List.reverse_append, List.takeWhile_append_dropWhile,
    List.reverse_reverse, List.takeWhile_append_dropWhile]

/-- Blanks in front are dropped, and no more of a text that starts with none. -/
theorem dropWhile_isBlank_append {before rest : List Char} (h : ∀ c ∈ before, isBlank c = true)
    (hrest : ∀ c ∈ rest.head?, isBlank c = false) :
    (before ++ rest).dropWhile isBlank = rest := by
  rw [List.dropWhile_append_of_pos h]
  cases rest with
  | nil => rfl
  | cons c rest => exact List.dropWhile_cons_of_neg (by simp [hrest c rfl])

theorem Padded.trim_eq (h : Padded cs core) (hcore : ∀ c ∈ core, isBlank c = false) :
    trim cs = core := by
  obtain ⟨before, after, rfl, hbefore, hafter⟩ := h
  have hafter' : ∀ c ∈ after.reverse, isBlank c = true :=
    fun c hc => hafter c (List.mem_reverse.mp hc)
  rw [trim, trimBy, List.append_assoc]
  cases core with
  | nil =>
      -- Nothing but blanks: the first pass takes them all.
      have hall : (before ++ after).dropWhile isBlank = [] := by
        rw [List.dropWhile_append_of_pos hbefore, ← List.append_nil after,
          List.dropWhile_append_of_pos hafter, List.dropWhile_nil]
      rw [List.nil_append, hall]
      rfl
  | cons c core =>
      have hlast : ∀ d ∈ (c :: core).reverse.head?, isBlank d = false :=
        fun d hd => hcore d (List.mem_reverse.mp (List.mem_of_mem_head? hd))
      rw [dropWhile_isBlank_append hbefore (by simpa using hcore c List.mem_cons_self),
        List.reverse_append, dropWhile_isBlank_append hafter' hlast, List.reverse_reverse]

/-! ## Letters in either case -/

/-- A name of lower-case letters other than `k` and of underscores. -/
def IsWord (name : String) : Prop :=
  ∀ d ∈ name.toList, d ∈ Module.alphabet ∧ d ≠ 'k'

instance (name : String) : Decidable (IsWord name) :=
  List.decidableBAll (fun d => d ∈ Module.alphabet ∧ d ≠ 'k') name.toList

theorem IsWord.mem_alphabet (h : IsWord name) : ∀ d ∈ name.toList, d ∈ Module.alphabet :=
  fun d hd => (h d hd).1

/-- Only the letter in either case is read as the letter. -/
theorem cased_of_lowerAscii (hd : d ≠ 'k') (h : lowerAscii c = d) : c = d ∨ c = d.toUpper := by
  have hupper : ∀ n < 91, 65 ≤ n → Char.ofNat n = (Char.ofNat (n + 32)).toUpper := by
    decide
  unfold lowerAscii at h
  split at h
  next hrange =>
    rw [Bool.and_eq_true, decide_eq_true_eq, decide_eq_true_eq] at hrange
    have hbounds : 65 ≤ c.toNat ∧ c.toNat ≤ 90 := ⟨hrange.1, hrange.2⟩
    have hc := hupper c.toNat (by omega) hbounds.1
    rw [Char.ofNat_toNat, h] at hc
    exact .inr hc
  next =>
    split at h
    next => exact absurd h.symm hd
    next => exact .inl h

/-- Every character of a name in any case is one of the name's in either case. -/
theorem exists_mem_of_cased (h : Module.Cased text name) (hc : c ∈ text.toList) :
    ∃ d ∈ name.toList, c = d ∨ c = d.toUpper := by
  unfold Module.Cased at h
  generalize text.toList = cs at h hc
  generalize name.toList = ds at h
  induction h with
  | nil => cases hc
  | cons hhead _ ih =>
      cases hc with
      | head => exact ⟨_, List.mem_cons_self, hhead⟩
      | tail _ hc =>
          obtain ⟨d, hd, hcase⟩ := ih hc
          exact ⟨d, List.mem_cons_of_mem _ hd, hcase⟩

/-! ## Spellings -/

/-- The text is the name with any of its letters in upper case and with blanks around it. -/
def Spells (text name : String) : Prop :=
  ∃ core : String, Padded text.toList core.toList ∧ Module.Cased core name

/-- What remains of a text is the name exactly when the text spells it. -/
theorem spelling_eq_iff (hname : IsWord name) : spelling text = name ↔ Spells text name := by
  constructor
  · intro h
    have hmap : (trim text.toList).map lowerAscii = name.toList := by
      rw [← h, spelling, String.toList_ofList]
    refine ⟨String.ofList (trim text.toList), ?_, ?_⟩
    · rw [String.toList_ofList]
      exact padded_trim _
    · rw [Module.Cased, String.toList_ofList, ← hmap, List.forall₂_map_right_iff,
        List.forall₂_same]
      intro c hc
      have hmem : lowerAscii c ∈ name.toList := hmap ▸ List.mem_map_of_mem hc
      exact cased_of_lowerAscii (hname _ hmem).2 rfl
  · rintro ⟨core, hpadded, hcased⟩
    have hcore : ∀ c ∈ core.toList, isBlank c = false := by
      intro c hc
      obtain ⟨d, hd, hcase⟩ := exists_mem_of_cased hcased hc
      exact (Module.lowerAscii_of_cased (hname.mem_alphabet d hd) hcase).2
    have hsame : spelling text = spelling core := by
      rw [spelling, spelling, hpadded.trim_eq hcore, trim_eq_self hcore]
    rw [hsame, Module.spelling_of_cased hname.mem_alphabet hcased]

/-- A text spells one name at most. -/
theorem Spells.unique {other : String} (hname : IsWord name) (hother : IsWord other)
    (h : Spells text name) (h' : Spells text other) : name = other :=
  ((spelling_eq_iff hname).mpr h).symm.trans ((spelling_eq_iff hother).mpr h')

/-- A text with a visible character that is no letter and no underscore spells no name. -/
theorem not_spells_of_mem (hname : IsWord name) (hc : c ∈ text.toList)
    (hblank : isBlank c = false) (hforeign : ∀ d ∈ Module.alphabet, c ≠ d ∧ c ≠ d.toUpper) :
    ¬Spells text name := by
  rintro ⟨core, ⟨before, after, htext, hbefore, hafter⟩, hcased⟩
  rw [htext, List.mem_append, List.mem_append] at hc
  rcases hc with (hc | hc) | hc
  · exact absurd (hbefore c hc) (by simp [hblank])
  · obtain ⟨d, hd, hcase⟩ := exists_mem_of_cased hcased hc
    obtain ⟨hlower, hupper⟩ := hforeign d (hname.mem_alphabet d hd)
    exact hcase.elim hlower hupper
  · exact absurd (hafter c hc) (by simp [hblank])

/-! ## Lower-casing beyond ASCII -/

/-- The piece of text that a character becomes in lower case. Of an ASCII character and of the
Kelvin sign it is the one character that `lowerAscii` gives; of any other it has a character
beyond ASCII. -/
def LowersTo (c : Char) (piece : List Char) : Prop :=
  if c.toNat < 128 ∨ c.toNat = 0x212A then piece = [lowerAscii c] else ∃ d ∈ piece, 128 ≤ d.toNat

/-- The function puts texts into lower case. It goes character by character; what a character
becomes may depend on the text around it, as that of a final sigma does. -/
def IsLowerCase (lower : List Char → List Char) : Prop :=
  ∀ cs, ∃ pieces, List.Forall₂ LowersTo cs pieces ∧ lower cs = pieces.flatten

theorem lowerAscii_of_beyond (h : ¬(c.toNat < 128 ∨ c.toNat = 0x212A)) : lowerAscii c = c := by
  obtain ⟨hascii, hkelvin⟩ := not_or.mp h
  have hupper : ¬('A' ≤ c && c ≤ 'Z') = true := by
    rw [Bool.and_eq_true, decide_eq_true_eq, decide_eq_true_eq]
    rintro ⟨-, hle⟩
    have hz : c.toNat ≤ 90 := hle
    omega
  rw [lowerAscii, if_neg hupper, if_neg hkelvin]

/-- Character by character `lowerAscii` is such a function. -/
theorem isLowerCase_map : IsLowerCase (List.map lowerAscii) := by
  intro cs
  refine ⟨cs.map fun c => [lowerAscii c], ?_, by rw [← List.flatMap_def, List.map_eq_flatMap]⟩
  rw [List.forall₂_map_right_iff, List.forall₂_same]
  intro c _
  unfold LowersTo
  split
  next => rfl
  next h =>
    rw [lowerAscii_of_beyond h]
    exact ⟨c, List.mem_singleton_self c, by omega⟩

/-- The pieces say what `lowerAscii` says, or both leave something beyond ASCII. -/
theorem flatten_lowersTo {pieces : List (List Char)} (h : List.Forall₂ LowersTo cs pieces) :
    pieces.flatten = cs.map lowerAscii ∨
      (∃ d ∈ pieces.flatten, 128 ≤ d.toNat) ∧ ∃ d ∈ cs.map lowerAscii, 128 ≤ d.toNat := by
  induction h with
  | nil => exact .inl rfl
  | @cons c piece cs pieces hpiece _ ih =>
      simp only [List.flatten_cons, List.map_cons]
      unfold LowersTo at hpiece
      split at hpiece
      next =>
        subst hpiece
        rcases ih with heq | ⟨⟨d, hd, hbeyond⟩, e, he, hbeyond'⟩
        · exact .inl (by rw [heq, List.singleton_append])
        · exact .inr ⟨⟨d, List.mem_append_right _ hd, hbeyond⟩,
            e, List.mem_cons_of_mem _ he, hbeyond'⟩
      next hc =>
        obtain ⟨d, hd, hbeyond⟩ := hpiece
        rw [lowerAscii_of_beyond hc]
        exact .inr ⟨⟨d, List.mem_append_left _ hd, hbeyond⟩,
          c, List.mem_cons_self, Nat.le_of_not_lt (not_or.mp hc).1⟩

/-- A name compares alike with a text in lower case, however characters beyond ASCII are
treated. -/
theorem IsLowerCase.eq_iff {lower : List Char → List Char} (h : IsLowerCase lower)
    (hname : IsWord name) :
    String.ofList (lower cs) = name ↔ String.ofList (cs.map lowerAscii) = name := by
  have halphabet : Module.alphabet.all (fun d => ¬128 ≤ d.toNat) = true := by decide
  have hascii : ∀ d ∈ name.toList, ¬128 ≤ d.toNat := fun d hd =>
    of_decide_eq_true (List.all_eq_true.mp halphabet d (hname.mem_alphabet d hd))
  have hne {ds : List Char} (hds : ∃ d ∈ ds, 128 ≤ d.toNat) : String.ofList ds ≠ name := by
    rintro rfl
    obtain ⟨d, hd, hbeyond⟩ := hds
    exact hascii d (by rwa [String.toList_ofList]) hbeyond
  obtain ⟨pieces, hpieces, hlower⟩ := h cs
  rw [hlower]
  rcases flatten_lowersTo hpieces with heq | ⟨hleft, hright⟩
  · rw [heq]
  · exact iff_of_false (hne hleft) (hne hright)

end PerpRollout.Text
