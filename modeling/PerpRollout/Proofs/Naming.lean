import PerpRollout.Proofs.Naming.Spelling
import PerpRollout.Proofs.Numeral

/-!
# Modules and steps by their names

A value names a module or a step through its plain form, which for a value that is no text is
what a message shows. Such a form never spells a name: it is one of a few constants, or it has
a digit, a sign, a point or a bracket (`Json.marked_or_constant`). So exactly the texts that
spell a name of a table are read, whichever table it is (`NameTable.reads`), and the tables of
the modules and of the steps are such tables (`parse_reads`).
-/

namespace PerpRollout

/-! ## Values that are no texts -/

/-- Characters that no name and no spelling of a name has. -/
def marks : List Char :=
  "0123456789.+-[\x7b".toList

theorem not_spells_of_mark {text name : String} {c : Char} (hname : Text.IsWord name)
    (hc : c ∈ text.toList) (hmark : c ∈ marks) : ¬Text.Spells text name := by
  have hforeign : (marks.all fun c => !Text.isBlank c &&
      Module.alphabet.all fun d => c ≠ d ∧ c ≠ d.toUpper) = true := by
    decide
  simp only [List.all_eq_true, Bool.and_eq_true, Bool.not_eq_true', decide_eq_true_eq] at hforeign
  obtain ⟨hblank, hletters⟩ := hforeign c hmark
  exact Text.not_spells_of_mem hname hc hblank hletters

/-- A numeral has a digit. -/
theorem Numeral.exists_mark_ofInt (n : Int) : ∃ c ∈ (ofInt n).toList, c ∈ marks := by
  have hdigit : ∀ k < 10, Nat.digitChar k ∈ marks := by decide
  have hnat (k : Nat) : ∃ c ∈ (ofNat k).toList, c ∈ marks := by
    rw [ofNat, String.toList_ofList]
    obtain ⟨c, hc⟩ := List.exists_mem_of_ne_nil (Nat.toDigits 10 k) Nat.toDigits_ne_nil
    exact ⟨c, hc, forall_isDigit hdigit (isDigit_of_mem_toDigits hc)⟩
  cases n with
  | ofNat k => exact hnat k
  | negSucc k =>
      obtain ⟨c, hc, hmark⟩ := hnat (k + 1)
      refine ⟨c, ?_, hmark⟩
      rw [ofInt, String.toList_append]
      exact List.mem_append_right _ hc

/-- A number is laid out with a point or with a signed exponent. -/
theorem Binary64.exists_mark_layOut (digits : List Char) (point : Int) :
    ∃ c ∈ layOut digits point, c ∈ marks := by
  unfold layOut
  dsimp only
  split
  next =>
    refine ⟨'.', ?_, by decide⟩
    split
    next => simp
    next => split <;> simp
  next =>
    refine ⟨if point - 1 < 0 then '-' else '+', by simp, ?_⟩
    split <;> decide

namespace Json

/-- What messages show for the values that are shown without any mark. -/
def constants : List String := ["None", "True", "False", "nan", "inf"]

theorem marked_or_constant_float (x : Binary64) :
    (∃ c ∈ (x.text displayNames).toList, c ∈ marks) ∨ x.text displayNames ∈ constants := by
  cases x with
  | nan => exact .inr (by decide)
  | infinite negative =>
      cases negative with
      | false => exact .inr (by decide)
      | true => exact .inl ⟨'-', by decide, by decide⟩
  | finite negative m q =>
      refine .inl ?_
      simp only [Binary64.text, String.toList_append, String.toList_ofList]
      suffices h : ∀ body : List Char, (∃ c ∈ body, c ∈ marks) →
          ∃ c ∈ (if negative then "-" else "").toList ++ body, c ∈ marks by
        apply h
        split
        next => exact ⟨'.', by decide, by decide⟩
        next => exact Binary64.exists_mark_layOut _ _
      rintro body ⟨c, hc, hmark⟩
      exact ⟨c, List.mem_append_right _ hc, hmark⟩

/-- What is shown of a value that is no text has a mark, or is a constant. -/
theorem marked_or_constant {v : Json} (h : ∀ s, v ≠ .str s) :
    (∃ c ∈ v.plain.toList, c ∈ marks) ∨ v.plain ∈ constants := by
  cases v with
  | null => exact .inr (by decide)
  | bool b => cases b <;> exact .inr (by decide)
  | int n => exact .inl (Numeral.exists_mark_ofInt n)
  | float x => exact marked_or_constant_float x
  | str s => exact absurd rfl (h s)
  | arr items => exact .inl ⟨'[', by simp [plain, display], by decide⟩
  | obj members => exact .inl ⟨'\x7b', by simp [plain, display], by decide⟩

end Json

/-! ## Tables of names -/

section Table

variable {α : Type} {parse : Json → Except Failure α} {items : List α} {names : α → List String}
  {refusal : Json → Failure}

/-- The items have names that tell them apart, none of them what a constant is shown as. -/
structure NameTable (items : List α) (names : α → List String) : Prop where
  complete : ∀ a, a ∈ items
  isWord : ∀ a, ∀ name ∈ names a, Text.IsWord name
  disjoint : ∀ a b, ∀ name ∈ names a, name ∈ names b → a = b
  constants : ∀ a, ∀ name ∈ names a, ∀ text ∈ Json.constants, Text.spelling text ≠ name

/-- How values are read by a table of names. -/
structure ReadsNames (parse : Json → Except Failure α) (names : α → List String)
    (refusal : Json → Failure) : Prop where
  /-- Exactly the texts that spell one of its names are read as an item. -/
  accepts : ∀ v a, parse v = .ok a ↔ ∃ text, v = .str text ∧ ∃ name ∈ names a, Text.Spells text name
  /-- These are the texts that are a name once they are trimmed and put into lower case. -/
  lowered : ∀ lower, Text.IsLowerCase lower → ∀ text a,
    parse (.str text) = .ok a ↔ String.ofList (lower (Text.trim text.toList)) ∈ names a
  /-- No text spells names of two items. -/
  unique : ∀ text a b, ∀ name ∈ names a, ∀ other ∈ names b,
    Text.Spells text name → Text.Spells text other → a = b
  /-- Every other value is refused, with a message that shows it if it can be shown. -/
  refuses : ∀ v, (∀ a, parse v ≠ .ok a) →
    parse v = .error (if v.isWritable then refusal v else .integerTooLong)

theorem NameTable.find?_eq_some_iff (h : NameTable items names) {key : String}
    {a : α} : items.find? (fun b => key ∈ names b) = some a ↔ key ∈ names a := by
  constructor
  · intro hfind
    simpa using List.find?_some hfind
  · intro hkey
    have hsome : (items.find? fun b => key ∈ names b).isSome = true :=
      List.find?_isSome.mpr ⟨a, h.complete a, decide_eq_true hkey⟩
    obtain ⟨b, hb⟩ := Option.isSome_iff_exists.mp hsome
    have hother : key ∈ names b := by simpa using List.find?_some hb
    rw [hb, h.disjoint b a key hother hkey]

/-- What is shown of a value that is no text spells no name. -/
theorem NameTable.spelling_notMem (h : NameTable items names) {v : Json}
    (hv : ∀ text, v ≠ .str text) (a : α) : Text.spelling v.plain ∉ names a := by
  intro hmem
  rcases Json.marked_or_constant hv with ⟨c, hc, hmark⟩ | hconstant
  · have hword := h.isWord a _ hmem
    exact not_spells_of_mark hword hc hmark ((Text.spelling_eq_iff hword).mp rfl)
  · exact h.constants a _ hmem _ hconstant rfl

theorem NameTable.spelling_mem_iff (h : NameTable items names) {text : String} {a : α} :
    Text.spelling text ∈ names a ↔ ∃ name ∈ names a, Text.Spells text name := by
  constructor
  · exact fun hmem => ⟨_, hmem, (Text.spelling_eq_iff (h.isWord a _ hmem)).mp rfl⟩
  · rintro ⟨name, hname, hspells⟩
    rwa [(Text.spelling_eq_iff (h.isWord a name hname)).mpr hspells]

theorem NameTable.lower_mem_iff (h : NameTable items names) {lower : List Char → List Char}
    (hlower : Text.IsLowerCase lower) {cs : List Char} {a : α} :
    String.ofList (cs.map Text.lowerAscii) ∈ names a ↔ String.ofList (lower cs) ∈ names a := by
  constructor
  · intro hmem
    rwa [(hlower.eq_iff (h.isWord a _ hmem)).mpr rfl]
  · intro hmem
    rwa [(hlower.eq_iff (h.isWord a _ hmem)).mp rfl]

/-- A reader that looks the spelling of a value up in such a table. -/
theorem NameTable.reads (h : NameTable items names)
    (hparse : ∀ v, parse v = match items.find? fun a => Text.spelling v.plain ∈ names a with
      | some a => .ok a
      | none => .error (.about v refusal)) : ReadsNames parse names refusal := by
  have hok (v : Json) (a : α) : parse v = .ok a ↔ Text.spelling v.plain ∈ names a := by
    rw [hparse, ← h.find?_eq_some_iff]
    split <;> simp [*]
  refine ⟨?_, ?_, ?_, ?_⟩
  · intro v a
    rw [hok]
    constructor
    · intro hmem
      cases v with
      | str text => exact ⟨text, rfl, h.spelling_mem_iff.mp hmem⟩
      | _ => exact absurd hmem (h.spelling_notMem (by simp) a)
    · rintro ⟨text, rfl, hname⟩
      exact h.spelling_mem_iff.mpr hname
  · intro lower hlower text a
    rw [hok]
    exact h.lower_mem_iff hlower
  · intro text a b name hname other hother hspells hspells'
    have heq := hspells.unique (h.isWord a name hname) (h.isWord b other hother) hspells'
    exact h.disjoint a b name hname (heq ▸ hother)
  · intro v hno
    have hnone : items.find? (fun a => Text.spelling v.plain ∈ names a) = none := by
      rw [List.find?_eq_none]
      intro a _
      simpa [hok] using hno a
    rw [hparse, hnone]
    rfl

end Table

theorem Module.nameTable : NameTable all fun m => [m.name, m.field] where
  complete := mem_all
  isWord m := by cases m <;> decide
  disjoint m n := by cases m <;> cases n <;> decide
  constants m := by cases m <;> decide

theorem Step.nameTable : NameTable order fun s => [s.name] where
  complete := mem_order
  isWord s := by cases s <;> decide
  disjoint s t := by cases s <;> cases t <;> decide
  constants s := by cases s <;> decide

/-- Modules are read by their names and the names of their fields, steps by their names. Of all
values exactly the texts that spell such a name are read, as the one item that it names; all
others are refused. -/
theorem parse_reads :
    ReadsNames Module.parse (fun m => [m.name, m.field]) .unknownModule ∧
      ReadsNames Step.parse (fun s => [s.name]) .unknownStep := by
  constructor
  · refine Module.nameTable.reads fun v => ?_
    have hkeys : Module.ofSpelling? v.plain =
        Module.all.find? fun m => Text.spelling v.plain ∈ [m.name, m.field] := by
      simp [Module.ofSpelling?]
    rw [← hkeys, Module.parse]
    cases Module.ofSpelling? v.plain <;> rfl
  · refine Step.nameTable.reads fun v => ?_
    have hkeys : Step.ofSpelling? v.plain =
        Step.order.find? fun s => Text.spelling v.plain ∈ [s.name] := by
      simp [Step.ofSpelling?]
    rw [← hkeys, Step.parse]
    cases Step.ofSpelling? v.plain <;> rfl

/-- The field of a module between two rare blanks, a step in upper case, and a list that holds
nothing but the name of a step. -/
theorem parse_reads_padded :
    Module.parse (.str "\u2003Oracle_HUB_contract\u001c") = .ok .oracleHub ∧
    Step.parse (.str " VAMM\n") = .ok .vamm ∧
    Step.parse (.arr [.str "vamm"]) = .error (.unknownStep (.arr [.str "vamm"])) := by
  obtain ⟨hmodule, hstep⟩ := parse_reads
  refine ⟨?_, ?_, ?_⟩
  · refine (hmodule.accepts _ _).mpr ⟨_, rfl, "oracle_hub_contract", by decide,
      "Oracle_HUB_contract", ⟨['\u2003'], ['\u001c'], by decide, ?_, ?_⟩, by decide⟩
    · exact List.forall_mem_singleton.mpr (by decide)
    · exact List.forall_mem_singleton.mpr (by decide)
  · exact (hstep.lowered _ Text.isLowerCase_map _ _).mpr (by decide)
  · refine hstep.refuses _ fun s hs => ?_
    obtain ⟨text, htext, -⟩ := (hstep.accepts _ s).mp hs
    cases htext

end PerpRollout
