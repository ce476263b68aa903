import Mathlib.Data.List.TakeWhile
import PerpRollout.Proofs.Json.Number
import PerpRollout.Proofs.Json.Spelling

/-!
# The text of a value

`Json.chars` is the text of a value at a depth, with one equation for each way to
build a value. In a value without floats whose keys are distinct and whose
integers are within the limit (`Json.Readable`) every character is printable
ASCII or a blank of the layout, and all of it can be written.
-/

namespace PerpRollout.Json

/-! ## The characters of a value -/

/-- The characters of a value that stands at a depth. -/
def chars (l : Layout) (depth : Nat) (v : Json) : List Char :=
  (pieces l depth v).flatMap Piece.chars

/-- The characters of items with the commas between them. -/
def itemChars (l : Layout) (depth : Nat) : List Json → List Char
  | [] => []
  | v :: rest => chars l depth v ++ (itemPieces l depth rest).flatMap Piece.chars

/-- The characters of members with the commas between them. -/
def memberChars (l : Layout) (depth : Nat) : List (String × Json) → List Char
  | [] => []
  | (k, v) :: rest => stringText k ++ (':' :: ' ' :: (chars l depth v ++
      (memberPieces l depth rest).flatMap Piece.chars))

section Equations

variable (l : Layout) (depth : Nat)

theorem chars_int (n : Int) : chars l depth (.int n) = (Numeral.ofInt n).toList := by
  simp [chars, pieces, Piece.chars]

theorem chars_str (s : String) : chars l depth (.str s) = stringText s := by
  simp [chars, pieces, Piece.chars]

theorem chars_arr_cons (v : Json) (items : List Json) :
    chars l depth (.arr (v :: items)) =
      '[' :: (l.margin (depth + 1) ++ (itemChars l (depth + 1) (v :: items) ++
        (l.margin depth ++ [']']))) := by
  simp [chars, itemChars, pieces, Piece.chars]

theorem chars_obj_cons (m : String × Json) (members : List (String × Json)) :
    chars l depth (.obj (m :: members)) =
      '\x7b' :: (l.margin (depth + 1) ++ (memberChars l (depth + 1) (m :: members) ++
        (l.margin depth ++ ['\x7d']))) := by
  simp [chars, memberChars, pieces, Piece.chars]

theorem itemChars_singleton (v : Json) : itemChars l depth [v] = chars l depth v := by
  simp [itemChars, itemPieces]

theorem itemChars_cons_cons (v w : Json) (items : List Json) :
    itemChars l depth (v :: w :: items) =
      chars l depth v ++ (',' :: (l.afterComma ++ (l.margin depth ++
        itemChars l depth (w :: items)))) := by
  simp [chars, itemChars, itemPieces, Piece.chars]

theorem memberChars_singleton (k : String) (v : Json) :
    memberChars l depth [(k, v)] = stringText k ++ (':' :: ' ' :: chars l depth v) := by
  simp [memberChars, memberPieces]

theorem memberChars_cons_cons (k : String) (v : Json) (m : String × Json)
    (members : List (String × Json)) :
    memberChars l depth ((k, v) :: m :: members) =
      stringText k ++ (':' :: ' ' :: (chars l depth v ++ (',' :: (l.afterComma ++
        (l.margin depth ++ memberChars l depth (m :: members)))))) := by
  simp [chars, memberChars, memberPieces, Piece.chars]

end Equations

/-! ## Values that are read back -/

mutual
/-- No float, no integer too long to be written, and distinct keys, in the value
and in every value in it. -/
def Readable : Json → Prop
  | .float _ => False
  | .int n => Numeral.isWritable n = true
  | .arr items => readableItems items
  | .obj members => (keys members).Nodup ∧ readableMembers members
  | _ => True
/-- `Readable` for each item. -/
def readableItems : List Json → Prop
  | [] => True
  | v :: rest => Readable v ∧ readableItems rest
/-- `Readable` for the value of each member. -/
def readableMembers : List (String × Json) → Prop
  | [] => True
  | (_, v) :: rest => Readable v ∧ readableMembers rest
end

theorem readableItems_iff {items : List Json} :
    readableItems items ↔ ∀ v ∈ items, Readable v := by
  induction items with
  | nil => simp [readableItems]
  | cons v items ih => simp [readableItems, ih]

theorem readableMembers_iff {members : List (String × Json)} :
    readableMembers members ↔ ∀ m ∈ members, Readable m.2 := by
  induction members with
  | nil => simp [readableMembers]
  | cons m members ih =>
      obtain ⟨k, v⟩ := m
      simp [readableMembers, ih]

/-! ## What stands in a text -/

theorem isGap_eq_false_of_isAsciiDigit {c : Char} (h : Text.isAsciiDigit c = true) :
    isGap c = false := by
  have hne (d : Char) (hd : Text.isAsciiDigit d = false) := ne_of_isAsciiDigit h hd
  simp [isGap, hne ' ' (by decide), hne '\t' (by decide), hne '\n' (by decide),
    hne '\r' (by decide)]

/-- A value starts with a character that is no blank, closes no list and is no
byte order mark. -/
theorem exists_chars_eq_cons (l : Layout) (depth : Nat) {v : Json} (hv : Readable v) :
    ∃ c cs, chars l depth v = c :: cs ∧ isGap c = false ∧ c ≠ ']' ∧ c ≠ '\uFEFF' := by
  cases v with
  | null => exact ⟨'n', _, rfl, by decide⟩
  | bool b => cases b with
      | false => exact ⟨'f', _, rfl, by decide⟩
      | true => exact ⟨'t', _, rfl, by decide⟩
  | int n =>
      rw [chars_int]
      cases n with
      | ofNat n =>
          obtain ⟨d, ds, hds, hdigit⟩ := exists_toDigits_eq_cons n
          refine ⟨d, ds, ?_, isGap_eq_false_of_isAsciiDigit hdigit,
            ne_of_isAsciiDigit hdigit (by decide), ne_of_isAsciiDigit hdigit (by decide)⟩
          exact (toList_ofInt_ofNat n).trans hds
      | negSucc n => exact ⟨'-', _, toList_ofInt_negSucc n, by decide⟩
  | float x => exact hv.elim
  | str s =>
      rw [chars_str]
      exact ⟨'"', _, rfl, by decide⟩
  | arr items => cases items with
      | nil => exact ⟨'[', _, rfl, by decide⟩
      | cons v items =>
          rw [chars_arr_cons]
          exact ⟨'[', _, rfl, by decide⟩
  | obj members => cases members with
      | nil => exact ⟨'\x7b', _, rfl, by decide⟩
      | cons m members =>
          rw [chars_obj_cons]
          exact ⟨'\x7b', _, rfl, by decide⟩

theorem isPlain_of_isAsciiDigit {c : Char} (h : Text.isAsciiDigit c = true) :
    isPlain c = true := by
  simp only [Text.isAsciiDigit, Bool.and_eq_true, decide_eq_true_eq] at h
  simp only [isPlain, Bool.and_eq_true, decide_eq_true_eq]
  omega

theorem isPlain_ofInt (n : Int) : ∀ c ∈ (Numeral.ofInt n).toList, isPlain c = true := by
  have hdigits (m : Nat) : ∀ c ∈ Nat.toDigits 10 m, isPlain c = true := fun c hc =>
    isPlain_of_isAsciiDigit (isAsciiDigit_of_mem_toDigits hc)
  cases n with
  | ofNat n =>
      change ∀ c ∈ (Numeral.ofInt (n : Int)).toList, isPlain c = true
      rw [toList_ofInt_ofNat]
      exact hdigits n
  | negSucc n =>
      rw [toList_ofInt_negSucc]
      exact List.forall_mem_cons.mpr ⟨by decide, hdigits (n + 1)⟩

variable {l : Layout}

/-- A printable ASCII character, or one that the layout puts between the parts of a
text. -/
def Layout.Prints (l : Layout) (c : Char) : Prop :=
  isPlain c = true ∨ c ∈ l.afterComma ∨ ∃ depth, c ∈ l.margin depth

theorem Layout.prints_of_isPlain (cs : List Char) (h : ∀ c ∈ cs, isPlain c = true) :
    ∀ c ∈ cs, l.Prints c :=
  fun c hc => .inl (h c hc)

theorem Layout.prints_of_all (cs : List Char) (h : cs.all isPlain = true) :
    ∀ c ∈ cs, l.Prints c :=
  prints_of_isPlain cs (List.all_eq_true.mp h)

theorem Layout.prints_margin (depth : Nat) : ∀ c ∈ l.margin depth, l.Prints c :=
  fun _ hc => .inr (.inr ⟨depth, hc⟩)

theorem Layout.prints_afterComma : ∀ c ∈ l.afterComma, l.Prints c :=
  fun _ hc => .inr (.inl hc)

mutual
/-- Besides what the layout puts, the text of a value is printable ASCII. -/
theorem prints_chars {v : Json} (hv : Readable v) {depth : Nat} :
    ∀ c ∈ chars l depth v, l.Prints c := by
  match v, hv with
  | .null, _ => exact Layout.prints_of_all ['n', 'u', 'l', 'l'] rfl
  | .bool true, _ => exact Layout.prints_of_all ['t', 'r', 'u', 'e'] rfl
  | .bool false, _ => exact Layout.prints_of_all ['f', 'a', 'l', 's', 'e'] rfl
  | .int n, _ =>
      rw [chars_int]
      exact Layout.prints_of_isPlain _ (isPlain_ofInt n)
  | .str s, _ =>
      rw [chars_str]
      exact Layout.prints_of_isPlain _ (isPlain_stringText s)
  | .arr [], _ => exact Layout.prints_of_all ['[', ']'] rfl
  | .arr (v :: items), hitems =>
      rw [chars_arr_cons]
      simp only [List.forall_mem_cons, List.forall_mem_append]
      exact ⟨.inl (by decide), Layout.prints_margin _, prints_itemChars hitems,
        Layout.prints_margin _, .inl (by decide), by simp⟩
  | .obj [], _ => exact Layout.prints_of_all ['\x7b', '\x7d'] rfl
  | .obj (m :: members), hmembers =>
      rw [chars_obj_cons]
      simp only [List.forall_mem_cons, List.forall_mem_append]
      exact ⟨.inl (by decide), Layout.prints_margin _, prints_memberChars hmembers.2,
        Layout.prints_margin _, .inl (by decide), by simp⟩
theorem prints_itemChars {items : List Json} (hitems : readableItems items) {depth : Nat} :
    ∀ c ∈ itemChars l depth items, l.Prints c := by
  match items, hitems with
  | [], _ => simp [itemChars]
  | [v], hitems =>
      rw [itemChars_singleton]
      exact prints_chars hitems.1
  | v :: w :: items, hitems =>
      rw [itemChars_cons_cons]
      simp only [List.forall_mem_cons, List.forall_mem_append]
      exact ⟨prints_chars hitems.1, .inl (by decide), Layout.prints_afterComma,
        Layout.prints_margin _, prints_itemChars hitems.2⟩
theorem prints_memberChars {members : List (String × Json)} (hmembers : readableMembers members)
    {depth : Nat} : ∀ c ∈ memberChars l depth members, l.Prints c := by
  match members, hmembers with
  | [], _ => simp [memberChars]
  | [(k, v)], hmembers =>
      rw [memberChars_singleton]
      simp only [List.forall_mem_cons, List.forall_mem_append]
      exact ⟨Layout.prints_of_isPlain _ (isPlain_stringText k), .inl (by decide), .inl (by decide),
        prints_chars hmembers.1⟩
  | (k, v) :: m :: members, hmembers =>
      rw [memberChars_cons_cons]
      simp only [List.forall_mem_cons, List.forall_mem_append]
      exact ⟨Layout.prints_of_isPlain _ (isPlain_stringText k), .inl (by decide), .inl (by decide),
        prints_chars hmembers.1, .inl (by decide), Layout.prints_afterComma,
        Layout.prints_margin _, prints_memberChars hmembers.2⟩
end

/-! ## Writing to the end -/

mutual
/-- A value can be written to its end exactly when its integers can. -/
theorem all_isWritable_pieces (l : Layout) (depth : Nat) :
    (v : Json) → (pieces l depth v).all Piece.isWritable = v.isWritable
  | .null => rfl
  | .bool _ => rfl
  | .int n => by simp [pieces, Piece.isWritable, isWritable]
  | .float _ => rfl
  | .str _ => rfl
  | .arr [] => rfl
  | .arr (v :: rest) => by
      simp [pieces, Piece.isWritable, isWritable, itemsWritable,
        all_isWritable_pieces l (depth + 1) v, all_isWritable_itemPieces l (depth + 1) rest]
  | .obj [] => rfl
  | .obj ((k, v) :: rest) => by
      simp [pieces, Piece.isWritable, isWritable, membersWritable,
        all_isWritable_pieces l (depth + 1) v, all_isWritable_memberPieces l (depth + 1) rest]
theorem all_isWritable_itemPieces (l : Layout) (depth : Nat) :
    (items : List Json) → (itemPieces l depth items).all Piece.isWritable = itemsWritable items
  | [] => rfl
  | v :: rest => by
      simp [itemPieces, Piece.isWritable, itemsWritable, all_isWritable_pieces l depth v,
        all_isWritable_itemPieces l depth rest]
theorem all_isWritable_memberPieces (l : Layout) (depth : Nat) :
    (members : List (String × Json)) →
      (memberPieces l depth members).all Piece.isWritable = membersWritable members
  | [] => rfl
  | (k, v) :: rest => by
      simp [memberPieces, Piece.isWritable, membersWritable, all_isWritable_pieces l depth v,
        all_isWritable_memberPieces l depth rest]
end

mutual
theorem isWritable_of_readable : {v : Json} → Readable v → v.isWritable = true
  | .null, _ => rfl
  | .bool _, _ => rfl
  | .int _, h => h
  | .str _, _ => rfl
  | .arr _, h => itemsWritable_of_readable h
  | .obj _, h => membersWritable_of_readable h.2
theorem itemsWritable_of_readable : {items : List Json} → readableItems items →
    itemsWritable items = true
  | [], _ => rfl
  | v :: rest, h => by
      simp [itemsWritable, isWritable_of_readable h.1, itemsWritable_of_readable h.2]
theorem membersWritable_of_readable : {members : List (String × Json)} →
    readableMembers members → membersWritable members = true
  | [], _ => rfl
  | (k, v) :: rest, h => by
      simp [membersWritable, isWritable_of_readable h.1, membersWritable_of_readable h.2]
end

theorem render_of_isWritable (l : Layout) {v : Json} (h : v.isWritable = true) :
    render l v = (String.ofList (chars l 0 v), true) := by
  have hall := all_isWritable_pieces l 0 v
  rw [h] at hall
  have htake : (pieces l 0 v).takeWhile Piece.isWritable = pieces l 0 v := by
    rw [List.takeWhile_eq_self_iff]
    exact List.all_eq_true.mp hall
  simp [render, write, chars, hall, htake]

end PerpRollout.Json
