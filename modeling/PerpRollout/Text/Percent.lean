import PerpRollout.Text.Digit

/-!
# Percent encoding

Inside a URL a character that is not safe stands as the bytes of its UTF-8 form,
each as `%` and two hexadecimal digits.
-/

namespace PerpRollout.Text

/-- The characters that are safe in every part of a URL. -/
def isUnreserved (c : Char) : Bool :=
  c.isAlphanum || c = '-' || c = '.' || c = '_' || c = '~'

/-- A byte as `%` and two hexadecimal digits in upper case. -/
def percentByte (b : UInt8) : List Char :=
  '%' :: (hexDigits 2 b.toNat).map Char.toUpper

/-- The text with all characters encoded that are neither unreserved nor in `safe`. -/
def percentEncode (safe : List Char) (s : String) : String :=
  String.ofList (s.toList.flatMap fun c =>
    if isUnreserved c || safe.contains c then [c]
    else (String.singleton c).toUTF8.toList.flatMap percentByte)

/-- The bytes that a text stands for. -/
def percentBytes : List Char → List UInt8
  | [] => []
  | '%' :: h :: l :: rest =>
    match hexValue? h, hexValue? l with
    | some high, some low => (high * 16 + low).toUInt8 :: percentBytes rest
    | _, _ => 0x25 :: percentBytes (h :: l :: rest)
  | c :: rest => (String.singleton c).toUTF8.toList ++ percentBytes rest

/-- The text that an encoded text stands for.  When its bytes are not UTF-8 the
text is left as it is. -/
def percentDecode (s : String) : String :=
  (String.fromUTF8? (ByteArray.mk (percentBytes s.toList).toArray)).getD s

end PerpRollout.Text
