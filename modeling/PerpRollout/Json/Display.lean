import PerpRollout.Json.Basic
import PerpRollout.Text.Quoted

/-!
# Values inside messages

How a message shows a JSON value: texts quoted, lists in brackets, objects in
braces, and the constants as `None`, `True` and `False`.
-/

namespace PerpRollout.Json

/-- The names of the numbers without a finite value, inside a message. -/
def displayNames : Binary64.Names := ⟨"nan", "inf"⟩

mutual
/-- The value as a message shows it. -/
def display : Json → String
  | .null => "None"
  | .bool b => if b then "True" else "False"
  | .int n => Numeral.ofInt n
  | .float x => x.text displayNames
  | .str s => Text.quoted s
  | .arr items => "[" ++ ", ".intercalate (displayItems items) ++ "]"
  | .obj members => "\x7b" ++ ", ".intercalate (displayMembers members) ++ "\x7d"
def displayItems : List Json → List String
  | [] => []
  | v :: rest => display v :: displayItems rest
def displayMembers : List (String × Json) → List String
  | [] => []
  | (k, v) :: rest => (Text.quoted k ++ ": " ++ display v) :: displayMembers rest
end

/-- The value as plain text: a text is itself, any other value as displayed. -/
def plain : Json → String
  | .str s => s
  | v => display v

end PerpRollout.Json
