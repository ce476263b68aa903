import PerpRollout.Binary64

/-!
# JSON values

A JSON value keeps what the text it came from says: the order of the members of
an object, and whether a number was written as an integer or as a float.  The
keys of an object are distinct in every value that reading or overlaying gives;
that is a property of those functions (`Json.DistinctKeys`), not of the type.
-/

namespace PerpRollout

inductive Json where
  | null
  | bool (b : Bool)
  | int (n : Int)
  | float (x : Binary64)
  | str (s : String)
  | arr (items : List Json)
  | obj (members : List (String × Json))
  deriving Repr, Inhabited

namespace Json

inductive Kind where
  | null | bool | int | float | str | arr | obj
  deriving DecidableEq, Repr

def kind : Json → Kind
  | .null => .null
  | .bool _ => .bool
  | .int _ => .int
  | .float _ => .float
  | .str _ => .str
  | .arr _ => .arr
  | .obj _ => .obj

/-- What a message calls a kind of values. -/
def Kind.name : Kind → String
  | .null => "NoneType"
  | .bool => "bool"
  | .int => "int"
  | .float => "float"
  | .str => "str"
  | .arr => "list"
  | .obj => "dict"

def isText (s : String) : Json → Bool
  | .str t => t = s
  | _ => false

/-- The member of that name. -/
def member? (name : String) (members : List (String × Json)) : Option Json :=
  members.lookup name

/-- The member of that name, if the value is an object that has one. -/
def get? (name : String) : Json → Option Json
  | .obj members => member? name members
  | _ => none

def keys (members : List (String × Json)) : List String :=
  members.map Prod.fst

/-- Gives a key a value: in its old place when the key is there, else at the end. -/
def setMember (name : String) (value : Json) : List (String × Json) → List (String × Json)
  | [] => [(name, value)]
  | (k, v) :: rest => if k = name then (k, value) :: rest else (k, v) :: setMember name value rest

/-- A key that is there keeps its place, a new one comes last. -/
theorem keys_setMember (name : String) (value : Json) (members : List (String × Json)) :
    keys (setMember name value members) =
      if name ∈ keys members then keys members else keys members ++ [name] := by
  induction members with
  | nil => rfl
  | cons m rest ih =>
    obtain ⟨k, v⟩ := m
    unfold keys at ih ⊢
    by_cases h : k = name
    · simp [setMember, h]
    · have h' : name ≠ k := fun e => h e.symm
      simp only [setMember, if_neg h, List.map_cons, List.mem_cons, h', false_or, ih]
      split <;> rfl

theorem member?_setMember_self (name : String) (value : Json) (members : List (String × Json)) :
    member? name (setMember name value members) = some value := by
  induction members with
  | nil => simp [setMember, member?]
  | cons m rest ih =>
    obtain ⟨k, v⟩ := m
    unfold member? at ih ⊢
    by_cases h : k = name
    · simp [setMember, h]
    · have h' : (name == k) = false := by simpa using fun e => h e.symm
      simp [setMember, h, List.lookup_cons, h', ih]

theorem member?_setMember_of_ne {name other : String} (h : other ≠ name) (value : Json)
    (members : List (String × Json)) :
    member? other (setMember name value members) = member? other members := by
  have h' : (other == name) = false := by simpa using h
  induction members with
  | nil => simp [setMember, member?, List.lookup_cons, h']
  | cons m rest ih =>
    obtain ⟨k, v⟩ := m
    unfold member? at ih ⊢
    by_cases hk : k = name
    · subst hk
      simp [setMember, List.lookup_cons, h']
    · simp only [setMember, if_neg hk, List.lookup_cons]
      split
      · rfl
      · exact ih

/-- The object that a sequence of members spells out.  Of a repeated key the
last value counts, in the place of the first. -/
def ofMembers (members : List (String × Json)) : Json :=
  .obj (members.foldl (fun acc (k, v) => setMember k v acc) [])

/-- The one member that holds a text, or none when there is no text. -/
def ofOptional (name : String) : Option String → List (String × Json)
  | none => []
  | some s => [(name, .str s)]

/-- Whether a condition on the value counts as met: null, false, zero and
whatever is empty do not. -/
def holds : Json → Bool
  | .null => false
  | .bool b => b
  | .int n => n != 0
  | .float (.finite _ m _) => m != 0
  | .float _ => true
  | .str s => !s.isEmpty
  | .arr items => !items.isEmpty
  | .obj members => !members.isEmpty

mutual
/-- All keys of an object are distinct, in this value and in every value in it. -/
def DistinctKeys : Json → Prop
  | .arr items => distinctKeysItems items
  | .obj members => (keys members).Nodup ∧ distinctKeysMembers members
  | _ => True
/-- `DistinctKeys` of each item. -/
def distinctKeysItems : List Json → Prop
  | [] => True
  | v :: rest => DistinctKeys v ∧ distinctKeysItems rest
/-- `DistinctKeys` of the value of each member. -/
def distinctKeysMembers : List (String × Json) → Prop
  | [] => True
  | (_, v) :: rest => DistinctKeys v ∧ distinctKeysMembers rest
end

mutual
/-- No integer in the value is too long to be written. -/
def isWritable : Json → Bool
  | .int n => Numeral.isWritable n
  | .arr items => itemsWritable items
  | .obj members => membersWritable members
  | _ => true
/-- No integer in the items is too long to be written. -/
def itemsWritable : List Json → Bool
  | [] => true
  | v :: rest => isWritable v && itemsWritable rest
/-- No integer in the members is too long to be written. -/
def membersWritable : List (String × Json) → Bool
  | [] => true
  | (_, v) :: rest => isWritable v && membersWritable rest
end

end Json

end PerpRollout
