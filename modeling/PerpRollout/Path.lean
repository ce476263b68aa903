/-!
# File paths

A path is a sequence of names, from the current directory or from the root.
Repeated slashes, `.` and a slash at the end say nothing and are dropped; `..`
stays, since it depends on the directories that are there.
-/

namespace PerpRollout

structure Path where
  /-- The slashes at the front that count: none, one, or exactly two. -/
  root : String
  names : List String
  deriving DecidableEq, Repr

namespace Path

/-- The parts of a text between slashes. -/
def splitSlashes : List Char → List (List Char)
  | [] => [[]]
  | c :: rest =>
    match splitSlashes rest with
    | [] => [[c]]
    | first :: others => if c = '/' then [] :: first :: others else (c :: first) :: others

/-- The slashes at the front of a text that count. -/
def rootOf : List Char → String
  | '/' :: '/' :: '/' :: _ => "/"
  | '/' :: '/' :: _ => "//"
  | '/' :: _ => "/"
  | _ => ""

def ofText (s : String) : Path where
  root := rootOf s.toList
  names := ((splitSlashes s.toList).filter fun part => part ≠ [] && part ≠ ['.']).map String.ofList

def text (p : Path) : String :=
  let names := "/".intercalate p.names
  if p.root.isEmpty && p.names.isEmpty then "." else p.root ++ names

def parent (p : Path) : Path :=
  { p with names := p.names.dropLast }

/-- The path has a null character in it. -/
def hasNull (p : Path) : Bool :=
  p.names.any fun name => name.toList.contains '\x00'

end Path

end PerpRollout
