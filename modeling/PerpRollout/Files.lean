import PerpRollout.Failure
import PerpRollout.Path

/-!
# Files of the current directory

The directory that the library works in, as a value: what its files hold and
which directories there are.  Nothing outside of it can be reached.
-/

namespace PerpRollout

/-- The files below the current directory, and the directories below it. -/
structure Files (α : Type) where
  contents : List (List String × α) := []
  directories : List (List String) := []

namespace Files

variable {α : Type}

/-- Where a path leads. -/
inductive Place where
  /-- A name in a directory that is there. -/
  | at (names : List String)
  /-- A directory that is not below the current one. -/
  | outside
  deriving DecidableEq, Repr

/-- The most bytes a name may have. -/
def maxName : Nat := 255

/-- The most bytes a path may have. -/
def maxPath : Nat := 4095

def content? (f : Files α) (names : List String) : Option α :=
  f.contents.lookup names

def isDirectory (f : Files α) (names : List String) : Bool :=
  names.isEmpty || f.directories.contains names

/-- The place in a directory that is still to be entered.  Only a directory can be. -/
def enter (f : Files α) : Place → Except PathFault Place
  | .outside => .ok .outside
  | .at names =>
    if f.isDirectory names then .ok (.at names)
    else if (f.content? names).isSome then .error .notDirectory
    else .error .missing

def follow (f : Files α) : Place → List String → Except PathFault Place
  | place, [] => .ok place
  | place, name :: rest => do
    match ← f.enter place with
    | .outside => if name = ".." then f.follow .outside rest else .error .missing
    | .at names =>
      if name = ".." then f.follow (if names.isEmpty then .outside else .at names.dropLast) rest
      else if maxName < name.utf8ByteSize then .error .nameTooLong
      else f.follow (.at (names ++ [name])) rest

/-- Where a path leads. -/
def locate (f : Files α) (p : Path) : Except PathFault Place :=
  if maxPath < p.text.utf8ByteSize then .error .nameTooLong
  else if p.root.isEmpty then f.follow (.at []) p.names
  else if p.names.isEmpty then .ok .outside
  else .error .missing

def read (f : Files α) (p : Path) : Except PathFault α := do
  match ← f.locate p with
  | .outside => .error .isDirectory
  | .at names =>
    if f.isDirectory names then .error .isDirectory
    else match f.content? names with
      | some a => .ok a
      | none => .error .missing

def addDirectory (f : Files α) (names : List String) : Files α :=
  if f.isDirectory names then f else { f with directories := f.directories ++ [names] }

/-- Makes the directories on the way from a place on, as far as they are missing. -/
def makeFrom (f : Files α) : List String → List String → Except PathFault (Files α)
  | _, [] => .ok f
  | place, name :: rest =>
    if name = ".." then
      if place.isEmpty then .error .missing else f.makeFrom place.dropLast rest
    else if maxName < name.utf8ByteSize then .error .nameTooLong
    else
      let next := place ++ [name]
      if (f.content? next).isSome then .error (if rest.isEmpty then .exists else .notDirectory)
      else (f.addDirectory next).makeFrom next rest

/-- Makes the directory that a path is in. -/
def makeParent (f : Files α) (p : Path) : Except PathFault (Files α) :=
  if !p.root.isEmpty then .ok f
  else if maxPath < p.parent.text.utf8ByteSize then .error .nameTooLong
  else if p.parent.names.all (· = "..") then .ok f
  else f.makeFrom [] p.parent.names

/-- Gives a file a content, in its old place when it is there. -/
def put (f : Files α) (names : List String) (a : α) : Files α :=
  if (f.content? names).isSome then
    { f with contents := f.contents.map fun (n, old) => (n, if n = names then a else old) }
  else { f with contents := f.contents ++ [(names, a)] }

theorem content?_put_self (f : Files α) (names : List String) (a : α) :
    (f.put names a).content? names = some a := by
  have replaced (contents : List (List String × α)) (h : (contents.lookup names).isSome) :
      (contents.map fun (n, old) => (n, if n = names then a else old)).lookup names = some a := by
    induction contents with
    | nil => simp at h
    | cons x rest ih =>
      obtain ⟨n, old⟩ := x
      by_cases hn : n = names
      · simp [hn]
      · have h' : (names == n) = false := by simpa using fun e => hn e.symm
        simp only [List.lookup_cons, h'] at h
        simp [List.lookup_cons, h', ih h]
  have appended (contents : List (List String × α)) (h : (contents.lookup names).isSome = false) :
      (contents ++ [(names, a)]).lookup names = some a := by
    simp only [Option.isSome_eq_false_iff, Option.isNone_iff_eq_none] at h
    simp [List.lookup_append, h]
  unfold put content?
  split
  case isTrue h => exact replaced f.contents h
  case isFalse h => exact appended f.contents (Bool.eq_false_iff.mpr h)

theorem content?_put_of_ne (f : Files α) {names others : List String} (h : others ≠ names) (a : α) :
    (f.put names a).content? others = f.content? others := by
  have replaced (contents : List (List String × α)) :
      (contents.map fun (n, old) => (n, if n = names then a else old)).lookup others =
        contents.lookup others := by
    induction contents with
    | nil => rfl
    | cons x rest ih =>
      obtain ⟨n, old⟩ := x
      by_cases hn : n = others
      · subst hn
        simp [h]
      · have h' : (others == n) = false := beq_eq_false_iff_ne.mpr fun e => hn e.symm
        simp only [List.map_cons, List.lookup_cons, h', ih]
  unfold put content?
  split
  · exact replaced f.contents
  · have h' : (others == names) = false := beq_eq_false_iff_ne.mpr h
    simp [List.lookup_append, List.lookup_cons, h']

/-- Where a file can be written at a path. -/
def target (f : Files α) (p : Path) : Except PathFault (List String) := do
  match ← f.locate p with
  | .outside => .error .isDirectory
  | .at names => if f.isDirectory names then .error .isDirectory else .ok names

/-- Writes the file at a path, after making the directory it is in. -/
def write (f : Files α) (p : Path) (a : α) : Except PathFault (Files α) := do
  let f ← f.makeParent p
  return f.put (← f.target p) a

/-- The paths of all files by code points. -/
def paths (f : Files α) : List String :=
  Text.sortNames (f.contents.map fun (names, _) => "/".intercalate names)

def ofList (files : List (String × α)) : Files α :=
  files.foldl (fun f (path, a) => ((f.write (.ofText path) a).toOption).getD f) {}

end Files

end PerpRollout
