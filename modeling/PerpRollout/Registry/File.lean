import PerpRollout.Content
import PerpRollout.Environment
import PerpRollout.Json.Printer
import PerpRollout.Registry.Mapping

/-!
# Registry files

A registry is written to a file as indented JSON, with a line break at the end,
and read from such a file or from any other JSON text in UTF-8.
-/

namespace PerpRollout.Registry

/-- A line break is one character, however it is written. -/
def unifyBreaks : List Char → List Char
  | [] => []
  | '\r' :: '\n' :: rest => '\n' :: unifyBreaks rest
  | '\r' :: rest => '\n' :: unifyBreaks rest
  | c :: rest => c :: unifyBreaks rest

def valueOfText (path : String) (text : String) : Except Failure Json :=
  let cs := unifyBreaks text.toList
  match Json.parse Numeral.digitLimit cs with
  | .ok v => .ok v
  | .error (.numeralTooLong digits) => .error (.numeralTooLong digits)
  | .error (.flaw flaw rest) =>
    reject "registry" none (.notJson path flaw (Json.placeOf cs rest))

def valueOfFile (files : Files Content) (path : Path) : Except Failure Json :=
  if path.hasNull then .error .nullInPath
  else match files.read path with
    | .error fault => reject "registry" none (.unreadable path.text fault.message)
    | .ok content =>
      match content.text? with
      | some text => valueOfText path.text text
      | none => .error .notUtf8

/-- The number of environments, as the lines about files tell it. -/
def countText (r : Registry) : String :=
  Numeral.ofNat r.size ++ " deployment configs"

def load (files : Files Content) (path : Path) (issued : Nat) : Logged Registry := do
  let raw ← valueOfFile files path
  let r ← ofJson raw issued
  Logged.log [Log.line .info ("Loaded " ++ r.countText ++ " from " ++ path.text)]
  return r

/-- The registry of the bundled environments. -/
def bundled (issued : Nat) : Logged Registry :=
  ofJson (.obj Environment.records) issued

/-- The registry of a file, or of the bundled environments when no file is named. -/
def source (files : Files Content) (path : Option String) (issued : Nat) : Logged Registry :=
  match path.filter (!·.isEmpty) with
  | some path => load files (.ofText path) issued
  | none => bundled issued

/-- The text that is written for the registry, as far as it can be written. -/
def fileText (r : Registry) : String × Bool :=
  match r.toJson.render .indented with
  | (text, true) => (text ++ "\n", true)
  | (text, false) => (text, false)

/-- Writes the registry to a file.  The file is emptied first: when the registry
cannot be written to its end, the file holds what was written of it. -/
def save (r : Registry) (path : Path) (files : Files Content) : Logged Unit × Files Content :=
  if path.hasNull then (.fail .nullInPath, files)
  else
    match files.makeParent path with
    | .error fault => (.fail (.unwritable fault), files)
    | .ok made =>
      match made.target path with
      | .error fault => (.fail (.unwritable fault), made)
      | .ok names =>
        let (text, complete) := r.fileText
        let written := made.put names (.ofText text)
        if complete then
          (⟨[Log.line .info ("Saved " ++ r.countText ++ " to " ++ path.text)], .ok ()⟩, written)
        else (.fail .integerTooLong, written)

end PerpRollout.Registry
