import PerpRollout.Content
import PerpRollout.Ledger.Store
import PerpRollout.Text.Percent

/-!
# Where a ledger is kept

A database URL names a ledger: one in memory, which is gone after use, or one in
a file.
-/

namespace PerpRollout.Ledger

inductive Location where
  | memory
  | file (path : Path)
  deriving DecidableEq, Repr

/-- The rest of a text after the first occurrence of `mark`. -/
def after? (mark : List Char) : List Char → Option (List Char)
  | [] => if mark.isEmpty then some [] else none
  | c :: rest =>
    if mark.isPrefixOf (c :: rest) then some ((c :: rest).drop mark.length)
    else after? mark rest

/-- A database URL: its scheme and host, the name of the database, and a query. -/
structure Url where
  head : String
  database : Option String
  query : List Char
  deriving Repr

namespace Url

/-- The parts of a text that is a URL. -/
def ofText (text : String) : Url :=
  match after? "://".toList text.toList with
  | none => ⟨text, none, []⟩
  | some rest =>
    let (host, rest) := rest.span fun c => c != '/' && c != '?'
    let head := text.toList.take (text.length - rest.length - host.length) ++ host
    match rest with
    | '/' :: path =>
      let (name, query) := path.span (· != '?')
      ⟨String.ofList head, some (Text.percentDecode (String.ofList name)), query⟩
    | query => ⟨String.ofList head, none, query⟩

def text (u : Url) : String :=
  let database := match u.database with
    | some name => "/" ++ Text.percentEncode [' ', '+', '/'] name
    | none => ""
  u.head ++ database ++ String.ofList u.query

def location (u : Url) : Location :=
  match u.database with
  | none => .memory
  | some name => if name.isEmpty || name = ":memory:" then .memory else .file (.ofText name)

end Url

/-- The line about a ledger that was opened. -/
def openedLine (url : Url) : Log.Line :=
  Log.line .info ("Database initialized: " ++ url.text)

/-- The ledger that a file holds; a new one when there is no such file or it is
empty. -/
def ofContent : Option Content → Except Failure Ledger
  | none => .ok {}
  | some (.ledger l) => .ok l
  | some (.bytes b) => if b.isEmpty then .ok {} else .error .notALedger
  | some (.log _) => .error .notALedger

/-- The names that the file of a ledger is found under. -/
def fileOf (files : Files Content) (path : Path) : Except Failure (List String) :=
  match files.target path with
  | .ok names => .ok names
  | .error _ => .error .ledgerUnreachable

/-- Opens a ledger, in a directory made for it.  With `createTables` missing
tables are created, and the file with them. -/
def openAt (url : String) (createTables : Bool) (files : Files Content) :
    Logged Ledger × Files Content :=
  let finish (l : Ledger) (keep : Ledger → Files Content) (files : Files Content) :
      Logged Ledger × Files Content :=
    if createTables then
      let (lines, l) := l.create
      (⟨lines ++ [openedLine (.ofText url)], .ok l⟩, keep l)
    else (⟨[openedLine (.ofText url)], .ok l⟩, files)
  match (Url.ofText url).location with
  | .memory => finish {} (fun _ => files) files
  | .file path =>
    match files.makeParent path with
    | .error fault => (.fail (.unwritable fault), files)
    | .ok made =>
      match fileOf made path with
      | .error e => if createTables then (.fail e, made) else finish {} (fun _ => made) made
      | .ok names =>
        match ofContent (made.content? names) with
        | .error e => if createTables then (.fail e, made) else finish {} (fun _ => made) made
        | .ok l => finish l (fun l => made.put names (.ledger l)) made

def rule : Log.Line :=
  Log.line .info (String.ofList (List.replicate 60 '='))

/-- Sets up the ledger of a database URL. -/
def setUp (url : String) (files : Files Content) : Logged Unit × Files Content :=
  let heading := [rule, Log.line .info "DEPLOYMENT LEDGER SETUP", rule]
  match openAt url true files with
  | (⟨lines, .ok _⟩, files) =>
    (⟨heading ++ lines ++ [Log.line .info "✓ Database setup complete!"], .ok ()⟩, files)
  | (⟨lines, .error e⟩, files) => (⟨heading ++ lines, .error e⟩, files)

/-- Keeps a ledger where it was opened. -/
def keep (url : String) (l : Ledger) (files : Files Content) : Files Content :=
  match (Url.ofText url).location with
  | .memory => files
  | .file path =>
    match files.target path with
    | .ok names => files.put names (.ledger l)
    | .error _ => files

end PerpRollout.Ledger
