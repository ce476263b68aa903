import PerpRollout.Files
import PerpRollout.Ledger.Basic

/-!
# What files hold

A file holds bytes of its own, a ledger, or the lines of a log.
-/

namespace PerpRollout

/-- What a file holds. -/
inductive Content where
  | bytes (b : ByteArray)
  | ledger (l : Ledger)
  | log (lines : List Log.Line)

namespace Content

def ofText (s : String) : Content :=
  .bytes s.toUTF8

/-- The bytes as a text.  A ledger file is no text. -/
def text? : Content → Option String
  | .bytes b => String.fromUTF8? b
  | .ledger _ => none
  | .log lines => some (String.join (lines.map fun l => l.text ++ "\n"))

end Content

end PerpRollout
