import PerpRollout.Json.Basic

/-!
# Overlaying objects

`overlay base changes` lays one object on top of another.  Where both have an
object the two are overlaid member by member; anything else in `changes` replaces
what `base` has.  Members of `base` keep their place, new ones follow in the
order of `changes`.
-/

namespace PerpRollout.Json

mutual
/-- The value `changes` where `base` has a value already. -/
def overlay (base : Json) : Json → Json
  | .obj changes =>
    match base with
    | .obj members => .obj (overlayMembers members changes)
    | _ => .obj changes
  | v => v
/-- Lays members on top of members, one after the other. -/
def overlayMembers (base : List (String × Json)) : List (String × Json) → List (String × Json)
  | [] => base
  | (k, v) :: rest =>
    let value := match member? k base with
      | some old => overlay old v
      | none => v
    overlayMembers (setMember k value base) rest
end

end PerpRollout.Json
