import Graft.Table
import Graft.Text.Wide

/-
JSON values.

  `Number`          an integer of any size or a floating-point number;
  `Json`            a value; the members of an object keep their order;
  `Json.member?`    the value of a member.

Strings are wide texts: an escape may stand for a surrogate that belongs to no pair.
-/
namespace Graft

/-- A number, written with or without a fraction or power. -/
inductive Number where
  | int (n : Int)
  | float (f : Float)

def Number.isZero : Number → Bool
  | .int n => n == 0
  | .float f => f == 0

/-- A JSON value. -/
inductive Json where
  | null
  | bool (b : Bool)
  | num (n : Number)
  | str (t : Wide)
  | arr (items : List Json)
  -- An object, as its members in order.
  | obj (members : List (Wide × Json))

namespace Json

def int (n : Int) : Json := .num (.int n)

/-- The value of a member, for an object that has it. -/
def member? (key : Text) : Json → Option Json
  | .obj members => Table.get? key.wide members
  | _ => none

def text? : Json → Option Wide
  | .str t => some t
  | _ => none

end Json
end Graft
