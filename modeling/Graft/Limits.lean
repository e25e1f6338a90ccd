import Graft.Text.Utf8

/-
What a machine sets bounds to.

  `Limits`             the greatest length of a name and of a path, and the greatest depth of a value;
  `Limits.exceeds n t` whether a text is longer than `n` octets.

A limit that is not given is not there: nothing is too long for it, or too deep.
-/
namespace Graft

/-- What a machine sets bounds to. -/
structure Limits where
  -- The greatest length of a name in a directory, in octets.
  name : Option Nat := some 255
  -- The greatest length of a path.
  path : Option Nat := some 4095
  -- How many arrays and objects may stand inside each other in a value that is read.
  nesting : Option Nat := none
  deriving DecidableEq, Repr

/-- Whether a text has more octets than a limit allows. -/
def Limits.exceeds (limit : Option Nat) (t : Text) : Bool := limit.any fun n => n < Utf8.size t

end Graft
