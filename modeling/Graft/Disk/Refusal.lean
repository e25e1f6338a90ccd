import Graft.Disk.Tree
import Graft.Text.Quoted

/-
What is said when a place cannot be used.

  `Refusal`           an obstacle, and the spelling of the place where it was met;
  `Refusal.message`   its number, its wording and the quoted spelling.
-/
namespace Graft

def Obstacle.number : Obstacle → Nat
  | .missing => 2
  | .occupied => 17
  | .notDirectory => 20
  | .isDirectory => 21
  | .tooLong => 36
  | .forbidden => 13

def Obstacle.wording : Obstacle → Text
  | .missing => "No such file or directory".toList
  | .occupied => "File exists".toList
  | .notDirectory => "Not a directory".toList
  | .isDirectory => "Is a directory".toList
  | .tooLong => "File name too long".toList
  | .forbidden => "Permission denied".toList

/-- An obstacle at a place. -/
structure Refusal where
  -- What bars the use of the place.
  obstacle : Obstacle
  place : Text
  deriving DecidableEq, Repr

def Refusal.message (r : Refusal) : Text :=
  "[Errno ".toList ++ Text.decimal r.obstacle.number ++ "] ".toList ++ r.obstacle.wording ++
    ": ".toList ++ Text.quoted r.place

end Graft
