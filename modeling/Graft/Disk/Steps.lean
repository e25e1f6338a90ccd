import Graft.Disk.Tree

/-
The writing of a file as the steps it takes on the disk.

  `Tree.makeOne t l`           a directory made in one that is there;
  `Tree.makeDirectories t l`   a directory and, as needed, those above it;
  `Tree.openFile t l`          a file opened for writing, which empties it;
  `Tree.store t l octets`      directories made, the file opened, its octets written.

Design notes.  A step that fails may come after steps that did not, so the tree that is left is
returned together with the obstacle.  Each step is told the greatest length of a name: a name that
is too long shows only when its turn comes, once directories above it have been made.
-/
namespace Graft.Tree

/-- Whether there is a directory at a place. -/
def isDirectory (t : Tree) (l : Location) : Bool :=
  match t.visit l with
  | .ok (.directory ..) => true
  | _ => false

/-- The tree with something new in a directory that is there and not locked. -/
def place (t : Tree) (l : Location) (x : Tree) : Except Obstacle Tree :=
  match t.visit l.parent with
  | .ok (.directory _ a) => if a.locked then .error .forbidden else .ok (t.put l x)
  | _ => .error .missing

/-- The tree with a new directory, in a directory that is there. -/
def makeOne (longest : Option Nat) (t : Tree) (l : Location) : Except Obstacle Tree :=
  match t.walk longest l with
  | .ok _ => .error .occupied
  | .error .missing => t.place l empty
  | .error o => .error o

/-- Makes a directory in one that is there; one that is there already does as well. -/
def makeOrFind (longest : Option Nat) (t : Tree) (l : Location) :
    Option (Obstacle × Location) × Tree :=
  match t.makeOne longest l with
  | .ok t' => (none, t')
  | .error o =>
    match t.walk longest l with
    | .ok (.directory ..) => (none, t)
    | _ => (some (o, l), t)

/-- Makes the directory at the place spelled backwards.  Where the one above is missing, that is made
first and the making is tried again. -/
def makeUpwards (longest : Option Nat) (t : Tree) : List Text → Option (Obstacle × Location) × Tree
  | [] => t.makeOrFind longest []
  | s :: above =>
    let l := (s :: above).reverse
    match t.makeOne longest l with
    | .error .missing =>
      match makeUpwards longest t above with
      | (none, t') => t'.makeOrFind longest l
      | barred => barred
    | _ => t.makeOrFind longest l

/-- Makes a directory and, as needed, those above it. -/
def makeDirectories (longest : Option Nat) (t : Tree) (l : Location) :
    Option (Obstacle × Location) × Tree :=
  t.makeUpwards longest l.reverse

/-- The tree with a file opened for writing: a new one in a directory that is there, or the one that
is there, emptied. -/
def openFile (longest : Option Nat) (t : Tree) (l : Location) : Except Obstacle Tree :=
  match t.walk longest l with
  | .ok (.file _ locked) => if locked then .error .forbidden else .ok (t.put l (.file .empty))
  | .ok (.directory ..) => .error .isDirectory
  | .error .missing => t.place l (.file .empty)
  | .error o => .error o

/-- Writes a file in directories made as needed. -/
def store (longest : Option Nat) (t : Tree) (l : Location) (octets : ByteArray) :
    Option (Obstacle × Location) × Tree :=
  match t.makeDirectories longest l.parent with
  | (none, t') =>
    match t'.openFile longest l with
    | .ok t'' => (none, t''.put l (.file octets))
    | .error o => (some (o, l), t')
  | barred => barred

end Graft.Tree
