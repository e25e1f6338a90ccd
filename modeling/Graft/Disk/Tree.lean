import Graft.Limits
import Graft.Path
import Graft.Table

/-
Files and directories.

  `Tree`                 a file, or a directory of named entries, and what may be done with it;
  `Location`             the segments that lead from the top of a tree to a place;
  `Tree.visit l`         what is at a place, or why there is nothing;
  `Tree.barrier? n l`    what keeps a place from being looked up, for names up to a length;
  `Tree.contents? l`     the octets of the file at a place;
  `Tree.put l x`         the tree with `x` at a place, directories on the way made as needed;
  `Tree.follow n l path` the place that a path leads to from another place, step by step;
  `Tree.lookUp m d path` the octets of the file that a path leads to from a directory;
  `Tree.files`           the files with their places.

Design notes.  A directory holds its entries, so every place has a directory above it and no law
about parents is needed; what may be done with a file or a directory is kept where it stands, so it
can be said of nothing that is not there.  Visiting and putting are structural in the location.
Whatever can be looked up can be read.
-/
namespace Graft

/-- What may not be done with a directory. -/
structure Access where
  -- Whether one cannot step from it to its entries.
  closed : Bool := false
  -- Whether no entry can be made in it.
  locked : Bool := false
  deriving DecidableEq, Repr

/-- A file or a directory. -/
inductive Tree where
  -- A file, and whether it cannot be written.
  | file (octets : ByteArray) (locked : Bool := false)
  | directory (entries : List (Text × Tree)) (access : Access := {})

/-- The segments that lead from the top of a tree to a place. -/
abbrev Location := List Text

def Location.text (l : Location) : Text := '/' :: Path.join l

/-- The directory that a location lies in; the top lies in itself. -/
def Location.parent (l : Location) : Location := l.dropLast

/-- What bars the use of a place. -/
inductive Obstacle where
  | missing
  -- There is a file where a directory is to be made.
  | occupied
  | notDirectory
  -- There is a directory where a file is wanted.
  | isDirectory
  -- A name or a path goes beyond a limit.
  | tooLong
  | forbidden
  deriving DecidableEq, Repr

namespace Tree

def empty : Tree := .directory []

def visit : Tree → Location → Except Obstacle Tree
  | t, [] => .ok t
  | .file .., _ :: _ => .error .notDirectory
  | .directory es _, s :: ss =>
    match Table.get? s es with
    | none => .error .missing
    | some t => visit t ss

/-- What is met on the way to a place before it shows what is there: a directory that cannot be
entered, or a name that is too long. -/
def barrier? (longest : Option Nat) : Tree → Location → Option Obstacle
  | .directory es a, s :: ss =>
    if a.closed then some .forbidden
    else if Limits.exceeds longest s then some .tooLong
    else
      match Table.get? s es with
      | none => none
      | some t => barrier? longest t ss
  | _, _ => none

/-- What is found at a place by looking it up. -/
def walk (longest : Option Nat) (t : Tree) (l : Location) : Except Obstacle Tree :=
  match t.barrier? longest l with
  | some o => .error o
  | none => t.visit l

/-- Whether there is a file at a place. -/
def isFile (t : Tree) (l : Location) : Bool :=
  match t.visit l with
  | .ok (.file ..) => true
  | _ => false

/-- Whether there is anything at a place. -/
def exists? (t : Tree) (l : Location) : Bool := (t.visit l).toBool

/-- The octets of the file at a place. -/
def contents (t : Tree) (l : Location) : Except Obstacle ByteArray :=
  match t.visit l with
  | .ok (.file octets _) => .ok octets
  | .ok (.directory ..) => .error .isDirectory
  | .error o => .error o

/-- The entries of a directory; a file has none. -/
def entries : Tree → List (Text × Tree)
  | .file .. => []
  | .directory es _ => es

/-- What may not be done with a directory; a file is none. -/
def access : Tree → Access
  | .file .. => {}
  | .directory _ a => a

/-- The tree with `x` at a place.  What was there is replaced, directories on the way are made as
needed, and a file on the way gives way. -/
def put (t : Tree) (l : Location) (x : Tree) : Tree :=
  match l with
  | [] => x
  | s :: ss =>
    let below := (Table.get? s t.entries).getD empty
    .directory (Table.set s (put below ss x) t.entries) t.access

/-- The place that segments lead to from a place, with a directory at every step. -/
def follow (longest : Option Nat) (t : Tree) (l : Location) : List Text → Except Obstacle Location
  | [] => .ok l
  | s :: ss =>
    match t.visit l with
    | .ok (.directory _ a) =>
      if a.closed then .error .forbidden
      else if Limits.exceeds longest s then .error .tooLong
      else follow longest t (if s = Path.above then l.parent else l ++ [s]) ss
    | .ok (.file ..) => .error .notDirectory
    | .error o => .error o

/-- The octets of the file that a path leads to from a directory, for a path as it is spelled. -/
def lookUp (limits : Limits) (t : Tree) (directory : Location) (path : Text) :
    Except Obstacle ByteArray :=
  let start := if path.head? = some '/' then [] else directory
  if Limits.exceeds limits.path path then .error .tooLong
  else (t.follow limits.name start (Path.named path)).bind t.contents

mutual

/-- The files of a tree with their places. -/
def files : Tree → List (Location × ByteArray)
  | .file octets _ => [([], octets)]
  | .directory es _ => filesOfEntries es

/-- The files of the entries of a directory. -/
def filesOfEntries : List (Text × Tree) → List (Location × ByteArray)
  | [] => []
  | (s, t) :: rest => (files t).map (fun f => (s :: f.1, f.2)) ++ filesOfEntries rest

end

end Tree
end Graft
