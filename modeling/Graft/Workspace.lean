import Graft.Disk.Steps
import Graft.Fault

/-
A workspace: the part of the disk below a root directory, addressed by relative paths.

  `Workspace`            a root, the disk, and the limits of the machine;
  `Workspace.locate`     the location that a path names;
  `Workspace.exists?`    whether a path names a file;
  `Workspace.read`       the text of a file;
  `Workspace.write`      whether a file that is written is new, and the workspace that is left;
  `Workspace.writeWide`  the same for what need not be a text;
  `Workspace.Error`      why a path cannot be used.

A path is relative, with slashes or backslashes, and names a place at or below the root once its `.`
and `..` segments are resolved.  Texts are kept as UTF-8 and come back as they were written.  A
write that fails may leave directories that were made for it.  That a place cannot be looked up is a
problem of its path when it is read, and a fault when it is asked for or written.
-/
namespace Graft

/-- A root directory and the disk that holds it. -/
structure Workspace where
  root : Location
  disk : Tree
  limits : Limits := {}

namespace Workspace

/-- What is wrong with the use of a path. -/
inductive Problem where
  -- The path is absolute or names nothing.
  | notRelative
  -- The path leads out of the workspace.
  | outside
  -- The file cannot be opened for reading.
  | unread (r : Refusal)
  | undecodable (f : Utf8.Fault)
  | unwritten (r : Refusal)
  deriving DecidableEq, Repr

/-- A path that cannot be used, as it was spelled. -/
structure PathError where
  path : Text
  problem : Problem
  deriving DecidableEq, Repr

/-- The message for a path that cannot be used. -/
def PathError.message (e : PathError) : Text :=
  match e.problem with
  | .notRelative => "Refusing non-relative path ".toList ++ Text.quoted e.path
  | .outside => "Path ".toList ++ Text.quoted e.path ++ " escapes the project root".toList
  | .unread r => "Failed to read ".toList ++ e.path ++ ": ".toList ++ r.message
  | .undecodable f => "Failed to read ".toList ++ e.path ++ ": ".toList ++ f.message
  | .unwritten r => "Failed to write ".toList ++ e.path ++ ": ".toList ++ r.message

/-- Why an operation on a path fails. -/
inductive Error where
  | path (e : PathError)
  | fault (f : Fault)
  deriving DecidableEq, Repr

/-- The failure of an operation on `path`. -/
def fail {α : Type} (path : Text) (problem : Problem) : Except Error α :=
  .error (.path ⟨path, problem⟩)

/-- The location that a path names, seen from a root. -/
def locateFrom (root : Location) (path : Text) : Except Error Location :=
  let p := Path.forward path
  if p.head? = some '/' || (Path.named p).isEmpty then fail path .notRelative
  else if path.contains '\x00' then .error (.fault .nul)
  else
    let l := Path.locate root p
    if root.isPrefixOf l then .ok l else fail path .outside

/-- The location that a path of the workspace names. -/
def locate (w : Workspace) (path : Text) : Except Error Location := locateFrom w.root path

/-- What keeps a location from being looked up. -/
def barrier? (w : Workspace) (l : Location) : Option Obstacle :=
  if Limits.exceeds w.limits.path l.text then some .tooLong else w.disk.barrier? w.limits.name l

/-- Whether a path names a file; one that cannot be used names none. -/
def exists? (w : Workspace) (path : Text) : Except Fault Bool :=
  match w.locate path with
  | .error (.path _) => .ok false
  | .error (.fault f) => .error f
  | .ok l =>
    match w.barrier? l with
    | some o => .error (.barred ⟨o, l.text⟩)
    | none => .ok (w.disk.isFile l)

/-- The text of the file at a path. -/
def read (w : Workspace) (path : Text) : Except Error Text := do
  let l ← w.locate path
  match (w.barrier? l).elim (w.disk.contents l) .error with
  | .error o => fail path (.unread ⟨o, l.text⟩)
  | .ok octets =>
    match Utf8.decode octets with
    | .error f => fail path (.undecodable f)
    | .ok t => .ok t

/-- Writes a text to the file at a path, in directories made as needed; the answer tells whether
nothing was there before. -/
def write (w : Workspace) (path content : Text) : Except Error Bool × Workspace :=
  match w.locate path with
  | .error e => (.error e, w)
  | .ok l =>
    match w.barrier? l with
    | some o => (.error (.fault (.barred ⟨o, l.text⟩)), w)
    | none =>
      match w.disk.store w.limits.name l (Utf8.encode content) with
      | (none, disk) => (.ok !w.disk.exists? l, { w with disk })
      | (some (o, place), disk) => (fail path (.unwritten ⟨o, place.text⟩), { w with disk })

/-- Writes what need not be a text.  Where it is none, the file has been emptied when that shows. -/
def writeWide (w : Workspace) (path : Text) (content : Wide) : Except Error Bool × Workspace :=
  match content.toText with
  | .ok t => w.write path t
  | .error u =>
    match w.write path [] with
    | (.ok _, w) => (.error (.fault (.unencodable u)), w)
    | failed => failed

end Workspace
end Graft
