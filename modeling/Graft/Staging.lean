import Graft.Artifact
import Graft.Workspace

/-
Writing artifacts into a workspace.

  `destination root file`     where a file of an artifact goes under a source root;
  `sourceRoot? path`          the source root that a path lies under;
  `StagedFile`, `Staged`      what became of a file, and of an artifact;
  `stage root as w`           the artifacts written one after another.

A file that cannot be written is recorded and does not keep the others from being written.  Only a
fault ends staging early; what was written before it stays.
-/
namespace Graft.Staging

/-- The directory below a source root that holds the files of the application. -/
def appDirectory : Text := "app".toList

/-- A path without slashes at its ends. -/
def bare (t : Text) : Text := Text.trim Path.isSlash t

/-- The non-empty parts with slashes between them. -/
def joined (parts : List Text) : Text := Path.join (parts.filter fun p => !p.isEmpty)

/-- Where a file goes: a path that lies under the source root stays, any other goes below its
application directory. -/
def destination (sourceRoot file : Text) : Text :=
  let root := bare sourceRoot
  let under := file == root || (Text.after? (root ++ ['/']) file).isSome
  if !root.isEmpty && under then file else joined [root, appDirectory, file]

/-- The source root of a path: what stands before its first application directory. -/
def sourceRoot? (path : Text) : Option Text :=
  match Text.before? ('/' :: appDirectory ++ ['/']) (bare (Path.forward path)) with
  | some (c :: cs) => some (c :: cs)
  | _ => none

/-- What became of one file of an artifact. -/
structure StagedFile where
  path : Text
  kind : Kind
  -- Whether the file is new, or why it could not be written.
  outcome : Except Workspace.PathError Bool

namespace StagedFile

def ok (f : StagedFile) : Bool := f.outcome.toBool

def created (f : StagedFile) : Bool :=
  match f.outcome with
  | .ok new => new
  | .error _ => false

/-- Why the file could not be written. -/
def error? (f : StagedFile) : Option Text :=
  match f.outcome with
  | .ok _ => none
  | .error e => some e.message

end StagedFile

/-- What became of an artifact. -/
structure Staged where
  artifact : Artifact
  files : List StagedFile

namespace Staged

/-- Whether there are files and all were written. -/
def ok (s : Staged) : Bool := !s.files.isEmpty && s.files.all StagedFile.ok

/-- Where the file of a kind went. -/
def pathOf? (s : Staged) (k : Kind) : Option Text :=
  (s.files.find? fun f => f.kind == k).map StagedFile.path

end Staged

/-- Writes files, given as path, kind and text. -/
def stageFiles (sourceRoot : Text) :
    List (Text × Kind × Text) → Workspace → Except Fault (List StagedFile) × Workspace
  | [], w => (.ok [], w)
  | (file, kind, text) :: rest, w =>
    let path := destination sourceRoot file
    let andThen (outcome : Except Workspace.PathError Bool) (w : Workspace) :=
      let (staged, w) := stageFiles sourceRoot rest w
      (staged.map (⟨path, kind, outcome⟩ :: ·), w)
    match w.write path text with
    | (.ok new, w) => andThen (.ok new) w
    | (.error (.path e), w) => andThen (.error e) w
    | (.error (.fault f), w) => (.error f, w)

def stage (sourceRoot : Text) :
    List Artifact → Workspace → Except Fault (List Staged) × Workspace
  | [], w => (.ok [], w)
  | a :: rest, w =>
    match stageFiles sourceRoot a.files w with
    | (.error f, w) => (.error f, w)
    | (.ok files, w) =>
      let (staged, w) := stage sourceRoot rest w
      (staged.map (⟨a, files⟩ :: ·), w)

end Graft.Staging
