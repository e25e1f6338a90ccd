import Graft.Workspace

/-
Calls on a workspace, one after another.

  `Call`, `Answer`      what is asked of a workspace, and what it answers;
  `Workspace.perform`   the answer to a call, and the workspace that it leaves;
  `Workspace.answer`    the answer alone;
  `Workspace.after`     the workspace that calls leave;
  `Workspace.history`   what calls write, with the locations.

What is to be written need not be a text.  Where it is none, the write fails and leaves an empty file.
-/
namespace Graft

/-- What is asked of a workspace. -/
inductive Call where
  | write (path : Text) (content : Wide)
  | read (path : Text)
  | exists? (path : Text)
  deriving DecidableEq, Repr

def Call.path : Call → Text
  | .write path _ => path
  | .read path => path
  | .exists? path => path

/-- What a workspace answers. -/
inductive Answer where
  -- Whether nothing was there before.
  | wrote (new : Bool)
  | text (t : Text)
  -- Whether the path names a file.
  | found (there : Bool)
  deriving DecidableEq, Repr

namespace Workspace

/-- The answer to a call, and the workspace that it leaves. -/
def perform (w : Workspace) : Call → Except Error Answer × Workspace
  | .write path content => ((w.writeWide path content).1.map .wrote, (w.writeWide path content).2)
  | .read path => ((w.read path).map .text, w)
  | .exists? path => (((w.exists? path).mapError .fault).map .found, w)

def answer (w : Workspace) (c : Call) : Except Error Answer := (w.perform c).1

/-- The workspace that calls leave, made one after another. -/
def after (w : Workspace) (calls : List Call) : Workspace :=
  calls.foldl (fun w c => (w.perform c).2) w

/-- The text that the writing of a content leaves in its file, by the answer. -/
def leaves (content : Wide) : Except Error Answer → Option Text
  | .ok _ => content.toText.toOption
  | .error (.fault (.unencodable _)) => some []
  | .error _ => none

/-- What a call writes, and where, if it is a write that gets as far as its file. -/
def record (w : Workspace) (c : Call) : List (Location × Text) :=
  match c with
  | .write path content =>
    match w.locate path, leaves content (w.answer c) with
    | .ok l, some t => [(l, t)]
    | _, _ => []
  | _ => []

/-- What calls write, with the locations, the first one first. -/
def history (w : Workspace) : List Call → List (Location × Text)
  | [] => []
  | c :: calls => w.record c ++ history (w.perform c).2 calls

end Workspace
end Graft
