import Graft.Manifest
import Graft.Staging

/-
Where the parts of a project lie.

  `Hints`            what the caller knows about the project;
  `Layout`           the source root, and the host that is to be extended;
  `Layout.find`      the layout of a project in a workspace.

A named host, or the wish to extend none, settles the layout without the manifest.  Otherwise the
manifest gives the source root, and the host is the module of the application directory, or else
its root component.

A source root with a surrogate in it cannot be looked up, unless each of its surrogates stands for an
octet of a name.  What lies below such a root has names that are no texts, and is not told here.
-/
namespace Graft

/-- What the caller knows about a project. -/
structure Hints where
  host : Option Text := none
  -- Whether no host is to be extended.
  noHost : Bool := false
  project : Option Text := none
  -- The source root, for when the manifest is not asked.
  sourceRoot : Option Text := none
  deriving DecidableEq, Repr

/-- Where the parts of a project lie. -/
structure Layout where
  sourceRoot : Text
  -- The module of the application, if there is one.
  module : Option Text := none
  -- The root component, if there is one.
  component : Option Text := none
  host : Option Text := none
  deriving DecidableEq, Repr

namespace Layout

/-- The source root when none is given. -/
def defaultSourceRoot : Text := "src".toList

def appDirectory (l : Layout) : Text := Staging.joined [l.sourceRoot, Staging.appDirectory]

def template (l : Layout) : Text := l.appDirectory ++ "/app.component.html".toList

/-- A source root with slashes inside only; the default one when nothing is left. -/
def cleanSourceRoot (t : Option Text) : Text :=
  match Staging.bare (Path.forward (Text.stripped (t.getD []))) with
  | [] => defaultSourceRoot
  | root => root

def around (host : Text) (sourceRoot : Option Text) : Layout :=
  let host := (Path.forward host).dropWhile Path.isSlash
  { sourceRoot := cleanSourceRoot ((Text.nonEmpty sourceRoot).or (Staging.sourceRoot? host))
    host := some host }

/-- A path, if it names a file. -/
def ifFile (w : Workspace) (path : Text) : Except Fault (Option Text) :=
  (w.exists? path).map fun there => if there then some path else none

/-- The layout below the source root of a project. -/
def below (w : Workspace) (sourceRoot : Text) : Except Fault Layout := do
  let app := sourceRoot ++ '/' :: Staging.appDirectory
  let module ← ifFile w (app ++ "/app.module.ts".toList)
  let component ← ifFile w (app ++ "/app.component.ts".toList)
  return { sourceRoot, module, component, host := module.or component }

/-- The fault of looking for files below a source root with stray surrogates.  Their place is counted
in the path that leads there from the top. -/
def faultOf (w : Workspace) (sourceRoot : Wide) (u : Unencodable) : Fault :=
  let beginning := (sourceRoot.take u.start).map Point.mark
  let before := (Path.forward (beginning.dropWhile isSpace)).dropWhile Path.isSlash
  let segment := Path.lastSegment before
  let directory := before.take (before.length - segment.length)
  if directory.contains '\x00' then .nul
  else
    .unencodable
      { u with start := (Location.text (Path.locate w.root directory ++ [segment])).length }

/-- The source root that a project gives, as a text. -/
def encodable (w : Workspace) : Option Wide → Except Fault (Option Text)
  | none => .ok none
  | some t =>
    match t.toText with
    | .ok t => .ok (some t)
    | .error _ =>
      match t.strays? with
      | some u => .error (faultOf w t u)
      | none => .error (.untold t)

/-- The layout of a project of the manifest. -/
def ofManifest (w : Workspace) (m : Manifest) (project : Option Text) :
    Except Manifest.Error Layout :=
  let name := ((Text.nonEmpty project).map Text.wide).or m.defaultProject
  match (name.filter fun n => !n.isEmpty).bind fun n => Table.get? n m.projects with
  | none => .error (.problem (.noProject name))
  | some sourceRoot =>
    ((encodable w sourceRoot).bind fun t => below w (cleanSourceRoot t)).mapError .fault

/-- The layout of a project in a workspace. -/
def find (w : Workspace) (h : Hints) : Except Manifest.Error Layout :=
  match Text.nonEmpty h.host with
  | some host => .ok (around host h.sourceRoot)
  | none =>
    if h.noHost then .ok { sourceRoot := cleanSourceRoot h.sourceRoot }
    else (Manifest.load w).bind fun m => ofManifest w m h.project

end Layout
end Graft
