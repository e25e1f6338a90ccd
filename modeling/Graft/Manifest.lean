import Graft.Json.Reader
import Graft.Shape
import Graft.Workspace

/-
The manifest of a workspace.

  `Manifest`           the default project, and the source roots of the projects;
  `Manifest.ofText`    the manifest in the text of a JSON object;
  `Manifest.load`      the manifest of a workspace;
  `Manifest.Problem`   why there is none.

Of the object only two members count, each under either of two keys; the first of them hides the
second.
-/
namespace Graft

/-- The projects of a workspace. -/
structure Manifest where
  -- The project that is meant when none is named.
  defaultProject : Option Wide := none
  -- The source root of each project, if the project gives one.
  projects : List (Wide × Option Wide) := []

namespace Manifest

def file : Text := "angular.json".toList

/-- Why there is no manifest, or not the project asked for. -/
inductive Problem where
  | absent
  | unreadable (e : Workspace.PathError)
  | malformed (e : Json.ReadError)
  | notObject
  -- It is an object of another shape.
  | misshapen (mistakes : List Mistake)
  | noProject (name : Option Wide)
  deriving DecidableEq, Repr

def Problem.message : Problem → Wide
  | .absent =>
    Text.wide ("Could not find \"".toList ++ file ++
      "\". Run inside a workspace that contains one.".toList)
  | .unreadable e => Text.wide ("Could not read ".toList ++ file ++ ": ".toList ++ e.message)
  | .malformed e => Text.wide (file ++ " is not valid JSON: ".toList ++ e.message)
  | .notObject => Text.wide (file ++ " must contain a JSON object.".toList)
  | .misshapen ms =>
    Text.wide (file ++ " has an unexpected shape: ".toList ++
      Shape.summary "WorkspaceManifest".toList ms)
  | .noProject name =>
    Text.wide "Could not find project \"".toList ++ name.getD "None".toList ++
      Text.wide ("\" in ".toList ++ file ++ ".".toList)

/-- A problem, or a fault. -/
inductive Error where
  | problem (p : Problem)
  | fault (f : Fault)
  deriving DecidableEq, Repr

/-- The first key of an object that is there, with its value. -/
def firstOf (keys : List Text) (members : List (Wide × Json)) : Option (Text × Json) :=
  keys.findSome? fun k => (Table.get? k.wide members).map fun v => (k, v)

def textOrNull : Json → Shape.Checked (Option Wide)
  | .null => .ok none
  | .str t => .ok (some t)
  | _ => Shape.mistake .text

/-- A text or null under the first of the keys that is there; null when none is. -/
def textUnder (keys : List Text) (members : List (Wide × Json)) : Shape.Checked (Option Wide) :=
  match firstOf keys members with
  | none => .ok none
  | some (k, v) => Shape.under k (textOrNull v)

def projectOfJson : Json → Shape.Checked (Option Wide)
  | .obj members => textUnder ["sourceRoot".toList, "source_root".toList] members
  | _ => Shape.mistake .record

def projectsOf : List (Wide × Json) → Shape.Checked (List (Wide × Option Wide))
  | [] => .ok []
  | (name, v) :: rest =>
    Shape.apply ((Shape.under name.lossy (projectOfJson v)).map fun root ps => (name, root) :: ps)
      (projectsOf rest)

def projectsOfJson : Json → Shape.Checked (List (Wide × Option Wide))
  | .obj members => projectsOf members
  | _ => Shape.mistake .mapping

def projectsKey : Text := "projects".toList

/-- The manifest in the members of an object. -/
def ofMembers (members : List (Wide × Json)) : Shape.Checked Manifest :=
  let projects :=
    match Table.get? projectsKey.wide members with
    | none => .ok []
    | some v => Shape.under projectsKey (projectsOfJson v)
  Shape.apply
    ((textUnder ["defaultProject".toList, "default_project".toList] members).map Manifest.mk)
    projects

/-- The manifest in a text, for values that nest up to a limit. -/
def ofText (nesting : Option Nat) (t : Text) : Except Error Manifest :=
  match Json.read nesting t.wide with
  | .error (.malformed r l c o) => .error (.problem (.malformed (.malformed r l c o)))
  | .error e => .error (.fault (.json e))
  | .ok (.obj members) => (ofMembers members).mapError fun ms => .problem (.misshapen ms)
  | .ok _ => .error (.problem .notObject)

def load (w : Workspace) : Except Error Manifest :=
  match w.exists? file with
  | .error f => .error (.fault f)
  | .ok false => .error (.problem .absent)
  | .ok true =>
    match w.read file with
    | .error (.fault f) => .error (.fault f)
    | .error (.path e) => .error (.problem (.unreadable e))
    | .ok t => ofText w.limits.nesting t

end Manifest
end Graft
