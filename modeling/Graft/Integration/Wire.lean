import Graft.Integration.Report
import Graft.Name.Exported

/-
Wiring a written component into its project.

  `script? staged primary`   the script of a component, and where it went;
  `wire base w o r`          the component registered in the host, and shown in the root template.

The script of a component may lie in another artifact than the primary one, since a response may
give each file of a component a marker of its own.  Whatever keeps the host from being extended ends
the wiring with a warning.
-/
namespace Graft.Integration

open Staging Registration

/-- The script of the component that an artifact belongs to, after the path where it went. -/
def script? (staged : List Staged) (primary : Staged) : Option (Text × Text) :=
  (staged.filter fun s => s.ok && s.artifact.id == primary.artifact.id).findSome? fun s =>
    (s.pathOf? .script).map fun path => (path, s.artifact.contents.script.getD [])

/-- The request to register the class of a script that went to `path`. -/
def request? (base : Location) (host : Text) (primary : Staged) (path script : Text) :
    Option Request :=
  (specifier? base host path).map fun importPath =>
    { target := host
      symbol :=
        (Name.exported? script).getD (Name.symbol primary.artifact.path Name.componentSuffix)
      importPath := importPath
      role := Role.ofScript script }

def element (tag : Text) : Text :=
  '<' :: tag ++ ['>', '<', '/'] ++ tag ++ ['>']

/-- Whether a template has an element of a tag. -/
def displays (tag template : Text) : Bool :=
  Text.occursBefore ('<' :: tag)
    (fun rest => rest.head?.any fun c => isSpace c || c == '>' || c == '/') template

/-- A template with an element on a line of its own at the end. -/
def withElement (tag template : Text) : Text :=
  let separator : Text :=
    if template.isEmpty || template.getLast? == some '\n' then [] else ['\n']
  template ++ separator ++ element tag ++ ['\n']

/-- Puts the element of a component into the root template, if that exists and has none yet. -/
def display (w : Workspace) (layout : Layout) (primary : Staged) (tagPrefix : Text) (r : Report) :
    Except Fault Report × Workspace :=
  let template := layout.template
  let tag := Name.tag primary.artifact.path tagPrefix
  match w.exists? template with
  | .error f => (.error f, w)
  | .ok false => (.ok r, w)
  | .ok true =>
    match w.read template with
    | .error (.fault f) => (.error f, w)
    | .error (.path e) => (.ok (r.warn .targetMissing e.message (some template)), w)
    | .ok text =>
      if displays tag text then (.ok r, w)
      else
        match w.write template (withElement tag text) with
        | (.error (.fault f), w) => (.error f, w)
        | (.error (.path e), w) => (.ok (r.warn .writeFailed e.message (some template)), w)
        | (.ok _, w) => (.ok { r with usageMarker := some template }, w)

/-- The message when a project has no host. -/
def noHostMessage : Text :=
  "No host module or root component found; import the new artifacts manually.".toList

/-- The message when no artifact can be registered. -/
def noPrimaryMessage : Text :=
  "No fully staged artifact with a script file; skipping integration.".toList

/-- The message when the host is no file. -/
def missingHostMessage (host : Text) : Text :=
  "Host file ".toList ++ host ++ " does not exist or is not a file.".toList

/-- The issue that an error of a registration amounts to. -/
def issueOf (host : Text) : HostError → Except Fault Issue
  | .fault f => .error f
  | .mismatch m => .ok ⟨.grammarMismatch, m.message, some host⟩
  | .unwritten e => .ok ⟨.writeFailed, e.message, some host⟩
  | e => .ok ⟨.targetMissing, e.message, some host⟩

/-- Registers the component of an artifact in a host. -/
def wireInto (base : Location) (w : Workspace) (o : Options) (layout : Layout) (host : Text)
    (primary : Staged) (path script : Text) (r : Report) : Outcome :=
  match request? base host primary path script with
  | none => ⟨.error .emptyPath, [], w⟩
  | some request =>
    let done := register w request
    match done.result with
    | .error e =>
      ⟨(issueOf host e).map fun i => { r with warnings := r.warnings ++ [i] }.reach .done,
        done.notices, done.workspace⟩
    | .ok registered =>
      let r := { r with registered := some registered }.reach .patched
      let (r, w) :=
        if o.usageMarker then display done.workspace layout primary o.tagPrefix r
        else (.ok r, done.workspace)
      ⟨r.map fun r => r.reach .done, done.notices, w⟩

/-- Wires the primary artifact of a report into the host of a project. -/
def wire (base : Location) (w : Workspace) (o : Options) (layout : Layout) (r : Report) : Outcome :=
  let stop (code : IssueCode) (message : Text) (path : Option Text) : Outcome :=
    ⟨.ok ((r.warn code message path).reach .done), [], w⟩
  match layout.host with
  | none => stop .targetMissing noHostMessage none
  | some host =>
    match r.primary.bind fun p => (script? r.staged p).map fun s => (p, s) with
    | none => stop .primaryUnavailable noPrimaryMessage (some host)
    | some (primary, path, script) =>
      match w.exists? host with
      | .error f => ⟨.error f, [], w⟩
      | .ok false => stop .targetMissing (missingHostMessage host) (some host)
      | .ok true => wireInto base w o layout host primary path script r

end Graft.Integration
