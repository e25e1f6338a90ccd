import Graft.Integration.Wire
import Graft.Model.Retry
import Graft.Prompt

/-
A whole integration.

  `proceed base w o r raw`      a response parsed, staged and wired, in front of a report;
  `integrate base w o raw`      a response that is at hand, integrated;
  `integrateWide s base w o t`  the same for one that may hold surrogates;
  `request o`                   the request for a component;
  `run base w o client reply`   a component asked for and integrated.

Nothing is written before the response has been parsed and the project located.  What becomes of a
response with surrogates is a parameter: only texts are looked into.
-/
namespace Graft.Integration

open Staging

/-- The report once artifacts have been written. -/
def staged (r : Report) (layout : Layout) (files : List Staged) : Report :=
  let r := { r with layout := some layout, staged := files }
  let issues := (r.files.filter fun f => !f.ok).map fun f =>
    { code := IssueCode.writeFailed, message := (f.error?).getD [], path := some f.path : Issue }
  let r := { r with warnings := r.warnings ++ issues }.reach .staged
  { r with primary := files.find? fun s => s.ok, host := layout.host }.reach .located

/-- Stages and wires the artifacts of a response. -/
def place (base : Location) (w : Workspace) (o : Options) (r : Report) : Outcome :=
  match Layout.find w o.hints with
  | .error (.fault f) => ⟨.error f, [], w⟩
  | .error (.problem p) => ⟨.ok (r.fail p.message), [], w⟩
  | .ok layout =>
    match stage layout.sourceRoot r.artifacts w with
    | (.error f, w) => ⟨.error f, [], w⟩
    | (.ok files, w) => wire base w o layout (staged r layout files)

/-- Goes on with a response once it has been generated. -/
def proceed (base : Location) (w : Workspace) (o : Options) (r : Report) (raw : Text) : Outcome :=
  match Response.parse? raw with
  | none => ⟨.ok (r.fail Response.emptyMessage), [], w⟩
  | some artifacts => place base w o ({ r with artifacts }.reach .parsed)

/-- Integrates a response, seen from the directory `base`. -/
def integrate (base : Location) (w : Workspace) (o : Options) (raw : Text) : Outcome :=
  proceed base w o (({} : Report).reach .generated) raw

/-- What becomes of a response that is no text, in front of a report. -/
abbrev Strange := Workspace → Options → Report → Wide → Outcome

/-- A response that is no text is given up. -/
def untold : Strange := fun w _ _ raw => ⟨.error (.untold raw), [], w⟩

/-- Goes on with a response that may hold surrogates, once it has been generated. -/
def proceedWide (strange : Strange) (base : Location) (w : Workspace) (o : Options) (r : Report)
    (raw : Wide) : Outcome :=
  match raw.toText with
  | .ok t => proceed base w o r t
  | .error _ => strange w o r raw

/-- Integrates a response that may hold surrogates. -/
def integrateWide (strange : Strange) (base : Location) (w : Workspace) (o : Options) (raw : Wide) :
    Outcome :=
  proceedWide strange base w o (({} : Report).reach .generated) raw

/-- The request for the component that the options describe. -/
def request (o : Options) : Model.Request :=
  { prompt := Prompt.render Prompt.template o.name o.prompt o.framework
    metadata := [("component".toList, .text o.name)] }

/-- Integrates what an exchange with a model brought. -/
def ofExchangeWith (strange : Strange) (base : Location) (w : Workspace) (o : Options)
    (e : Model.Exchange) : Outcome :=
  let r : Report := {}
  match e.result with
  | .ok raw => proceedWide strange base w o (r.reach .generated) raw
  | .error (.unimplemented message) => ⟨.error (.unimplemented message), [], w⟩
  | .error (.raised e) => ⟨.error (.raised e), [], w⟩
  | .error f => ⟨.ok (r.fail ("Generation failed: ".toList ++ f.message)), [], w⟩

/-- Asks a model for a component and integrates it. -/
def runWith (strange : Strange) (base : Location) (w : Workspace) (o : Options)
    (client : Model.Client) (reply : Nat → Model.Reply Wide) : Outcome :=
  ofExchangeWith strange base w o (client.complete reply (request o))

def ofExchange (base : Location) (w : Workspace) (o : Options) (e : Model.Exchange) : Outcome :=
  ofExchangeWith untold base w o e

def run (base : Location) (w : Workspace) (o : Options) (client : Model.Client)
    (reply : Nat → Model.Reply Wide) : Outcome :=
  runWith untold base w o client reply

/-- What comes of a run without a model. -/
def withoutModel (w : Workspace) : Outcome :=
  ⟨.ok (({} : Report).fail "No generation client configured.".toList), [], w⟩

end Graft.Integration
