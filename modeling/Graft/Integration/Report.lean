import Graft.Layout
import Graft.Registration.Host
import Graft.Response.Artifacts

/-
What an integration reports.

  `State`      the stages of an integration;
  `Issue`      what went wrong without ending it;
  `Options`    what the caller asks for;
  `Report`     what was reached, written and left undone;
  `Outcome`    a report, or a fault, with the notices and the workspace afterwards.
-/
namespace Graft.Integration

/-- A stage of an integration. -/
inductive State where
  | start
  | generated
  | parsed
  -- The artifacts have been written, as far as possible.
  | staged
  | located
  | patched
  | done
  | failed
  deriving DecidableEq, Repr

def State.name : State → Text
  | start => "start".toList
  | generated => "generated".toList
  | parsed => "parsed".toList
  | staged => "staged".toList
  | located => "located".toList
  | patched => "patched".toList
  | done => "done".toList
  | failed => "failed".toList

/-- The kind of an issue. -/
inductive IssueCode where
  | writeFailed
  | targetMissing
  | grammarMismatch
  | primaryUnavailable
  deriving DecidableEq, Repr

/-- The name of a kind of issue. -/
def IssueCode.name : IssueCode → Text
  | writeFailed => "artifact_write_failed".toList
  | targetMissing => "integration_target_missing".toList
  | grammarMismatch => "patch_grammar_mismatch".toList
  | primaryUnavailable => "primary_unavailable".toList

/-- What went wrong without ending the integration. -/
structure Issue where
  code : IssueCode
  message : Text
  -- The path it is about, if any.
  path : Option Text := none
  deriving DecidableEq, Repr

/-- What the caller asks for. -/
structure Options where
  name : Text := []
  prompt : Text := []
  hints : Hints := {}
  -- Whether the root template is to show the component.
  usageMarker : Bool := false
  tagPrefix : Text := Name.defaultPrefix
  framework : Text := []
  deriving DecidableEq, Repr

/-- What was reached, written and left undone. -/
structure Report where
  -- The stage that was reached last.
  state : State := .start
  -- The stages that were reached, in order.
  visited : List State := [.start]
  artifacts : List Artifact := []
  staged : List Staging.Staged := []
  layout : Option Layout := none
  -- The first artifact that was written completely.
  primary : Option Staging.Staged := none
  host : Option Text := none
  registered : Option Registration.Registered := none
  -- The template that shows the component since.
  usageMarker : Option Text := none
  warnings : List Issue := []
  failure : Option Wide := none

namespace Report

def succeeded (r : Report) : Bool := r.state != .failed

/-- Whether the integration came to its end and the host names the class. -/
def integrated (r : Report) : Bool := r.state == .done && r.visited.contains .patched

def files (r : Report) : List Staging.StagedFile := r.staged.flatMap fun s => s.files

def written (r : Report) : List Staging.StagedFile := r.files.filter fun f => f.ok

/-- The artifacts of other components that were written; they are left for the caller to wire. -/
def unwired (r : Report) : List Staging.Staged :=
  let primary := r.primary.map fun s => s.artifact.id
  r.staged.filter fun s => s.ok && some s.artifact.id != primary

/-- The report once a stage is reached. -/
def reach (r : Report) (s : State) : Report := { r with state := s, visited := r.visited ++ [s] }

def warn (r : Report) (code : IssueCode) (message : Text) (path : Option Text := none) : Report :=
  { r with warnings := r.warnings ++ [⟨code, message, path⟩] }

def fail (r : Report) (reason : Wide) : Report := { r with failure := some reason }.reach .failed

end Report

/-- What comes of an integration. -/
structure Outcome where
  -- The report, or the fault that took its place.
  report : Except Fault Report
  notices : List Registration.Notice
  workspace : Workspace

end Graft.Integration
