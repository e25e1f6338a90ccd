import Graft.Integration.Report

/-
What is printed about artifacts and integrations, line by line.

  `Artifact.listing as`             the artifacts of a response, with the length of every text;
  `Integration.Report.summary r`    what an integration wrote, registered and left undone, up to
                                    the last line;
  `Integration.Report.outcomeLine r`
                                    the last line, which may tell of a surrogate in the manifest.
-/
namespace Graft

def Artifact.lines (a : Artifact) : List Text :=
  ("- ".toList ++ a.id ++ " (".toList ++ a.path ++ ")".toList) ::
    a.files.map fun f =>
      "    ".toList ++ f.2.1.name ++ ": ".toList ++ f.1 ++ " (".toList ++
        Text.decimal f.2.2.length ++ " chars)".toList

def Artifact.listing (as : List Artifact) : List Text :=
  ("Found ".toList ++ Text.decimal as.length ++ " artifact(s):".toList) ::
    as.flatMap Artifact.lines

def Staging.StagedFile.line (f : Staging.StagedFile) : Text :=
  match f.error? with
  | some e => "- Failed: ".toList ++ f.path ++ " :: ".toList ++ e
  | none => (if f.created then "- Created: " else "- Overwrote: ").toList ++ f.path

def Registration.Registered.phrase (g : Registration.Registered) : Text :=
  if g.changed then
    "registered in ".toList ++ g.path ++ " (".toList ++ g.role.property ++ ")".toList
  else g.path ++ " already references the component".toList

namespace Integration

def Issue.line (i : Issue) : Text :=
  let place := (Text.nonEmpty i.path).map fun p => " [".toList ++ p ++ "]".toList
  "  - ".toList ++ i.code.name ++ ": ".toList ++ i.message ++ place.getD []

namespace Report

/-- What is said about the host, unless the integration failed before it came to that. -/
def hostPhrase? (r : Report) : Option Text :=
  match r.registered with
  | some g => some g.phrase
  | none =>
    if r.succeeded then
      let reason := (r.warnings.getLast?.map Issue.message).getD "not attempted".toList
      some ("skipped (".toList ++ reason ++ ")".toList)
    else none

/-- What is said about the integration as a whole. -/
def outcomePhrase (r : Report) : Wide :=
  if !r.succeeded then
    Text.wide "failed (".toList ++ r.failure.getD "None".toList ++ Text.wide ")".toList
  else if r.warnings.isEmpty then "success".toList
  else "partial".toList

/-- The last line of a summary. -/
def outcomeLine (r : Report) : Wide := Text.wide "Outcome: ".toList ++ r.outcomePhrase

/-- The lines of a summary before the last. -/
def summary (r : Report) : List Text :=
  ["Integration summary:".toList,
   "- Artifacts parsed: ".toList ++ Text.decimal r.artifacts.length] ++
  r.files.map Staging.StagedFile.line ++
  (r.hostPhrase?.map fun t => "- Integration: ".toList ++ t).toList ++
  (r.unwired.map fun s => "- Left for manual wiring: ".toList ++ s.artifact.id) ++
  (r.usageMarker.map fun t => "- Usage marker: ".toList ++ t).toList ++
  (if r.warnings.isEmpty then [] else "Warnings:".toList :: r.warnings.map Issue.line)

end Report
end Integration
end Graft
