import Graft.Command.Arguments
import Graft.Command.Summary
import Graft.Integration.Run
import Graft.Model.Gemini.Http
import Graft.Model.Offline
import Graft.Settings
import Graft.Text.Styled

/-
Carrying out a command.

  `Session`                 the disk, the current directory, and what the machine provides;
  `Command.Generator`       the model that answers;
  `Command.Effect`          what a command printed, changed and asked for;
  `Session.run s http c`    the effect of a command;
  `Session.answer s http a` the effect of a command line.

The settings are read first, then the response, and the disk changes only when artifacts are
integrated.  What HTTP brings is a function of the number of requests made before.
-/
namespace Graft

/-- What a command finds around it. -/
structure Session where
  disk : Tree
  directory : Location
  -- How documents of settings are read.
  yaml : Yaml.Reader
  -- The key that the environment holds for requests.
  key : Option Text := none
  limits : Limits := {}

namespace Command

/-- How a command ends. -/
inductive Status where
  -- It has done what was asked for.
  | done
  | failed
  | misused
  deriving DecidableEq, Repr

def Status.code : Status → Nat
  | done => 0
  | failed => 1
  | misused => 2

/-- What a command printed, changed and asked for. -/
structure Effect where
  status : Status
  lines : List Text := []
  fault : Option Fault := none
  disk : Tree
  requests : List Gemini.HttpRequest := []
  pauses : Nat := 0

/-- What was printed, for an output that shows no styling. -/
def Effect.output (e : Effect) : Text := Text.unstyled (e.lines.flatMap fun l => l ++ ['\n'])

/-- Why a command ends early. -/
inductive Stop where
  | said (message : Text)
  | fault (f : Fault)

/-- The effect of an early end, after some lines. -/
def Stop.effect (lines : List Text) (disk : Tree) : Stop → Effect
  | said message => { status := .failed, lines := lines ++ [message], disk }
  | fault f => { status := .failed, lines, fault := some f, disk }

/-- The model that answers. -/
inductive Generator where
  | offline
  -- A model that is asked over HTTP.
  | gemini (g : Gemini)

/-- Whether a name is that of a model that needs no network. -/
def isOfflineName (model : Text) : Bool :=
  let name := Text.lowercase model
  name == "offline".toList || Text.endsWith "-offline".toList name

def geminiOf (m : ModelSettings) (nesting : Option Nat) : Gemini :=
  let given (t : Option Text) := Text.nonEmpty (t.map Text.stripped)
  let d : Gemini := {}
  { model := m.model, apiKey := given m.apiKey, baseUrl := (given m.baseUrl).getD d.baseUrl,
    timeout := .float m.timeout, maxAttempts := m.maxAttempts, retryDelay := .float m.retryDelay,
    nesting }

/-- The message for requests that nothing authorises. -/
def noKeyMessage : Text :=
  "No API key given. Set GEMINI_API_KEY or models.api_key, ".toList ++
    "or re-run with --no-use-remote to use the offline stub.".toList

/-- The model that answers, with what is said about the choice. -/
def Generator.choose (m : ModelSettings) (nesting : Option Nat) (remote : Bool) (key : Option Text) :
    Text × Except Stop Generator :=
  if !remote then ("Using offline stub client.".toList, .ok .offline)
  else if isOfflineName m.model then
    ("Model '".toList ++ m.model ++ "' is offline-only; using offline stub client.".toList,
      .ok .offline)
  else
    ("Using Gemini client (".toList ++ m.model ++ ").".toList,
      match (geminiOf m nesting).withKey? key with
      | some g => .ok (.gemini g)
      | none => .error (.said noKeyMessage))

def Generator.complete (http : Nat → Gemini.HttpOutcome) (r : Model.Request) :
    Generator → Model.Exchange
  | offline => Offline.exchange r
  | gemini g => g.overHttp http r

/-- The requests over HTTP that an exchange took. -/
def Generator.requests (e : Model.Exchange) : Generator → List Gemini.HttpRequest
  | offline => []
  | gemini g => g.sent e

def options (s : Settings) (t : Target) (name prompt : Text) : Integration.Options where
  name := name
  prompt := prompt
  hints := t.hints
  usageMarker := t.usageMarker.getD s.integration.usageMarker
  tagPrefix := s.integration.tagPrefix
  framework := s.generation.framework

/-- The effect of an integration, after some lines.  The last line of a summary may be one that cannot
be printed. -/
def ofOutcome (lines : List Text) (o : Integration.Outcome) : Effect :=
  match o.report with
  | .error f => (Stop.fault f).effect lines o.workspace.disk
  | .ok r =>
    let lines := lines ++ r.summary
    match r.outcomeLine.toText with
    | .error u => (Stop.fault (.unencodable u)).effect lines o.workspace.disk
    | .ok last =>
      { status := if r.succeeded then .done else .failed, lines := lines ++ [last],
        disk := o.workspace.disk }

def helpLines : List Text :=
  ["Usage: prototyper COMMAND [OPTIONS]", "",
   "  generate NAME -p PROMPT   Generate a component and integrate it into the workspace.",
   "  integrate RESPONSE_FILE   Integrate a saved model response.",
   "  parse RESPONSE_FILE       List the artifacts of a saved model response."].map String.toList

end Command

namespace Session

open Command

def settings (s : Session) (path : Text) : Except Stop Settings :=
  match Settings.read s.yaml s.limits s.disk s.directory path with
  | .ok settings => .ok settings
  | .error (.problem p) => .error (.said p.message)
  | .error (.fault f) => .error (.fault f)

def response (s : Session) (path : Text) : Except Stop Text :=
  let path := Path.tidy path
  if path.contains '\x00' then .error (.fault .nul)
  else
    match s.disk.lookUp s.limits s.directory path with
    | .error o =>
      .error (.said ("Failed to read response file ".toList ++ path ++ ": ".toList ++
        Refusal.message ⟨o, path⟩))
    | .ok octets =>
      match Utf8.decode octets with
      | .error f => .error (.fault (.undecodable f))
      | .ok t => .ok (Text.unixNewlines t)

def workspace (s : Session) (t : Target) : Workspace :=
  ⟨Path.locate s.directory t.root, s.disk, s.limits⟩

def generate (s : Session) (http : Nat → Gemini.HttpOutcome) (name prompt : Text) (remote : Bool)
    (t : Target) : Effect :=
  match s.settings t.settings with
  | .error stop => stop.effect [] s.disk
  | .ok settings =>
    match Generator.choose settings.models s.limits.nesting remote s.key with
    | (line, .error stop) => stop.effect [line] s.disk
    | (line, .ok generator) =>
      let o := options settings t name prompt
      let e := generator.complete http (Integration.request o)
      { ofOutcome [line] (Integration.ofExchange s.directory (s.workspace t) o e) with
        requests := generator.requests e, pauses := e.pauses }

def integrate (s : Session) (path : Text) (t : Target) : Effect :=
  match s.settings t.settings with
  | .error stop => stop.effect [] s.disk
  | .ok settings =>
    match s.response path with
    | .error stop => stop.effect [] s.disk
    | .ok raw =>
      let o := options settings t [] []
      ofOutcome [] (Integration.integrate s.directory (s.workspace t) o raw)

def parse (s : Session) (path : Text) : Effect :=
  match s.response path with
  | .error stop => stop.effect [] s.disk
  | .ok raw =>
    match Response.parse? raw with
    | none => (Stop.said Response.emptyMessage).effect [] s.disk
    | some as => { status := .done, lines := Artifact.listing as, disk := s.disk }

def run (s : Session) (http : Nat → Gemini.HttpOutcome) : Command → Effect
  | .help => { status := .done, lines := helpLines, disk := s.disk }
  | .generate name prompt remote t => s.generate http name prompt remote t
  | .integrate path t => s.integrate path t
  | .parse path => s.parse path

def answer (s : Session) (http : Nat → Gemini.HttpOutcome) (arguments : List Text) : Effect :=
  match Command.ofArguments arguments with
  | .ok c => s.run http c
  | .error .usage => { status := .misused, disk := s.disk }
  | .error (.fault f) => (Stop.fault f).effect [] s.disk

end Session
end Graft
