import Graft.Model.Retry
import Graft.Fault

/-
The model Gemini.

  `Gemini`                  where a client sends its requests, and with what;
  `Gemini.body p`           the body of a request;
  `Gemini.answer? n t`      the text in a response, for values that nest up to `n` levels;
  `Gemini.Delivery`         what a transport brings back;
  `Gemini.Delivery.reply`   the reply that a delivery amounts to;
  `Gemini.overTransport`    the exchange about a request, for given behaviours of a transport.

The answer is that of the first candidate whose text parts, put together, are not blank.  A response
that is no JSON text is an answer itself.  A transport behaves like a model: it brings a text or
nothing, or raises an error of any kind.
-/
namespace Graft

/-- Where a client sends its requests, and with what. -/
structure Gemini where
  model : Text := "gemini-1.5-flash".toList
  apiKey : Option Text := none
  baseUrl : Text := "https://generativelanguage.googleapis.com/v1beta".toList
  -- How many seconds to wait for a response.
  timeout : Number := .float 60
  maxAttempts : Int := 3
  -- How many seconds to pause after an attempt that failed.
  retryDelay : Number := .float 0.5
  -- How many arrays and objects may stand inside each other in a response.
  nesting : Option Nat := none

namespace Gemini

/-- The message for a client without a key. -/
def keyMessage : Text := "An API key is required when using the default transport.".toList

/-- The client with a key: its own, or else that of the environment. -/
def withKey? (g : Gemini) (environment : Option Text) : Option Gemini :=
  ((Text.nonEmpty g.apiKey).or (Text.nonEmpty environment)).map fun k =>
    { g with apiKey := some k }

def client (g : Gemini) : Model.Client := ⟨g.model, g.maxAttempts, g.retryDelay⟩

def url (g : Gemini) (model : Text) : Text :=
  Text.trimRight Path.isSlash g.baseUrl ++ "/models/".toList ++ model ++
    ":generateContent".toList

/-- The model that a payload is sent to. -/
def modelOf (g : Gemini) (p : Model.Payload) : Text :=
  if p.model.isEmpty then g.model else p.model

/-- A text as the only part of a content. -/
def partsOf (t : Wide) : Wide × Json :=
  ("parts".toList, .arr [.obj [("text".toList, .str t)]])

def body (p : Model.Payload) : Json :=
  let contents : Wide × Json :=
    ("contents".toList, .arr [.obj [("role".toList, .str "user".toList), partsOf p.prompt]])
  let system := p.system.map fun t => (Text.wide "systemInstruction".toList, Json.obj [partsOf t])
  let generation := p.temperature.map fun n =>
    (Text.wide "generationConfig".toList, Json.obj [("temperature".toList, .num n)])
  .obj (contents :: (system.toList ++ generation.toList))

/-- What a transport brings back. -/
inductive Delivery where
  | text (t : Wide)
  | nothing
  | failed (message : Text)
  | rejected (message : Text)
  deriving DecidableEq, Repr

def partTexts (parts : List Json) : List Wide :=
  parts.filterMap fun p => (p.member? "text".toList).bind Json.text?

/-- The text of a candidate, unless it is blank. -/
def candidateText? (candidate : Json) : Option Wide :=
  match (candidate.member? "content".toList).bind (Json.member? "parts".toList) with
  | some (.arr parts) =>
    let t := (partTexts parts).flatten
    if Wide.isBlank t then none else some t
  | _ => none

/-- The text in the value of a response. -/
def valueText? (v : Json) : Option Wide :=
  match v.member? "candidates".toList with
  | some (.arr candidates) => candidates.findSome? candidateText?
  | _ => none

def answer? (nesting : Option Nat) (t : Wide) : Except Json.ReadError (Option Wide) :=
  if t.isEmpty then .ok none
  else
    match Json.read nesting t with
    | .ok v => .ok (valueText? v)
    | .error (.malformed ..) => .ok (some t)
    | .error e => .error e

/-- The message for a response without an answer. -/
def noTextMessage : Text := "Gemini response did not contain any candidate text.".toList

/-- The reply that a text amounts to. -/
def textReply (nesting : Option Nat) (t : Wide) : Model.Reply Wide :=
  match answer? nesting t with
  | .ok (some t) => .text t
  | .ok none => .failed (.format noTextMessage)
  | .error (.tooDeep object) =>
    .foreign "RecursionError".toList (Json.ReadError.tooDeep object).message
  | .error e => .foreign "ValueError".toList e.message

/-- The reply that a delivery amounts to. -/
def Delivery.reply (nesting : Option Nat) : Delivery → Model.Reply Wide
  | .text t => textReply nesting t
  | .nothing => textReply nesting []
  | .failed message => .failed (.transport message)
  | .rejected message =>
    .failed (.transport ("Transport rejected the request: ".toList ++ message))

/-- The delivery that the behaviour of a transport amounts to.  Failures of the transport are told as
they are; every other error that it raises is one more way to reject a request. -/
def Delivery.ofTransport : Model.Reply Wide → Delivery
  | .text t => .text t
  | .nothing => .nothing
  | .failed (.transport message) => .failed message
  | .failed (.format message) => .rejected message
  | .refused _ message => .rejected message
  | .unimplemented message => .rejected message
  | .foreign _ message => .rejected message

/-- The exchange about a request, for the behaviours of a transport at the attempts that it takes. -/
def overTransport (g : Gemini) (transport : Nat → Model.Reply Wide) (r : Model.Request) :
    Model.Exchange :=
  g.client.complete (fun n => (Delivery.ofTransport (transport n)).reply g.nesting) r

end Gemini
end Graft
