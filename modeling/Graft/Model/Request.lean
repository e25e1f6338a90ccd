import Graft.Fault
import Graft.Json.Printer

/-
Requests to a model.

  `Metadata`               a value that may accompany a request;
  `Request`                a prompt, with what may accompany it;
  `Payload`                a request made complete for the model that answers it;
  `Request.payload? d r`   the payload of a request, `d` being the model it goes to by default.

Metadata are texts of bounded length; other values are written as compact JSON with sorted keys.
Anything may be given as metadata.  What cannot be written as JSON is known here by the error that
writing it raises, and a request that holds such a value has no payload.  Whatever is empty or zero
is left out of a payload.
-/
namespace Graft.Model

/-- A value that may accompany a request. -/
inductive Metadata where
  | text (t : Wide)
  -- Any other value that can be written as JSON.
  | value (v : Json)
  | unwritable (e : Raised)

/-- A prompt, with what may accompany it. -/
structure Request where
  prompt : Wide
  model : Option Text := none
  system : Option Wide := none
  metadata : Table Metadata := []
  temperature : Number := .int 0
  maxAttempts : Option Int := none

/-- A request made complete. -/
structure Payload where
  model : Text
  prompt : Wide
  system : Option Wide := none
  temperature : Option Number := none
  metadata : Table Wide := []

/-- The greatest length of a text among metadata. -/
def metadataLimit : Nat := 512

/-- A text cut down to the greatest length, dots at its end included. -/
def clipped (t : Wide) : Wide :=
  if t.length ≤ metadataLimit then t else t.take (metadataLimit - 3) ++ Text.wide "...".toList

def Metadata.clip? : Metadata → Except Raised Wide
  | text t => .ok (clipped t)
  | value v => .ok (clipped (Json.print .compact v.sorted))
  | unwritable e => .error e

/-- The metadata of a payload, or the first error of writing one of them. -/
def clipAll? : Table Metadata → Except Raised (Table Wide)
  | [] => .ok []
  | (k, m) :: rest => do
    let t ← m.clip?
    let ts ← clipAll? rest
    return (k, t) :: ts

def Request.payload? (defaultModel : Text) (r : Request) : Except Raised Payload :=
  (clipAll? r.metadata).map fun metadata =>
    { model := (Text.nonEmpty r.model).getD defaultModel
      prompt := r.prompt
      system := r.system.filter fun t => !t.isEmpty
      temperature := if r.temperature.isZero then none else some r.temperature
      metadata }

end Graft.Model
