import Graft.Model.Request

/-
Asking a model, with a bounded number of attempts.

  `Reply`             what one attempt brings;
  `unslept? n`        why one cannot pause for so many seconds;
  `Client`            a model, how often it is asked, and the pause in between;
  `Exchange`          a whole exchange: its result, and every attempt in order;
  `Client.complete`   the exchange about a request, for given replies.

An attempt fails when nothing readable arrives, and is then repeated after a pause as long as attempts
are left.  Other refusals of the model end the exchange at once, and so does a pause that cannot be
made.  The replies are a function of the number of attempts made before, so an exchange depends on
nothing else.
-/
namespace Graft.Model

/-- Why an attempt fails. -/
inductive AttemptError where
  | transport (message : Text)
  | format (message : Text)
  deriving DecidableEq, Repr

def AttemptError.message : AttemptError → Text
  | transport t | format t => t

/-- What one attempt brings, `α` being the kind of its texts. -/
inductive Reply (α : Type) where
  | text (t : α)
  | nothing
  | failed (e : AttemptError)
  -- The model gives up; the flag tells whether after attempts of its own.
  | refused (retried : Bool) (message : Text)
  | unimplemented (message : Text)
  -- Any other error, with the name of its kind.
  | foreign (kind message : Text)
  deriving DecidableEq, Repr

/-- Why an exchange brings no text. -/
inductive Failure where
  | exhausted (model : Text) (attempts : Int) (last : Option AttemptError)
  | refused (retried : Bool) (message : Text)
  | unimplemented (message : Text)
  -- An error that is none of the model.
  | raised (e : Raised)
  deriving DecidableEq, Repr

def Failure.message : Failure → Text
  | exhausted model attempts last =>
    "No completion from ".toList ++ model ++ " after ".toList ++ Text.ofInt attempts ++
      " attempt(s): ".toList ++ (last.map AttemptError.message).getD "None".toList
  | refused _ t | unimplemented t => t
  | raised e => e.message

/-- An attempt that ended the exchange with a text, or failed. -/
structure Attempt where
  number : Nat
  completion : Option Wide
  error : Option AttemptError
  deriving DecidableEq, Repr

/-- The message for an answer that is blank. -/
def emptyMessage : Text := "Model returned an empty completion.".toList

/-- How an attempt ends. -/
inductive Verdict where
  | done (t : Wide)
  -- With an error after which another attempt may follow.
  | again (completion : Option Wide) (e : AttemptError)
  -- With an error that ends the exchange.
  | over (f : Failure)

/-- How an attempt ends that brings a reply. -/
def Reply.verdict : Reply Wide → Verdict
  | .text t => if t.isBlank then .again (some t) (.format emptyMessage) else .done t
  | .nothing => .again none (.format emptyMessage)
  | .failed e => .again none e
  | .refused retried t => .over (.refused retried t)
  | .unimplemented t => .over (.unimplemented t)
  | .foreign kind t => .again none (.transport (kind ++ ": ".toList ++ t))

/-- What attempts bring, from one on. -/
structure Run where
  -- The text, or why there is none.
  result : Except Failure Wide
  -- The attempts that failed or brought the text.
  attempts : List Attempt
  asked : Nat
  -- How often there was a pause between attempts.
  pauses : Nat

/-- A whole exchange. -/
structure Exchange extends Run where
  -- What was sent, unless the request has no payload.
  payload : Option Payload

/-- Puts a failed attempt in front of a run, with a pause between them if another follows. -/
def Run.prepend (a : Attempt) (pause : Bool) (r : Run) : Run :=
  { r with
    attempts := a :: r.attempts
    asked := r.asked + 1
    pauses := if pause then r.pauses + 1 else r.pauses }

/-- Why one cannot pause for so many seconds: the number is undefined, goes beyond 64 bits when it is
told in billionths of a second, or is negative. -/
def unslept? (seconds : Number) : Option Raised :=
  let tooLarge (message : String) : Raised := ⟨"OverflowError".toList, message.toList⟩
  let negative : Raised := ⟨"ValueError".toList, "sleep length must be non-negative".toList⟩
  match seconds with
  | .int n =>
    let billionths := n * 1000000000
    if billionths < -0x8000000000000000 || 0x8000000000000000 ≤ billionths then
      some (tooLarge "timestamp too large to convert to C _PyTime_t")
    else if n < 0 then some negative
    else none
  | .float f =>
    let billionths := f * 1e9
    if f.isNaN then some ⟨"ValueError".toList, "Invalid value NaN (not a number)".toList⟩
    else if !(-9223372036854775808.0 ≤ billionths && billionths < 9223372036854775808.0) then
      some (tooLarge "timestamp out of range for platform time_t")
    else if f < 0 then some negative
    else none

/-- The attempts after `made` earlier ones, `left` of them allowed; `exhausted` tells what to report
when none is left, from the error of the last, and `unslept?` why there can be no pause. -/
def attempts (reply : Nat → Reply Wide) (exhausted : Option AttemptError → Failure)
    (unslept? : Option Raised) (last : Option AttemptError) (made : Nat) : Nat → Run
  | 0 => ⟨.error (exhausted last), [], 0, 0⟩
  | left + 1 =>
    match (reply made).verdict with
    | .done t => ⟨.ok t, [⟨made + 1, some t, none⟩], 1, 0⟩
    | .over f => ⟨.error f, [], 1, 0⟩
    | .again completion e =>
      let attempt : Attempt := ⟨made + 1, completion, some e⟩
      match left, unslept? with
      | _ + 1, some raised => ⟨.error (.raised raised), [attempt], 1, 0⟩
      | _, _ =>
        (attempts reply exhausted unslept? (some e) (made + 1) left).prepend attempt (left != 0)

/-- A model, how often it is asked, and the pause in between. -/
structure Client where
  model : Text
  -- The number of attempts; at least one is made.
  maxAttempts : Int := 3
  -- How many seconds to pause after an attempt that failed.
  retryDelay : Number := .float 0.5

/-- How many attempts a request is given: its own number unless that is zero. -/
def Client.limit (c : Client) (r : Request) : Int :=
  match r.maxAttempts with
  | some n => if n = 0 then max 1 c.maxAttempts else n
  | none => max 1 c.maxAttempts

/-- The exchange about a request, for given replies. -/
def Client.complete (c : Client) (reply : Nat → Reply Wide) (r : Request) : Exchange :=
  match r.payload? c.model with
  | .error e => ⟨⟨.error (.raised e), [], 0, 0⟩, none⟩
  | .ok payload =>
    let limit := c.limit r
    ⟨attempts reply (.exhausted payload.model limit) (unslept? c.retryDelay) none 0 limit.toNat,
      some payload⟩

end Graft.Model
