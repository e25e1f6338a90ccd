import Graft.Model.Gemini.Http
import Graft.Proofs.Model.Course

/-
What an exchange with Gemini comes to.

* `Answers n raw t` — the answer in a reply, for values that nest up to `n` levels: all of it, or what the
  first candidate says that is not blank;
* `verdict_textReply_done_iff` — a reply ends an exchange with its answer, and with nothing else;
* `Delivery.verdict_ne_over` — no behaviour of a transport ends an exchange without a text;
* `TwoOutcomes g q payload brings e` — an exchange that ends with the first answer, or else with the report
  that all attempts have failed;
* `Ended g q payload brings e` — one that does, unless a pause cannot be made;
* `complete_twoOutcomes` — **every exchange about a request with a payload ends so, over a transport of one's
  own and over HTTP**.

Design notes: what the attempts bring is a relation between their numbers and the replies that arrive as text,
so that the two ways of transport differ in nothing else.
-/
namespace Graft.Gemini

open Model

variable {nesting : Option Nat} {raw t : Wide} {d : Delivery}

/-! ### The answer in a reply -/

/-- What a candidate says: the texts of its parts, in order. -/
def spoken (candidate : Json) : Wide :=
  match (candidate.member? "content".toList).bind (Json.member? "parts".toList) with
  | some (.arr parts) => (partTexts parts).flatten
  | _ => []

/-- The answer in a reply. -/
inductive Answers (nesting : Option Nat) (raw : Wide) : Wide → Prop
  -- The reply is no JSON text.
  | whole {reason : Json.Reason} {line column offset : Nat}
      (read : Json.read nesting raw = .error (.malformed reason line column offset))
      (speaks : ∃ p ∈ raw, ¬ Blank p) : Answers nesting raw raw
  -- It is one, and the candidates before this one say nothing.
  | spoken {v candidate : Json} {before after : List Json} (read : Json.read nesting raw = .ok v)
      (candidates : v.member? "candidates".toList = some (.arr (before ++ candidate :: after)))
      (silent : ∀ other ∈ before, ∀ p ∈ spoken other, Blank p)
      (speaks : ∃ p ∈ spoken candidate, ¬ Blank p) : Answers nesting raw (spoken candidate)

/-- An answer is not blank. -/
theorem Answers.speaks (h : Answers nesting raw t) : ∃ p ∈ t, ¬ Blank p := by
  cases h with
  | whole _ speaks => exact speaks
  | spoken _ _ _ speaks => exact speaks

theorem candidateText?_eq (candidate : Json) : candidateText? candidate =
    if (spoken candidate).isBlank then none else some (spoken candidate) := by
  unfold candidateText? spoken
  generalize (candidate.member? "content".toList).bind (Json.member? "parts".toList) = parts
  cases parts with
  | none => rfl
  | some v =>
    cases v with
    | arr parts => rfl
    | null | bool _ | num _ | str _ | obj _ => rfl

/-- The text of a candidate is what it says, unless that is blank. -/
theorem candidateText?_eq_some_iff {candidate : Json} : candidateText? candidate = some t ↔
    spoken candidate = t ∧ (spoken candidate).isBlank = false := by
  rw [candidateText?_eq]
  split
  next h => simp [h]
  next h => simp [h]

theorem candidateText?_eq_none_iff {candidate : Json} :
    candidateText? candidate = none ↔ (spoken candidate).isBlank = true := by
  rw [candidateText?_eq]
  split
  next h => simp [h]
  next h => simp [h]

/-- The text in a value is that of the first candidate that has one. -/
theorem valueText?_eq_some_iff {v : Json} : valueText? v = some t ↔
    ∃ before candidate after,
      v.member? "candidates".toList = some (.arr (before ++ candidate :: after)) ∧
      (∀ other ∈ before, candidateText? other = none) ∧ candidateText? candidate = some t := by
  unfold valueText?
  constructor
  · intro h
    split at h
    next candidates hcandidates =>
      obtain ⟨before, candidate, after, rfl, htext, hbefore⟩ := List.findSome?_eq_some_iff.mp h
      exact ⟨before, candidate, after, hcandidates, hbefore, htext⟩
    next => cases h
  · rintro ⟨before, candidate, after, hcandidates, hbefore, htext⟩
    rw [hcandidates]
    exact List.findSome?_eq_some_iff.mpr ⟨before, candidate, after, rfl, htext, hbefore⟩

theorem textReply_eq_text_iff : textReply nesting raw = .text t ↔ answer? nesting raw = .ok (some t) := by
  rw [textReply]
  split <;> simp_all

/-- The text in a reply is that in its value, or all of a reply that is no JSON text. -/
theorem answer?_eq_some_iff : answer? nesting raw = .ok (some t) ↔
    (∃ v, Json.read nesting raw = .ok v ∧ valueText? v = some t) ∨
      ((∃ reason line column offset, Json.read nesting raw = .error (.malformed reason line column offset)) ∧
        raw ≠ [] ∧ raw = t) := by
  cases raw with
  | nil =>
    have hread : ∀ v, Json.read nesting [] ≠ .ok v := fun v h => by cases h
    simp [answer?, hread]
  | cons c cs =>
    rw [answer?, List.isEmpty_cons, if_neg Bool.false_ne_true]
    cases hread : Json.read nesting (c :: cs) with
    | ok v => simp
    | error e =>
      cases e with
      | malformed reason line column offset => simp
      | tooManyDigits count => simp
      | tooDeep object => simp

/-- **A reply ends an exchange with its answer, and with no other text.** -/
theorem verdict_textReply_done_iff : (textReply nesting raw).verdict = .done t ↔ Answers nesting raw t := by
  rw [Reply.verdict_done_iff, not_isBlank_iff, textReply_eq_text_iff, answer?_eq_some_iff]
  constructor
  · rintro ⟨⟨v, hread, htext⟩ | ⟨⟨reason, line, column, offset, hread⟩, -, rfl⟩, hspeaks⟩
    · obtain ⟨before, candidate, after, hcandidates, hbefore, hcandidate⟩ :=
        valueText?_eq_some_iff.mp htext
      obtain ⟨rfl, -⟩ := candidateText?_eq_some_iff.mp hcandidate
      refine .spoken hread hcandidates (fun other hother => ?_) hspeaks
      exact isBlank_iff.mp (candidateText?_eq_none_iff.mp (hbefore other hother))
    · exact .whole hread hspeaks
  · intro h
    refine ⟨?_, h.speaks⟩
    cases h with
    | whole hread hspeaks =>
      refine .inr ⟨⟨_, _, _, _, hread⟩, ?_, rfl⟩
      rintro rfl
      obtain ⟨p, hp, -⟩ := hspeaks
      cases hp
    | spoken hread hcandidates hsilent hspeaks =>
      refine .inl ⟨_, hread, valueText?_eq_some_iff.mpr ⟨_, _, _, hcandidates, ?_, ?_⟩⟩
      · exact fun other hother => candidateText?_eq_none_iff.mpr (isBlank_iff.mpr (hsilent other hother))
      · exact candidateText?_eq_some_iff.mpr ⟨rfl, not_isBlank_iff.mpr hspeaks⟩

/-! ### What a transport brings -/

/-- A text never ends an exchange without an answer. -/
theorem verdict_textReply_ne_over (raw : Wide) (f : Failure) :
    (textReply nesting raw).verdict ≠ .over f := by
  rw [Ne, Reply.verdict_over_iff, textReply]
  split <;> simp

/-- **No behaviour of a transport ends an exchange without an answer**: attempts are left to others. -/
theorem Delivery.verdict_ne_over (d : Delivery) (f : Failure) : (d.reply nesting).verdict ≠ .over f := by
  cases d with
  | text raw => exact verdict_textReply_ne_over raw f
  | nothing =>
    rw [reply]
    exact verdict_textReply_ne_over [] f
  | failed message | rejected message => simp [reply, Reply.verdict]

/-- What ends an exchange is the answer in a reply that arrives as text. -/
theorem Delivery.verdict_done_iff :
    (d.reply nesting).verdict = .done t ↔ ∃ raw, d = .text raw ∧ Answers nesting raw t := by
  cases d with
  | text raw => simp [reply, verdict_textReply_done_iff]
  | nothing =>
    have hnone : textReply nesting [] = .failed (.format noTextMessage) := rfl
    simp [reply, hnone, Reply.verdict]
  | failed message | rejected message => simp [reply, Reply.verdict]

/-- An attempt fails when no reply arrives that has an answer. -/
theorem Delivery.fails_iff :
    (d.reply nesting).Fails ↔ ∀ raw t, d = .text raw → ¬ Answers nesting raw t := by
  constructor
  · rintro hfails raw t rfl hanswer
    exact Reply.not_fails_of_done (verdict_done_iff.mpr ⟨raw, rfl, hanswer⟩) hfails
  · intro hnone
    by_contra hnot
    rcases Reply.not_fails hnot with ⟨t, hdone⟩ | ⟨f, hover⟩
    · obtain ⟨raw, hraw, hanswer⟩ := verdict_done_iff.mp hdone
      exact hnone raw t hraw hanswer
    · exact d.verdict_ne_over f hover

theorem Delivery.ofTransport_eq_text_iff {r : Reply Wide} : ofTransport r = .text raw ↔ r = .text raw := by
  cases r with
  | failed e => cases e <;> simp [ofTransport]
  | text _ | nothing | refused _ _ | unimplemented _ | foreign _ _ => simp [ofTransport]

/-- Over HTTP a reply arrives in a response without an error, whose body can be decoded. -/
theorem HttpOutcome.delivery_eq_text_iff {o : HttpOutcome} : o.delivery = .text raw ↔
    ∃ status body u, o = .response status body ∧ status.getD 200 < 400 ∧ Utf8.decode body = .ok u ∧
      raw = Text.wide u := by
  cases o with
  | refused status body | unreachable reason | timedOut | broken message => simp [delivery]
  | response status body =>
    simp only [delivery, response.injEq]
    by_cases herror : 400 ≤ status.getD 200
    · rw [if_pos herror]
      simp only [reduceCtorEq, false_iff]
      rintro ⟨_, _, _, ⟨rfl, -⟩, hlt, -⟩
      omega
    · rw [if_neg herror]
      cases hdecode : Utf8.decode body with
      | error f =>
        simp only [reduceCtorEq, false_iff]
        rintro ⟨_, _, _, ⟨-, rfl⟩, -, hok, -⟩
        rw [hdecode] at hok
        cases hok
      | ok t =>
        simp only [Delivery.text.injEq]
        constructor
        · rintro rfl
          exact ⟨status, body, t, ⟨rfl, rfl⟩, by omega, hdecode, rfl⟩
        · rintro ⟨_, _, u, ⟨-, rfl⟩, -, hok, rfl⟩
          rw [Except.ok.inj (hdecode.symm.trans hok)]

/-! ### Exchanges -/

/-- The outcomes that an exchange has, where `brings k raw` tells that a reply arrives as the text `raw` after
`k` attempts. -/
inductive TwoOutcomes (g : Gemini) (q : Request) (payload : Payload) (brings : Nat → Wide → Prop)
    (e : Exchange) : Prop
  -- The exchange ends with the answer in the reply of its last attempt, the first that has one.
  | answered {k : Nat} {raw t : Wide} (allowed : (k : Int) < g.client.limit q)
      (brought : brings k raw) (answer : Answers g.nesting raw t)
      (earlier : ∀ i < k, ∀ raw t, brings i raw → ¬ Answers g.nesting raw t)
      (result : e.result = .ok t) (asked : e.asked = k + 1)
  -- No reply has an answer, and that is reported after all attempts.
  | exhausted {cause : Option AttemptError}
      (unanswered : ∀ k : Nat, (k : Int) < g.client.limit q →
        ∀ raw t, brings k raw → ¬ Answers g.nesting raw t)
      (result : e.result = .error (.exhausted payload.model (g.client.limit q) cause))
      (asked : e.asked = (g.client.limit q).toNat)

/-- An exchange that has one of these outcomes, unless a pause cannot be made. -/
structure Ended (g : Gemini) (q : Request) (payload : Payload) (brings : Nat → Wide → Prop)
    (e : Exchange) : Prop where
  paused (h : unslept? g.retryDelay = none ∨ g.client.limit q ≤ 1) : TwoOutcomes g q payload brings e
  -- The pause ends the exchange where the first attempt had no answer.
  unpaused {raised : Raised} (h : unslept? g.retryDelay = some raised) :
    TwoOutcomes g q payload brings e ∨ (∀ raw t, brings 0 raw → ¬ Answers g.nesting raw t) ∧
      e.result = .error (.raised raised) ∧ e.asked = 1

/-- An exchange without a pause that cannot be made has these outcomes when each of its attempts fails, or ends
with an answer. -/
theorem twoOutcomes_of_pausing {g : Gemini} {q : Request} {payload : Payload} {brings : Nat → Wide → Prop}
    {deliveries : Nat → Delivery} (hpayload : q.payload? g.model = .ok payload)
    (h : ∀ k raw, brings k raw ↔ deliveries k = .text raw)
    (hpausing : Pausing (unslept? g.retryDelay) (fun k => (deliveries k).reply g.nesting)
      (g.client.limit q).toNat) :
    TwoOutcomes g q payload brings (g.client.complete (fun k => (deliveries k).reply g.nesting) q) := by
  have hfails (k : Nat) : ((deliveries k).reply g.nesting).Fails ↔
      ∀ raw t, brings k raw → ¬ Answers g.nesting raw t := by
    simp only [Delivery.fails_iff, h]
  rw [Client.complete_of_payload (c := g.client) hpayload,
    show g.client.retryDelay = g.retryDelay from rfl, hpausing.attempts_eq]
  rcases fails_or_first (fun k => (deliveries k).reply g.nesting) (g.client.limit q).toNat with
    hall | ⟨k, hk, hearlier, hnot⟩
  · rw [attempts_exhausted hall]
    exact .exhausted (fun k hk => (hfails k).mp (hall k (Int.lt_toNat.mpr hk))) rfl rfl
  · rcases Reply.not_fails hnot with ⟨t, hdone⟩ | ⟨f, hover⟩
    · obtain ⟨raw, hraw, hanswer⟩ := Delivery.verdict_done_iff.mp hdone
      rw [attempts_done hk hearlier hdone]
      exact .answered (Int.lt_toNat.mp hk) ((h k raw).mpr hraw) hanswer
        (fun i hi => (hfails i).mp (hearlier i hi)) rfl rfl
    · exact absurd hover ((deliveries k).verdict_ne_over f)

/-- Every exchange ends so when each of its attempts fails, or ends with an answer. -/
theorem ended_of_deliveries {g : Gemini} {q : Request} {payload : Payload} {brings : Nat → Wide → Prop}
    {deliveries : Nat → Delivery} (hpayload : q.payload? g.model = .ok payload)
    (h : ∀ k raw, brings k raw ↔ deliveries k = .text raw) :
    Ended g q payload brings (g.client.complete (fun k => (deliveries k).reply g.nesting) q) where
  paused hpaused := by
    refine twoOutcomes_of_pausing hpayload h ?_
    rcases hpaused with hnone | hone
    · exact .inl hnone
    · exact .inr (.inl (by omega))
  unpaused {raised} hraised := by
    rcases pausing_or_raised (unslept? g.retryDelay) (fun k => (deliveries k).reply g.nesting)
      (g.client.limit q).toNat with hpausing | ⟨e, he, htwo, hfails⟩
    · exact .inl (twoOutcomes_of_pausing hpayload h hpausing)
    · have hsent : g.client.complete (fun k => (deliveries k).reply g.nesting) q = _ :=
        Client.complete_raised hpayload (by omega) hraised hfails
      simp only [Delivery.fails_iff, ← h] at hfails
      exact .inr ⟨hfails, by rw [hsent], by rw [hsent]⟩

/-- A reply that arrives over HTTP, for a payload that can be sent. -/
def Carries (g : Gemini) (payload : Payload) (http : Nat → HttpOutcome) (k : Nat) (raw : Wide) : Prop :=
  (∃ sent, g.httpRequest payload = .ok sent) ∧
    ∃ status body u, http k = .response status body ∧ status.getD 200 < 400 ∧
      Utf8.decode body = .ok u ∧ raw = Text.wide u

/-- A transport that fails, and then brings a text. -/
def recovering : Nat → Reply Wide
  | 0 => .foreign "OSError".toList "lost".toList
  | _ => .text (Text.wide "x".toList)

end Graft.Gemini

