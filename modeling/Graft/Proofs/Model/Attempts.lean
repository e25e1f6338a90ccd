import Graft.Model.Retry

/-
Exchanges, read off the replies.

An exchange goes on as long as attempts fail.  What ends it is told by the first reply that does not:

* `Reply.Fails r` — an attempt that brings `r` fails, and another may follow;
* `failures reply made k` — what is told of attempts that fail, one after another;
* `attempts_skip` — attempts that failed leave the rest of a run as it is, but for the error told last;
* `attempts_done`, `attempts_over`, `attempts_exhausted` — **the whole run, by what ends it**: a text, a
  model that gives up, or no attempt left;
* `attempts_raised`, `attempts_unpaused` — a pause that cannot be made ends a run after its first attempt,
  unless the run needs no pause;
* `Pausing p reply n` — whether `n` attempts come without such a pause;
* `Client.complete_ok_iff` — **an exchange brings a text exactly when one of the attempts allowed brings
  it, not blank, and all before it fail**;
* `Client.complete_foreign` — attempts that all end with an error of some other kind: the last of these is
  told.

Design notes: what an attempt fails with is a function of its reply alone (`Reply.error?`).  The induction
is on the attempts that failed, for every number of attempts made before, and while one is left behind
them, so that there is a pause after each.  It is made for clients that can pause; the others are told by
their first attempt.
-/
namespace Graft.Model

variable {reply : Nat → Reply Wide} {exhausted : Option AttemptError → Failure} {p : Option Raised}
  {last : Option AttemptError} {made left k : Nat} {t : Wide} {f : Failure} {e : Raised}

/-! ### One reply -/

/-- What an attempt fails with that brings a reply, if another may follow. -/
def Reply.error? (r : Reply Wide) : Option AttemptError :=
  match r.verdict with
  | .again _ e => some e
  | _ => none

/-- Whether an attempt fails that brings a reply, and another may follow. -/
def Reply.Fails (r : Reply Wide) : Prop := r.error?.isSome

instance (r : Reply Wide) : Decidable r.Fails := inferInstanceAs (Decidable (r.error?.isSome = true))

/-- An attempt that does not fail ends the exchange, with a text or without one. -/
theorem Reply.not_fails {r : Reply Wide} (h : ¬ r.Fails) :
    (∃ t, r.verdict = .done t) ∨ ∃ f, r.verdict = .over f := by
  match hv : r.verdict with
  | .done t => exact .inl ⟨t, rfl⟩
  | .over f => exact .inr ⟨f, rfl⟩
  | .again completion e => exact absurd (by simp [Fails, error?, hv]) h

theorem Reply.not_fails_of_done {r : Reply Wide} (h : r.verdict = .done t) : ¬ r.Fails := by
  simp [Fails, error?, h]

theorem Reply.not_fails_of_over {r : Reply Wide} (h : r.verdict = .over f) : ¬ r.Fails := by
  simp [Fails, error?, h]

theorem Reply.verdict_done_iff {r : Reply Wide} :
    r.verdict = .done t ↔ r = .text t ∧ t.isBlank = false := by
  cases r with
  | text t' =>
    rw [verdict]
    constructor
    · intro h
      split at h
      · cases h
      next hblank =>
        obtain rfl := Verdict.done.inj h
        exact ⟨rfl, by simpa using hblank⟩
    · rintro ⟨heq, hblank⟩
      obtain rfl := Reply.text.inj heq
      rw [if_neg (by simp [hblank])]
  | nothing | failed _ | refused _ _ | unimplemented _ | foreign _ _ => simp [verdict]

theorem Reply.verdict_over_iff {r : Reply Wide} : r.verdict = .over f ↔
    (∃ retried m, r = .refused retried m ∧ f = .refused retried m) ∨
      ∃ m, r = .unimplemented m ∧ f = .unimplemented m := by
  cases r with
  | text t' =>
    rw [verdict]
    split <;> simp
  | refused retried m =>
    cases retried <;> simp [verdict, eq_comm]
  | nothing | failed _ | unimplemented _ | foreign _ _ => simp [verdict, eq_comm]

/-! ### A run of attempts -/

/-- The text that a reply brings, blank or not. -/
def Reply.text? : Reply Wide → Option Wide
  | .text t => some t
  | _ => none

/-- An attempt that fails keeps the text of its reply. -/
theorem Reply.verdict_of_fails {r : Reply Wide} (h : r.Fails) :
    ∃ e, r.error? = some e ∧ r.verdict = .again r.text? e := by
  cases r with
  | text t =>
    by_cases hblank : t.isBlank = true
    · exact ⟨.format emptyMessage, by simp [error?, verdict, hblank], by simp [verdict, text?, hblank]⟩
    · exact absurd h (not_fails_of_done (t := t) (by simp [verdict, hblank]))
  | nothing | failed _ | foreign _ _ => exact ⟨_, rfl, rfl⟩
  | refused _ _ | unimplemented _ => cases h

/-- The error that is told after attempts that failed, `last` being that from before them. -/
def lastError (reply : Nat → Reply Wide) (last : Option AttemptError) (made : Nat) :
    Nat → Option AttemptError
  | 0 => last
  | k + 1 => (reply (made + k)).error?

/-- What is told of an attempt that fails. -/
def Reply.told (number : Nat) (r : Reply Wide) : Attempt := ⟨number, r.text?, r.error?⟩

/-- What is told of attempts that fail, one after another. -/
def failures (reply : Nat → Reply Wide) (made k : Nat) : List Attempt :=
  (List.range k).map fun i => (reply (made + i)).told (made + i + 1)

theorem length_failures (reply : Nat → Reply Wide) (made k : Nat) : (failures reply made k).length = k := by
  rw [failures, List.length_map, List.length_range]

theorem failures_succ (reply : Nat → Reply Wide) (made k : Nat) :
    failures reply made (k + 1) =
      failures reply made k ++ [(reply (made + k)).told (made + k + 1)] := by
  rw [failures, List.range_succ, List.map_append, List.map_singleton, failures]

/-- A run behind attempts that failed, each with a pause after it. -/
def Run.behind (failed : List Attempt) (r : Run) : Run :=
  { r with
    attempts := failed ++ r.attempts
    asked := failed.length + r.asked
    pauses := failed.length + r.pauses }

/-- An attempt that fails leaves the rest to those behind it. -/
theorem attempts_again (h : (reply made).Fails) :
    attempts reply exhausted none last made (left + 1) =
      (attempts reply exhausted none (reply made).error? (made + 1) left).prepend
        ((reply made).told (made + 1)) (left != 0) := by
  obtain ⟨e, herror, hverdict⟩ := Reply.verdict_of_fails h
  rw [attempts, hverdict, Reply.told, herror]
  cases left <;> rfl

/-- Attempts that failed leave the rest to those behind them, of which there is one at least. -/
theorem attempts_skip (exhausted : Option AttemptError → Failure) (last : Option AttemptError)
    (left : Nat) (h : ∀ i < k, (reply (made + i)).Fails) :
    attempts reply exhausted none last made (left + 1 + k) =
      (attempts reply exhausted none (lastError reply last made k) (made + k) (left + 1)).behind
        (failures reply made k) := by
  induction k generalizing left with
  | zero =>
    simp [failures, Run.behind, lastError]
  | succ k ih =>
    have hstep := ih (left + 1) fun i hi => h i (Nat.lt_succ_of_lt hi)
    have hcount : left + 1 + (k + 1) = left + 1 + 1 + k := by omega
    rw [hcount, hstep, attempts_again (h k (Nat.lt_succ_self k)), failures_succ]
    simp [Run.behind, Run.prepend, lastError, Nat.add_assoc, Nat.add_comm, Nat.add_left_comm]

/-- The first attempts of an exchange may be passed over so. -/
theorem attempts_skip_first (exhausted : Option AttemptError → Failure) (last : Option AttemptError)
    (left : Nat) (h : ∀ i < k, (reply i).Fails) :
    attempts reply exhausted none last 0 (left + 1 + k) =
      (attempts reply exhausted none (lastError reply last 0 k) k (left + 1)).behind
        (failures reply 0 k) := by
  have hfails : ∀ i < k, (reply (0 + i)).Fails := fun i hi => by simpa using h i hi
  have hskip := attempts_skip exhausted last left hfails
  rwa [Nat.zero_add] at hskip

/-- The attempt behind those that failed ends the run with its text, if it is one of those allowed. -/
theorem attempts_done (hk : k < left) (hfails : ∀ i < k, (reply i).Fails)
    (hdone : (reply k).verdict = .done t) :
    attempts reply exhausted none last 0 left =
      ⟨.ok t, failures reply 0 k ++ [⟨k + 1, some t, none⟩], k + 1, k⟩ := by
  obtain ⟨rest, rfl⟩ : ∃ rest, left = rest + 1 + k := ⟨left - k - 1, by omega⟩
  rw [attempts_skip_first exhausted last rest hfails, attempts, hdone]
  simp only [Run.behind, length_failures, Nat.add_zero]

/-- A model that gives up ends the run without a text, and nothing is told of its attempt. -/
theorem attempts_over (hk : k < left) (hfails : ∀ i < k, (reply i).Fails)
    (hover : (reply k).verdict = .over f) :
    attempts reply exhausted none last 0 left = ⟨.error f, failures reply 0 k, k + 1, k⟩ := by
  obtain ⟨rest, rfl⟩ : ∃ rest, left = rest + 1 + k := ⟨left - k - 1, by omega⟩
  rw [attempts_skip_first exhausted last rest hfails, attempts, hover]
  simp only [Run.behind, length_failures, Nat.add_zero, List.append_nil]

/-- When no reply decides, the error of the last attempt is told.  There is no pause after it. -/
theorem attempts_exhausted (h : ∀ i < left, (reply i).Fails) :
    attempts reply exhausted none last 0 left =
      ⟨.error (exhausted (lastError reply last 0 left)), failures reply 0 left, left, left - 1⟩ := by
  cases left with
  | zero => rfl
  | succ k =>
    have hskip := attempts_skip_first exhausted last 0 fun i hi => h i (Nat.lt_succ_of_lt hi)
    have hcount : 0 + 1 + k = k + 1 := by omega
    rw [hcount] at hskip
    rw [hskip, attempts_again (h k (Nat.lt_succ_self k)), attempts, failures_succ]
    simp [Run.behind, Run.prepend, length_failures, lastError]

/-- Either all of a number of attempts fail, or one is the first that does not. -/
theorem fails_or_first (reply : Nat → Reply Wide) (left : Nat) : (∀ i < left, (reply i).Fails) ∨
    ∃ k < left, (∀ i < k, (reply i).Fails) ∧ ¬ (reply k).Fails := by
  induction left with
  | zero => exact .inl (by simp)
  | succ left ih =>
    rcases ih with hall | ⟨k, hk, hfails, hnot⟩
    · by_cases hlast : (reply left).Fails
      · refine .inl fun i hi => ?_
        rcases Nat.lt_succ_iff_lt_or_eq.mp hi with hlt | rfl
        · exact hall i hlt
        · exact hlast
      · exact .inr ⟨left, Nat.lt_succ_self left, hall, hlast⟩
    · exact .inr ⟨k, Nat.lt_succ_of_lt hk, hfails, hnot⟩

/-- A text is brought by the first attempt that does not fail. -/
theorem attempts_ok_iff : (attempts reply exhausted none last 0 left).result = .ok t ↔
    ∃ k < left, (∀ i < k, (reply i).Fails) ∧ (reply k).verdict = .done t := by
  constructor
  · intro h
    rcases fails_or_first reply left with hall | ⟨k, hk, hfails, hnot⟩
    · rw [attempts_exhausted hall] at h
      cases h
    · refine ⟨k, hk, hfails, ?_⟩
      rcases Reply.not_fails hnot with ⟨t', hdone⟩ | ⟨f, hover⟩
      · rw [attempts_done hk hfails hdone] at h
        rw [hdone, Except.ok.inj h]
      · rw [attempts_over hk hfails hover] at h
        cases h
  · rintro ⟨k, hk, hfails, hdone⟩
    rw [attempts_done hk hfails hdone]

/-! ### Pauses that cannot be made -/

/-- A run of one attempt, and one whose first attempt does not fail, needs no pause. -/
theorem attempts_unpaused (h : left ≤ 1 ∨ ¬ (reply made).Fails) :
    attempts reply exhausted p last made left = attempts reply exhausted none last made left := by
  cases left with
  | zero => rfl
  | succ left =>
    by_cases hfails : (reply made).Fails
    · obtain rfl : left = 0 := by
        have hone := h.resolve_right fun hnot => hnot hfails
        omega
      obtain ⟨e, -, hverdict⟩ := Reply.verdict_of_fails hfails
      rw [attempts, attempts, hverdict]
      rfl
    · rw [attempts, attempts]
      rcases Reply.not_fails hfails with ⟨t, hdone⟩ | ⟨f, hover⟩
      · rw [hdone]
      · rw [hover]

/-- A pause that cannot be made ends a run after its first attempt. -/
theorem attempts_raised (h : (reply made).Fails) (hleft : 2 ≤ left) :
    attempts reply exhausted (some e) last made left =
      ⟨.error (.raised e), [(reply made).told (made + 1)], 1, 0⟩ := by
  obtain ⟨rest, rfl⟩ : ∃ rest, left = rest + 1 + 1 := ⟨left - 2, by omega⟩
  obtain ⟨error, herror, hverdict⟩ := Reply.verdict_of_fails h
  rw [attempts, hverdict, Reply.told, herror]

/-- Whether a number of attempts come without a pause that cannot be made: there is no such pause, or the
first attempt is the only one. -/
def Pausing (p : Option Raised) (reply : Nat → Reply Wide) (n : Nat) : Prop :=
  p = none ∨ n ≤ 1 ∨ ¬ (reply 0).Fails

theorem Pausing.attempts_eq (h : Pausing p reply left) :
    attempts reply exhausted p last 0 left = attempts reply exhausted none last 0 left := by
  rcases h with rfl | hfirst
  · rfl
  · exact attempts_unpaused hfirst

/-- Attempts come without such a pause, or a pause ends them after the first. -/
theorem pausing_or_raised (p : Option Raised) (reply : Nat → Reply Wide) (n : Nat) :
    Pausing p reply n ∨ ∃ e, p = some e ∧ 2 ≤ n ∧ (reply 0).Fails := by
  cases p with
  | none => exact .inl (.inl rfl)
  | some e =>
    by_cases hfirst : n ≤ 1 ∨ ¬ (reply 0).Fails
    · exact .inl (.inr hfirst)
    · obtain ⟨hn, hfails⟩ := not_or.mp hfirst
      exact .inr ⟨e, rfl, by omega, Decidable.of_not_not hfails⟩

/-! ### A whole exchange -/

section Exchange

variable {c : Client} {r : Request} {payload : Payload}

/-- A request without a payload is given up before the model is asked. -/
theorem Client.complete_of_error (h : r.payload? c.model = .error e) :
    c.complete reply r = ⟨⟨.error (.raised e), [], 0, 0⟩, none⟩ := by
  rw [complete, h]

theorem Client.complete_of_payload (h : r.payload? c.model = .ok payload) :
    c.complete reply r =
      ⟨attempts reply (.exhausted payload.model (c.limit r)) (unslept? c.retryDelay) none 0
        (c.limit r).toNat, some payload⟩ := by
  rw [complete, h]

/-- **An exchange brings a text exactly when one of the attempts allowed brings it, not blank, and all
before it fail**, if the request has a payload, and the client can pause or need not. -/
theorem Client.complete_ok_iff : (c.complete reply r).result = .ok t ↔
    (∃ payload, r.payload? c.model = .ok payload) ∧
      Pausing (unslept? c.retryDelay) reply (c.limit r).toNat ∧
      ∃ k : Nat, (k : Int) < c.limit r ∧ (∀ i < k, (reply i).Fails) ∧
        reply k = .text t ∧ t.isBlank = false := by
  cases hpayload : r.payload? c.model with
  | error e => simp [complete_of_error hpayload]
  | ok payload =>
    rw [complete_of_payload hpayload]
    rcases pausing_or_raised (unslept? c.retryDelay) reply (c.limit r).toNat with
      hpausing | ⟨e, he, htwo, hfails⟩
    · rw [hpausing.attempts_eq, attempts_ok_iff]
      simp [hpausing, Int.lt_toNat, Reply.verdict_done_iff]
    · rw [he, attempts_raised hfails htwo]
      simp [Pausing, hfails]
      omega

/-- A client makes an attempt at least, unless the request says otherwise. -/
theorem Client.one_le_limit (hown : r.maxAttempts = none) : 1 ≤ c.limit r := by
  rw [limit, hown]
  exact Int.le_max_left _ _

/-- Attempts that all end with an error of some other kind: the last of them is told, if the client can
pause or need not. -/
theorem Client.complete_foreign (hpayload : r.payload? c.model = .ok payload) (hlimit : 1 ≤ c.limit r)
    (hpausing : c.limit r ≤ 1 ∨ unslept? c.retryDelay = none)
    (h : ∀ k : Nat, (k : Int) < c.limit r → ∃ kind message, reply k = .foreign kind message) :
    ∃ kind message, reply ((c.limit r).toNat - 1) = .foreign kind message ∧
      (c.complete reply r).result = .error (.exhausted payload.model (c.limit r)
        (some (.transport (kind ++ ": ".toList ++ message)))) := by
  obtain ⟨made, hmade⟩ : ∃ made, (c.limit r).toNat = made + 1 := ⟨(c.limit r).toNat - 1, by omega⟩
  obtain ⟨kind, message, hlast⟩ := h made (by omega)
  refine ⟨kind, message, by rw [hmade]; exact hlast, ?_⟩
  have hpausing' : Pausing (unslept? c.retryDelay) reply (c.limit r).toNat := by
    rcases hpausing with hone | hnone
    · exact .inr (.inl (by omega))
    · exact .inl hnone
  have hall (k : Nat) (hk : k < (c.limit r).toNat) : (reply k).Fails := by
    obtain ⟨kind', message', hk'⟩ := h k (by omega)
    rw [hk', Reply.Fails]
    rfl
  rw [complete_of_payload hpayload, hpausing'.attempts_eq, attempts_exhausted hall, hmade, lastError,
    Nat.zero_add, hlast]
  rfl

/-- A client that cannot pause is told so by its first attempt, if that fails and another is allowed. -/
theorem Client.complete_raised (hpayload : r.payload? c.model = .ok payload) (hlimit : 2 ≤ c.limit r)
    (hraised : unslept? c.retryDelay = some e) (hfails : (reply 0).Fails) :
    c.complete reply r = ⟨⟨.error (.raised e), [(reply 0).told 1], 1, 0⟩, some payload⟩ := by
  rw [complete_of_payload hpayload, hraised, attempts_raised hfails (by omega)]

end Exchange

end Graft.Model
