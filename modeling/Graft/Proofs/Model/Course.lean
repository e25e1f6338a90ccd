import Graft.Proofs.Model.Attempts
import Mathlib.Data.List.Forall2

/-
The course of an exchange, told by the replies.

* `Retried n r a` — what is told of the `n`th attempt when it fails and another may follow;
* `Decides n r result told` — what the `n`th attempt ends an exchange with, and what is told of it;
* `Reply.Decisive` — replies after which no attempt follows;
* `Client.limit_eq` — how many attempts a request is given;
* `Client.complete_course` — **the whole exchange: result, attempts told, how often the model is asked, and
  the pauses**, or what keeps it from taking its course: a request that cannot be written, or a pause that
  cannot be made;
* `Client.attempted_iff` — **which requests are attempted at all, with a cause told when all attempts fail**.

Design notes: here an attempt is classed by what its reply is, and not by the verdict that a client comes to.
The two agree (`retried_iff`, `decisive_iff`), and so the course of an exchange is that of its run.
-/
namespace Graft.Model

variable {reply : Nat → Reply Wide} {r : Reply Wide} {n k : Nat}

/-- Whether a code point is white space. -/
def Blank (p : Point) : Prop := ∃ c, p = .char c ∧ isSpace c = true

/-! ### Kinds of attempts -/

/-- What is told of the `n`th attempt when it fails and another may follow. -/
inductive Retried (n : Nat) : Reply Wide → Attempt → Prop
  -- The blank text is kept.
  | blank {t : Wide} (h : ∀ p ∈ t, Blank p) :
      Retried n (.text t) ⟨n, some t, some (.format emptyMessage)⟩
  | nothing : Retried n .nothing ⟨n, none, some (.format emptyMessage)⟩
  | failed (e : AttemptError) : Retried n (.failed e) ⟨n, none, some e⟩
  | foreign (kind message : Text) :
      Retried n (.foreign kind message)
        ⟨n, none, some (.transport (kind ++ ": ".toList ++ message))⟩

/-- What the `n`th attempt ends an exchange with, and what is told of it. -/
inductive Decides (n : Nat) : Reply Wide → Except Failure Wide → List Attempt → Prop
  | text {t : Wide} (h : ∃ p ∈ t, ¬ Blank p) :
      Decides n (.text t) (.ok t) [⟨n, some t, none⟩]
  | refused (retried : Bool) (message : Text) :
      Decides n (.refused retried message) (.error (.refused retried message)) []
  | unimplemented (message : Text) :
      Decides n (.unimplemented message) (.error (.unimplemented message)) []

/-- Whether no attempt follows one that brings a reply: it has a text that is not blank, or the model gives
up. -/
def Reply.Decisive (r : Reply Wide) : Prop :=
  (∃ t, r = .text t ∧ ∃ p ∈ t, ¬ Blank p) ∨
    (∃ retried message, r = .refused retried message) ∨ ∃ message, r = .unimplemented message

theorem isBlank_iff {t : Wide} : t.isBlank = true ↔ ∀ p ∈ t, Blank p := by
  rw [Wide.isBlank, List.all_eq_true]
  refine forall₂_congr fun p _ => ?_
  cases p <;> simp [Blank]

theorem not_isBlank_iff {t : Wide} : t.isBlank = false ↔ ∃ p ∈ t, ¬ Blank p := by
  rw [← Bool.not_eq_true, isBlank_iff]
  simp

theorem retried_iff {a : Attempt} : Retried n r a ↔ r.Fails ∧ a = r.told n := by
  constructor
  · rintro (⟨h⟩ | _ | _ | _)
    · have hblank := isBlank_iff.mpr h
      simp [Reply.Fails, Reply.told, Reply.error?, Reply.verdict, Reply.text?, hblank]
    all_goals exact ⟨rfl, rfl⟩
  · rintro ⟨hfails, rfl⟩
    cases r with
    | text t =>
      have hblank : t.isBlank = true := by
        by_contra hnot
        exact Reply.not_fails_of_done (t := t) (by simp [Reply.verdict, hnot]) hfails
      have htold : (Reply.text t).told n = ⟨n, some t, some (.format emptyMessage)⟩ := by
        simp [Reply.told, Reply.error?, Reply.verdict, Reply.text?, hblank]
      rw [htold]
      exact .blank (isBlank_iff.mp hblank)
    | nothing => exact .nothing
    | failed e => exact .failed e
    | foreign kind message => exact .foreign kind message
    | refused _ _ | unimplemented _ => cases hfails

theorem decisive_iff : r.Decisive ↔ ¬ r.Fails := by
  constructor
  · rintro (⟨t, rfl, h⟩ | ⟨retried, message, rfl⟩ | ⟨message, rfl⟩)
    · exact Reply.not_fails_of_done (Reply.verdict_done_iff.mpr ⟨rfl, not_isBlank_iff.mpr h⟩)
    · exact Reply.not_fails_of_over rfl
    · exact Reply.not_fails_of_over rfl
  · intro hnot
    rcases Reply.not_fails hnot with ⟨t, hdone⟩ | ⟨f, hover⟩
    · obtain ⟨rfl, hblank⟩ := Reply.verdict_done_iff.mp hdone
      exact .inl ⟨t, rfl, not_isBlank_iff.mp hblank⟩
    · rcases Reply.verdict_over_iff.mp hover with ⟨retried, message, rfl, -⟩ | ⟨message, rfl, -⟩
      · exact .inr (.inl ⟨retried, message, rfl⟩)
      · exact .inr (.inr ⟨message, rfl⟩)

instance (r : Reply Wide) : Decidable r.Decisive := decidable_of_iff _ decisive_iff.symm

/-- What is told of attempts that fail is told of each of them. -/
theorem forall₂_failures (h : ∀ i < k, (reply i).Fails) :
    List.Forall₂ (fun i a => Retried (i + 1) (reply i) a) (List.range k) (failures reply 0 k) := by
  rw [failures, List.forall₂_map_right_iff, List.forall₂_same]
  intro i hi
  rw [Nat.zero_add]
  exact retried_iff.mpr ⟨h i (List.mem_range.mp hi), rfl⟩

/-- The first attempt that does not fail ends the run as it decides. -/
theorem attempts_decided {exhausted : Option AttemptError → Failure} {last : Option AttemptError}
    {left : Nat} (hk : k < left) (hfails : ∀ i < k, (reply i).Fails) (hnot : ¬ (reply k).Fails) :
    ∃ result told, Decides (k + 1) (reply k) result told ∧
      attempts reply exhausted none last 0 left = ⟨result, failures reply 0 k ++ told, k + 1, k⟩ := by
  rcases Reply.not_fails hnot with ⟨t, hdone⟩ | ⟨f, hover⟩
  · obtain ⟨hreply, hblank⟩ := Reply.verdict_done_iff.mp hdone
    refine ⟨.ok t, _, ?_, attempts_done hk hfails hdone⟩
    rw [hreply]
    exact .text (not_isBlank_iff.mp hblank)
  · refine ⟨.error f, [], ?_, ?_⟩
    · rcases Reply.verdict_over_iff.mp hover with ⟨retried, m, hreply, rfl⟩ | ⟨m, hreply, rfl⟩
      · rw [hreply]
        exact .refused retried m
      · rw [hreply]
        exact .unimplemented m
    · rw [attempts_over hk hfails hover, List.append_nil]

/-! ### A whole exchange -/

section Exchange

variable {c : Client} {q : Request}

/-- A request is given its own number of attempts if that is not zero, else that of the client, which is one
at least. -/
theorem Client.limit_eq (c : Client) (q : Request) :
    c.limit q = (q.maxAttempts.filter (· ≠ 0)).getD (max 1 c.maxAttempts) := by
  rw [limit]
  cases q.maxAttempts with
  | none => rfl
  | some m =>
    by_cases hm : m = 0
    · simp [hm, Option.filter]
    · simp [hm, Option.filter]

theorem Client.one_le_limit_iff : 1 ≤ c.limit q ↔ ∀ m, q.maxAttempts = some m → 0 ≤ m := by
  have hown : 1 ≤ max 1 c.maxAttempts := Int.le_max_left 1 _
  rw [limit]
  cases q.maxAttempts with
  | none => exact iff_of_true hown fun m hm => by cases hm
  | some m =>
    by_cases hm : m = 0
    · subst hm
      exact iff_of_true hown fun m hm => Int.le_of_eq (Option.some.inj hm)
    · simp only [hm, if_false, Option.some.injEq, forall_eq']
      omega

/-- A model that answers late, after an error of another kind and a blank text. -/
def belated : Nat → Reply Wide
  | 0 => .foreign "TimeoutError".toList "late".toList
  | 1 => .text (Text.wide "\n".toList)
  | _ => .text (Text.wide "x".toList)

/-- What is told of the two attempts of that model which fail. -/
def belatedFailures : List Attempt :=
  [⟨1, none, some (.transport "TimeoutError: late".toList)⟩,
    ⟨2, some (Text.wide "\n".toList), some (.format emptyMessage)⟩]

theorem eq_belatedFailures {told : List Attempt}
    (h : List.Forall₂ (fun i a => Retried (i + 1) (belated i) a) (List.range 2) told) :
    told = belatedFailures := by
  rcases h with _ | ⟨hfirst, _ | ⟨hsecond, _ | _⟩⟩
  obtain ⟨-, rfl⟩ := retried_iff.mp hfirst
  obtain ⟨-, rfl⟩ := retried_iff.mp hsecond
  decide +kernel

/-- A request for nothing. -/
def bare : Request := { prompt := [] }

/-- The payload of a request for nothing, for the model `m`. -/
def barePayload : Payload := { model := "m".toList, prompt := [] }

/-- Without attempts to make, there is no cause to give. -/
theorem asked_of_limit_le (h : c.limit q ≤ 0) : (c.complete reply q).asked = 0 := by
  rw [Client.complete]
  split
  · rfl
  · dsimp only
    rw [Int.toNat_of_nonpos h]
    rfl

/-- The run of attempts that all fail tells the last of them, and its error is the cause. -/
theorem getLast?_failures (h : ∀ i < k + 1, (reply i).Fails) :
    ∃ a e, (failures reply 0 (k + 1)).getLast? = some a ∧ a.number = k + 1 ∧ a.error = some e ∧
      lastError reply none 0 (k + 1) = some e := by
  obtain ⟨e, herror, -⟩ := Reply.verdict_of_fails (h k (Nat.lt_succ_self k))
  refine ⟨(reply k).told (k + 1), e, ?_, rfl, herror, ?_⟩
  · rw [failures_succ, List.getLast?_concat, Nat.zero_add]
  · rw [lastError, Nat.zero_add, herror]

/-- An attempt that decides does not end an exchange for want of further ones. -/
theorem Decides.ne_exhausted {result : Except Failure Wide} {told : List Attempt}
    (h : Decides n r result told) (model : Text) (limit : Int) (cause : Option AttemptError) :
    result ≠ .error (.exhausted model limit cause) := by
  rintro rfl
  cases h

/-- **An exchange makes an attempt, and gives the error of its last attempt as the cause when all have failed,
exactly when the request does not ask for a negative number of them**, and has a payload.  The limit of the
client itself is one at least, whatever it was given. -/
theorem Client.attempted_iff (c : Client) (q : Request) (reply : Nat → Reply Wide) :
    (1 ≤ (c.complete reply q).asked ∧
      ∀ model limit cause, (c.complete reply q).result = .error (.exhausted model limit cause) →
        ∃ a e, (c.complete reply q).attempts.getLast? = some a ∧
          a.number = (c.complete reply q).asked ∧ a.error = some e ∧ cause = some e) ↔
      (∀ m, q.maxAttempts = some m → 0 ≤ m) ∧ ∃ payload, q.payload? c.model = .ok payload := by
  rw [← Client.one_le_limit_iff (c := c)]
  constructor
  · rintro ⟨hasked, -⟩
    constructor
    · by_contra hlimit
      rw [asked_of_limit_le (by omega)] at hasked
      exact Nat.not_succ_le_zero 0 hasked
    · cases hpayload : q.payload? c.model with
      | ok payload => exact ⟨payload, rfl⟩
      | error e =>
        rw [complete_of_error hpayload] at hasked
        exact absurd hasked (Nat.not_succ_le_zero 0)
  · rintro ⟨hlimit, payload, hpayload⟩
    obtain ⟨left, hleft⟩ : ∃ left, (c.limit q).toNat = left + 1 := ⟨(c.limit q).toNat - 1, by omega⟩
    rw [complete_of_payload hpayload, hleft]
    rcases pausing_or_raised (unslept? c.retryDelay) reply (left + 1) with
      hpausing | ⟨e, he, htwo, hfails⟩
    · rw [hpausing.attempts_eq]
      rcases fails_or_first reply (left + 1) with hall | ⟨k, hk, hfails, hnot⟩
      · rw [attempts_exhausted hall]
        refine ⟨Nat.succ_le_succ (Nat.zero_le left), fun model limit cause h => ?_⟩
        obtain ⟨a, e, hlast, hnumber, herror, hcause⟩ := getLast?_failures hall
        refine ⟨a, e, hlast, hnumber, herror, ?_⟩
        rw [← hcause]
        exact (Failure.exhausted.inj (Except.error.inj h)).2.2.symm
      · obtain ⟨result, told, hdecides, hrun⟩ := attempts_decided hk hfails hnot
        rw [hrun]
        exact ⟨Nat.succ_le_succ (Nat.zero_le k),
          fun model limit cause h => absurd h (hdecides.ne_exhausted model limit cause)⟩
    · rw [he, attempts_raised hfails htwo]
      exact ⟨Nat.le_refl 1, fun model limit cause h => by cases h⟩

end Exchange

/-- A client makes an attempt whatever its own limit, and gives the cause when it fails. -/
theorem attempted_blank :
    1 ≤ ((⟨[], -5, .int 0⟩ : Client).complete (fun _ => .nothing) bare).asked ∧
      ∃ a e, ((⟨[], -5, .int 0⟩ : Client).complete (fun _ => .nothing) bare).attempts.getLast? =
        some a ∧ a.error = some e := by
  obtain ⟨hasked, hcause⟩ := (Client.attempted_iff ⟨[], -5, .int 0⟩ bare fun _ => .nothing).mpr
    ⟨fun m hm => (by cases hm), _, rfl⟩
  obtain ⟨a, e, hlast, -, herror, -⟩ := hcause _ _ _ rfl
  exact ⟨hasked, a, e, hlast, herror⟩

/-- A request for a negative number of attempts is given up before the model is asked, without a cause. -/
theorem unattempted_negative :
    ((⟨"m".toList, 3, .int 0⟩ : Client).complete (fun _ => .text (Text.wide "x".toList))
        { prompt := "p".toList, maxAttempts := some (-1) }).asked = 0 ∧
      ((⟨"m".toList, 3, .int 0⟩ : Client).complete (fun _ => .text (Text.wide "x".toList))
        { prompt := "p".toList, maxAttempts := some (-1) }).result =
          .error (.exhausted "m".toList (-1) none) := ⟨rfl, rfl⟩

end Graft.Model
