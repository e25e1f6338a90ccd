import Graft.Integration.Run

/-
The stages of an integration, and the workspace after a failure.

Whatever the workspace, the response, the options and the model, a report goes through its stages
on one of five courses:

* `display_eq`, `Registering`, `wire_cases`, `place_cases`, `proceed_cases` — what each step of an
  integration that reports can do;
* `courses` — the five sequences of stages, two of which end well;
* `Conducted base w o out` — `out` comes of one of the ways to integrate;
* `Orderly before after r` — what holds of a report and of the workspace before and after;
* `report_orderly` — **every report is orderly**.

Design notes: a failure is only ever reported before the first file is written, so the proof follows
the two halves of an integration.  Up to the layout a report may fail and the workspace is the one
that came in; from there on (`Located`) nothing fails, and each exit either warns or registers
(`Finished`).  What a step can do is read off its definition once, in the lemmas that are named for
its cases.
-/
namespace Graft.Integration

open Staging Registration

variable {base : Location} {w after : Workspace} {o : Options} {layout : Layout} {r r' : Report}

/-! ### The steps -/

theorem exists_of_map_eq_ok {ε α β : Type} {f : α → β} {x : Except ε α} {b : β}
    (h : x.map f = .ok b) : ∃ a, x = .ok a ∧ f a = b := by
  cases x with
  | error e => cases h
  | ok a => exact ⟨a, rfl, Except.ok.inj h⟩

/-- Showing a component changes the marker and the warnings of a report only. -/
theorem display_eq {primary : Staged} {p : Text} (h : display w layout primary p r = (.ok r', after)) :
    ∃ marker warnings, r' = { r with usageMarker := marker, warnings := warnings } := by
  unfold display at h
  dsimp only at h
  split at h
  · cases h
  · cases h
    exact ⟨_, _, rfl⟩
  · split at h
    · cases h
    · cases h
      exact ⟨_, _, rfl⟩
    · split at h
      · cases h
        exact ⟨_, _, rfl⟩
      · split at h <;> cases h <;> exact ⟨_, _, rfl⟩

/-- The ways to make a registration and to report it. -/
inductive Registering (w : Workspace) (o : Options) (layout : Layout) (primary : Staged) (q : Request)
    (r : Report) : Report → Workspace → Prop
  -- It fails, and the report warns of it.
  | refused {e : HostError} (i : Issue) (failed : (register w q).result = .error e) :
      Registering w o layout primary q r ({ r with warnings := r.warnings ++ [i] }.reach .done)
        (register w q).workspace
  | hidden {g : Registered} (made : (register w q).result = .ok g) (unmarked : o.usageMarker = false) :
      Registering w o layout primary q r (({ r with registered := some g }.reach .patched).reach .done)
        (register w q).workspace
  -- The component is shown in the root template, too.
  | shown {g : Registered} {s : Report} {after : Workspace} (made : (register w q).result = .ok g)
      (marked : o.usageMarker = true) (displayed : display (register w q).workspace layout primary o.tagPrefix
        ({ r with registered := some g }.reach .patched) = (.ok s, after)) :
      Registering w o layout primary q r (s.reach .done) after

theorem wireInto_cases {host path script : Text} {primary : Staged}
    (hr : (wireInto base w o layout host primary path script r).report = .ok r') :
    ∃ q after, request? base host primary path script = some q ∧
      (wireInto base w o layout host primary path script r).workspace = after ∧
      Registering w o layout primary q r r' after := by
  unfold wireInto at hr ⊢
  cases hq : request? base host primary path script with
  | none =>
    rw [hq] at hr
    cases hr
  | some q =>
    rw [hq] at hr
    refine ⟨q, _, rfl, rfl, ?_⟩
    dsimp only at hr ⊢
    cases hdone : (register w q).result with
    | error e =>
      rw [hdone] at hr
      obtain ⟨i, -, rfl⟩ := exists_of_map_eq_ok hr
      exact .refused i hdone
    | ok g =>
      rw [hdone] at hr
      dsimp only at hr ⊢
      obtain ⟨s, hs, rfl⟩ := exists_of_map_eq_ok hr
      cases hmark : o.usageMarker with
      | false =>
        rw [hmark] at hs
        obtain rfl := Except.ok.inj hs
        exact .hidden hdone hmark
      | true =>
        rw [hmark] at hs
        exact .shown hdone hmark (Prod.ext hs rfl)

/-- A wiring is given up with a warning, or it leads to a registration. -/
theorem wire_cases (hr : (wire base w o layout r).report = .ok r') :
    (∃ i, r' = { r with warnings := r.warnings ++ [i] }.reach .done ∧
      (wire base w o layout r).workspace = w) ∨
    ∃ host primary path script, layout.host = some host ∧ r.primary = some primary ∧
      script? r.staged primary = some (path, script) ∧ w.exists? host = .ok true ∧
      wire base w o layout r = wireInto base w o layout host primary path script r := by
  unfold wire at hr ⊢
  dsimp only at hr ⊢
  split at hr
  · exact .inl ⟨_, (Except.ok.inj hr).symm, rfl⟩
  next host hhost =>
    split at hr
    · exact .inl ⟨_, (Except.ok.inj hr).symm, rfl⟩
    next primary path script hfound =>
      obtain ⟨p, hprimary, hp⟩ := Option.bind_eq_some_iff.mp hfound
      obtain ⟨found, hscript, heq⟩ := Option.map_eq_some_iff.mp hp
      obtain ⟨rfl, rfl⟩ := Prod.mk.inj heq
      split at hr
      · cases hr
      · exact .inl ⟨_, (Except.ok.inj hr).symm, rfl⟩
      next hthere => exact .inr ⟨host, _, path, script, hhost, hprimary, hscript, hthere, rfl⟩

/-- The project cannot be located, or the artifacts are staged and wired. -/
theorem place_cases (hr : (place base w o r).report = .ok r') :
    (∃ p : Manifest.Problem, r' = r.fail p.message ∧ (place base w o r).workspace = w) ∨
    ∃ layout files after, Layout.find w o.hints = .ok layout ∧
      stage layout.sourceRoot r.artifacts w = (.ok files, after) ∧
      place base w o r = wire base after o layout (staged r layout files) := by
  unfold place at hr ⊢
  split at hr
  · cases hr
  next p _ => exact .inl ⟨p, (Except.ok.inj hr).symm, rfl⟩
  next layout hfind =>
    split at hr
    · cases hr
    next files after hstage => exact .inr ⟨layout, files, after, hfind, hstage, rfl⟩

/-- The response holds nothing, or its artifacts are placed. -/
theorem proceed_cases {raw : Text} (hr : (proceed base w o r raw).report = .ok r') :
    (r' = r.fail Response.emptyMessage ∧ (proceed base w o r raw).workspace = w) ∨
    ∃ artifacts, Response.parse? raw = some artifacts ∧
      proceed base w o r raw = place base w o ({ r with artifacts }.reach .parsed) := by
  unfold proceed at hr ⊢
  split at hr
  · exact .inl ⟨(Except.ok.inj hr).symm, rfl⟩
  next artifacts hparse => exact .inr ⟨artifacts, hparse, rfl⟩

/-! ### Courses -/

/-- The stages of an integration that gets as far as the host. -/
def located : List State := [.start, .generated, .parsed, .staged, .located]

/-- The sequences of stages that a report may show. -/
def courses : List (List State) :=
  [[.start, .failed],
   [.start, .generated, .failed],
   [.start, .generated, .parsed, .failed],
   located ++ [.done],
   located ++ [.patched, .done]]

/-- The outcomes of the ways to integrate: without a model, with a model and its replies, with an
exchange of any other origin, and with a response at hand. -/
inductive Conducted (base : Location) (w : Workspace) (o : Options) : Outcome → Prop
  | withoutModel : Conducted base w o (withoutModel w)
  | run (client : Model.Client) (reply : Nat → Model.Reply Wide) :
      Conducted base w o (run base w o client reply)
  | exchange (e : Model.Exchange) : Conducted base w o (ofExchange base w o e)
  | response (raw : Text) : Conducted base w o (integrate base w o raw)

/-- What holds of a report `r` and of the workspace before and after the integration. -/
structure Orderly (before after : Workspace) (r : Report) : Prop where
  -- The stages form one of the five courses.
  course : r.visited ∈ courses
  -- The state is the stage that was reached last.
  state : r.visited.getLast? = some r.state
  -- There is a reason exactly when the integration has failed.
  failure : r.failure.isSome ↔ r.state = .failed
  -- A failed integration has changed nothing and staged nothing.
  untouched : r.state = .failed → after = before ∧ r.staged = []
  -- A registration is reported exactly when its stage was reached.
  registered : r.registered.isSome ↔ .patched ∈ r.visited
  -- An integration that is done without a registration has warned.
  warned : r.state = .done → .patched ∉ r.visited → r.warnings ≠ []

/-! ### Failures -/

/-- A report before anything is staged. -/
structure Early (r : Report) : Prop where
  -- No stage after the parsing was reached.
  visited : r.visited ∈ [[.start], [.start, .generated], [.start, .generated, .parsed]]
  staged : r.staged = []
  registered : r.registered = none

theorem Early.fail_orderly (h : Early r) (w : Workspace) (reason : Wide) :
    Orderly w w (r.fail reason) := by
  have hv : (r.fail reason).visited = r.visited ++ [.failed] := rfl
  have hs : (r.fail reason).state = .failed := rfl
  have hnone : (r.fail reason).registered = none := h.registered
  have hcourse : (r.fail reason).visited ∈ courses ∧ .patched ∉ (r.fail reason).visited := by
    rw [hv]
    have hr := h.visited
    simp only [List.mem_cons, List.not_mem_nil, or_false] at hr
    rcases hr with hr | hr | hr <;> rw [hr] <;> decide
  refine ⟨hcourse.1, ?_, ?_, ?_, ?_, ?_⟩
  · rw [hs, hv, List.getLast?_concat]
  · exact ⟨fun _ => hs, fun _ => rfl⟩
  · exact fun _ => ⟨rfl, h.staged⟩
  · rw [hnone]
    exact ⟨fun hf => absurd hf (by simp), fun hp => absurd hp hcourse.2⟩
  · intro hd
    rw [hs] at hd
    exact absurd hd (by decide)

/-! ### From the host on -/

/-- A report of an integration that has looked for the host. -/
structure Located (r : Report) : Prop where
  visited : r.visited = located
  failure : r.failure = none
  registered : r.registered = none

/-- A report of an integration that came to its end: with a warning, or with a registration. -/
structure Finished (r : Report) : Prop where
  state : r.state = .done
  failure : r.failure = none
  -- How it came to its end.
  ending :
    (r.visited = located ++ [.done] ∧ r.registered = none ∧ r.warnings ≠ []) ∨
    (r.visited = located ++ [.patched, .done] ∧ r.registered.isSome)

theorem Finished.orderly (h : Finished r) (before after : Workspace) :
    Orderly before after r := by
  have hcourse : r.visited ∈ courses := by
    rcases h.ending with ⟨hv, -, -⟩ | ⟨hv, -⟩ <;> rw [hv] <;> decide
  refine ⟨hcourse, ?_, ?_, ?_, ?_, ?_⟩
  · rw [h.state]
    rcases h.ending with ⟨hv, -, -⟩ | ⟨hv, -⟩ <;> rw [hv] <;> rfl
  · rw [h.failure, h.state]
    decide
  · intro hf
    rw [h.state] at hf
    exact absurd hf (by decide)
  · rcases h.ending with ⟨hv, hn, -⟩ | ⟨hv, hr⟩
    · rw [hv, hn]
      decide
    · rw [hv]
      exact ⟨fun _ => by decide, fun _ => hr⟩
  · intro _ hp
    rcases h.ending with ⟨-, -, hw⟩ | ⟨hv, -⟩
    · exact hw
    · exact absurd (by rw [hv]; decide) hp

theorem Located.finished_of_warning (h : Located r) (i : Issue) :
    Finished ({ r with warnings := r.warnings ++ [i] }.reach .done) := by
  refine ⟨rfl, h.failure, Or.inl ⟨?_, h.registered, ?_⟩⟩
  · show r.visited ++ [.done] = _
    rw [h.visited]
  · show r.warnings ++ [i] ≠ []
    simp

theorem Located.finished_of_registered {s : Report} {g : Registered} (h : Located r)
    (hvisited : s.visited = r.visited ++ [.patched]) (hfailure : s.failure = r.failure)
    (hregistered : s.registered = some g) : Finished (s.reach .done) := by
  refine ⟨rfl, hfailure.trans h.failure, Or.inr ⟨?_, ?_⟩⟩
  · show s.visited ++ [.done] = _
    rw [hvisited, h.visited]
    rfl
  · show s.registered.isSome
    rw [hregistered]
    rfl

theorem Registering.finished {primary : Staged} {q : Request}
    (hways : Registering w o layout primary q r r' after) (h : Located r) : Finished r' := by
  cases hways with
  | refused i => exact h.finished_of_warning i
  | hidden => exact h.finished_of_registered rfl rfl rfl
  | shown _ _ displayed =>
    obtain ⟨marker, warnings, rfl⟩ := display_eq displayed
    exact h.finished_of_registered rfl rfl rfl

theorem wire_finished (h : Located r) (hr : (wire base w o layout r).report = .ok r') : Finished r' := by
  rcases wire_cases hr with ⟨i, rfl, -⟩ | ⟨host, primary, path, script, -, -, -, -, hinto⟩
  · exact h.finished_of_warning i
  · rw [hinto] at hr
    obtain ⟨q, after, -, -, hways⟩ := wireInto_cases hr
    exact hways.finished h

/-! ### The whole integration -/

theorem staged_located (hv : r.visited = [.start, .generated, .parsed]) (hf : r.failure = none)
    (hn : r.registered = none) (layout : Layout) (files : List Staged) :
    Located (staged r layout files) := by
  refine ⟨?_, hf, hn⟩
  show r.visited ++ [.staged] ++ [.located] = _
  rw [hv]
  rfl

theorem place_orderly (hv : r.visited = [.start, .generated, .parsed]) (hs : r.staged = [])
    (hf : r.failure = none) (hn : r.registered = none) (hr : (place base w o r).report = .ok r') :
    Orderly w (place base w o r).workspace r' := by
  rcases place_cases hr with ⟨p, rfl, hw⟩ | ⟨layout, files, after, -, -, hplace⟩
  · rw [hw]
    exact Early.fail_orderly ⟨by simp [hv], hs, hn⟩ w _
  · rw [hplace] at hr
    exact (wire_finished (staged_located hv hf hn layout files) hr).orderly _ _

/-- A response that has been generated is gone on with in an orderly way. -/
theorem proceed_orderly {raw : Text} (hv : r.visited = [.start, .generated]) (hs : r.staged = [])
    (hf : r.failure = none) (hn : r.registered = none) (hr : (proceed base w o r raw).report = .ok r') :
    Orderly w (proceed base w o r raw).workspace r' := by
  rcases proceed_cases hr with ⟨rfl, hw⟩ | ⟨artifacts, -, hplaced⟩
  · rw [hw]
    exact Early.fail_orderly ⟨by simp [hv], hs, hn⟩ w _
  · rw [hplaced] at hr ⊢
    refine place_orderly ?_ hs hf hn hr
    show r.visited ++ [.parsed] = _
    rw [hv]
    rfl

theorem ofExchange_orderly {e : Model.Exchange} (hr : (ofExchange base w o e).report = .ok r) :
    Orderly w (ofExchange base w o e).workspace r := by
  unfold ofExchange ofExchangeWith at hr ⊢
  dsimp only at hr ⊢
  split
  next raw he =>
    simp only [he, proceedWide] at hr ⊢
    split
    next text htext =>
      simp only [htext] at hr
      exact proceed_orderly rfl rfl rfl rfl hr
    next u hu =>
      simp only [hu] at hr
      cases hr
  next he =>
    simp only [he] at hr
    cases hr
  next he =>
    simp only [he] at hr
    cases hr
  next f _ _ he =>
    simp only [he] at hr
    cases hr
    exact Early.fail_orderly ⟨by decide, rfl, rfl⟩ w _

/-- **Every report is orderly.**  Its stages form one of the five courses and its state is the last
of them; a reason is given exactly for a failure, which has changed nothing and staged nothing; a
registration is reported exactly when its stage was reached; and an integration that is done without
one has warned. -/
theorem report_orderly {base : Location} {w : Workspace} {o : Options} {out : Outcome} {r : Report}
    (h : Conducted base w o out) (hr : out.report = .ok r) : Orderly w out.workspace r := by
  cases h with
  | withoutModel =>
    cases hr
    exact Early.fail_orderly ⟨by decide, rfl, rfl⟩ w _
  | run client reply => exact ofExchange_orderly hr
  | exchange e => exact ofExchange_orderly hr
  | response raw => exact proceed_orderly rfl rfl rfl rfl hr

/-- A workspace that holds one host. -/
def hostOnly : Workspace :=
  { root := []
    disk := .directory
      [("m.ts".toList, .file (Utf8.encode "@NgModule(\x7bdeclarations: []\x7d)".toList))] }

/-- A response with one script. -/
def scriptOnly : Text :=
  "### filename: w.ts ###\n\x60\x60\x60\nexport class W \x7b\x7d\n\x60\x60\x60".toList

/-- A response that is registered goes through all stages, in order. -/
theorem report_orderly_of_script :
    ∃ r, (integrate [] hostOnly { hints := { host := some "m.ts".toList } } scriptOnly).report =
        .ok r ∧
      r.visited = located ++ [.patched, .done] ∧
      Orderly hostOnly
        (integrate [] hostOnly { hints := { host := some "m.ts".toList } } scriptOnly).workspace r := by
  have h : (integrate [] hostOnly { hints := { host := some "m.ts".toList } }
      scriptOnly).report.toOption.map Report.visited = some (located ++ [.patched, .done]) := by
    decide +kernel
  cases hr : (integrate [] hostOnly { hints := { host := some "m.ts".toList } }
      scriptOnly).report with
  | error f =>
    rw [hr] at h
    cases h
  | ok r =>
    rw [hr] at h
    exact ⟨r, rfl, Option.some.inj h, report_orderly (.response _) hr⟩

end Graft.Integration
