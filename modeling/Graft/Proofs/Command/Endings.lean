import Graft.Command.Run
import Graft.Proofs.Integration.Faults
import Graft.Yaml.Simple

/-
How commands end.

* `Settings.Illegible yaml`, `Session.Unreadable` — files of settings, and of a response, that cannot be
  read and are not told to be a problem either;
* `Settings.read_fault_iff`, `Session.response_fault_iff` — **no other file makes reading them end in a
  fault**;
* `Session.Reason`, `Session.ReasonToParse` — what a command may fail for;
* `Command.Ends e why` — an effect with code 0, or with code 1 and a reason among what is printed;
* `Session.integrate_done_iff` — an integration has code 0 exactly when its report is done;
* `Session.answer_ends_iff` — **a command line to integrate or to parse ends so, without a fault, exactly
  when its files can be read, no fault escapes from what is integrated, and its report can be printed**.

Design notes: a command is a chain of readings with one integration at the end.  Each link either goes on,
says why it does not, or has a fault, and the lemma about it says which.  The reader of documents is that of
the session, and nothing is taken for granted about it.
-/
namespace Graft

open Command Workspace

/-! ### Settings -/

namespace Settings

variable {yaml : Yaml.Reader} {limits : Limits} {disk : Tree} {directory : Location} {path : Text}

/-- What stands at a place that settings cannot be read from, though it is not told to be a problem. -/
inductive Illegible (yaml : Yaml.Reader) : Except Obstacle ByteArray → Prop
  | directory : Illegible yaml (.error .isDirectory)
  -- The place cannot be looked up.
  | tooLong : Illegible yaml (.error .tooLong)
  | forbidden : Illegible yaml (.error .forbidden)
  -- The reader of documents has an error of its own.
  | faulty {octets : ByteArray} {f : Fault} (read : yaml octets = .error (.fault f)) :
      Illegible yaml (.ok octets)

theorem ofOctets_fault_iff {octets : ByteArray} :
    (∃ f, ofOctets yaml path octets = .error (.fault f)) ↔ ∃ f, yaml octets = .error (.fault f) := by
  rw [ofOctets]
  cases hv : yaml octets with
  | error e => cases e <;> simp
  | ok v => cases hs : ofValue v <;> simp [Except.mapError, hs]

/-- **Settings are read, or told to be a problem, unless what stands at their place is illegible.** -/
theorem read_fault_iff : (∃ f, read yaml limits disk directory path = .error (.fault f)) ↔
    '\x00' ∉ Path.tidy path ∧ Illegible yaml (disk.lookUp limits directory (Path.tidy path)) := by
  rw [read]
  by_cases hnul : '\x00' ∈ Path.tidy path
  · simp [hnul]
  · rw [if_neg (by simpa using hnul), and_iff_right hnul]
    cases disk.lookUp limits directory (Path.tidy path) with
    | error o =>
      cases o with
      | isDirectory => exact iff_of_true ⟨_, rfl⟩ .directory
      | tooLong => exact iff_of_true ⟨_, rfl⟩ .tooLong
      | forbidden => exact iff_of_true ⟨_, rfl⟩ .forbidden
      | missing | occupied | notDirectory => exact iff_of_false (by simp) (by rintro ⟨⟩)
    | ok octets =>
      dsimp only
      rw [ofOctets_fault_iff]
      constructor
      · rintro ⟨f, hf⟩
        exact .faulty hf
      · rintro (_ | _ | _ | hf)
        exact ⟨_, hf⟩

end Settings

/-! ### Endings -/

namespace Command

/-- An end with code 0, or with code 1 and a reason among what was printed. -/
def Ends (e : Effect) (why : Text → Prop) : Prop :=
  e.status.code = 0 ∨ e.status.code = 1 ∧ ∃ reason, why reason ∧ ∃ l ∈ e.lines, reason <:+: l

/-- A command that stops and says why. -/
theorem Stop.ends_of_said {lines : List Text} {disk : Tree} {m : Text} {why : Text → Prop}
    (h : why m) : Ends ((Stop.said m).effect lines disk) why :=
  .inr ⟨rfl, m, h, m, List.mem_append_right _ (List.mem_singleton_self m), List.infix_rfl⟩

variable {lines : List Text} {out : Integration.Outcome} {r : Integration.Report}

/-- A report that has not failed can be printed. -/
theorem exists_outcomeLine (h : r.state ≠ .failed) : ∃ last, r.outcomeLine.toText = .ok last := by
  have hphrase : r.outcomePhrase = Text.wide "success".toList ∨ r.outcomePhrase = Text.wide "partial".toList := by
    rw [Integration.Report.outcomePhrase, Integration.Report.succeeded]
    cases r.warnings.isEmpty <;> simp [h]
  rw [Integration.Report.outcomeLine]
  rcases hphrase with hphrase | hphrase <;> rw [hphrase, ← Text.wide_append] <;> exact ⟨_, Text.toText_wide _⟩

theorem ofOutcome_fault_iff : (ofOutcome lines out).fault = none ↔
    ∃ r last, out.report = .ok r ∧ r.outcomeLine.toText = .ok last := by
  rw [ofOutcome]
  cases out.report with
  | error f => simp [Stop.effect]
  | ok r =>
    dsimp only
    cases hlast : r.outcomeLine.toText <;> simp [Stop.effect, hlast]

theorem ofOutcome_done_iff :
    (ofOutcome lines out).status.code = 0 ↔ ∃ r, out.report = .ok r ∧ r.state ≠ .failed := by
  rw [ofOutcome]
  cases out.report with
  | error f => simp [Stop.effect, Status.code]
  | ok r =>
    dsimp only
    by_cases hs : r.state = .failed
    · cases r.outcomeLine.toText <;>
        simp [Stop.effect, Integration.Report.succeeded, hs, Status.code]
    · obtain ⟨last, hlast⟩ := exists_outcomeLine hs
      simp [hlast, Integration.Report.succeeded, hs, Status.code]

/-- A report that has failed says why in its last line. -/
theorem infix_outcomeLine {m : Wide} {last : Text} (hstate : r.state = .failed) (hfailure : r.failure = some m)
    (hlast : r.outcomeLine.toText = .ok last) : ∃ t : Text, m = t.wide ∧ t <:+: last := by
  have hline : last.wide = Text.wide "Outcome: failed (".toList ++ m ++ Text.wide ")".toList := by
    rw [← Wide.toText_eq_ok_iff.mp hlast, Integration.Report.outcomeLine, Integration.Report.outcomePhrase,
      Integration.Report.succeeded, hstate, hfailure]
    rfl
  obtain ⟨front, back, rfl, hfront, -⟩ := List.map_eq_append_iff.mp hline
  obtain ⟨before, t, rfl, -, ht⟩ := List.map_eq_append_iff.mp hfront
  exact ⟨t, ht.symm, before, back, rfl⟩

end Command

namespace Session

variable {s : Session} {path : Text} {t : Target} {http : Nat → Gemini.HttpOutcome}

/-- A file of settings that cannot be read, and is not told to be a problem either. -/
def Illegible (s : Session) (path : Text) : Prop :=
  '\x00' ∉ Path.tidy path ∧
    Settings.Illegible s.yaml (s.disk.lookUp s.limits s.directory (Path.tidy path))

theorem settings_fault_iff (s : Session) (path : Text) :
    (∃ f, s.settings path = .error (.fault f)) ↔ s.Illegible path := by
  rw [Illegible, ← Settings.read_fault_iff, settings]
  cases Settings.read s.yaml s.limits s.disk s.directory path with
  | ok settings => simp
  | error e => cases e <;> simp

/-- A file of a response whose octets are no text, or whose path holds a NUL. -/
def Unreadable (s : Session) (path : Text) : Prop :=
  '\x00' ∈ Path.tidy path ∨ ∃ octets f,
    s.disk.lookUp s.limits s.directory (Path.tidy path) = .ok octets ∧ Utf8.decode octets = .error f

/-- **A response is read, or it is said why not, unless its octets are no text, or its path holds a NUL.** -/
theorem response_fault_iff (s : Session) (path : Text) :
    (∃ f, s.response path = .error (.fault f)) ↔ s.Unreadable path := by
  rw [response, Unreadable]
  by_cases hnul : '\x00' ∈ Path.tidy path
  · simp [hnul]
  · rw [if_neg (by simpa using hnul), or_iff_right hnul]
    cases s.disk.lookUp s.limits s.directory (Path.tidy path) with
    | error o => simp
    | ok octets => cases hd : Utf8.decode octets <;> simp [hd]

/-! ### To integrate -/

/-- What is integrated when settings and a response have been read. -/
def integration (s : Session) (t : Target) (settings : Settings) (raw : Text) : Integration.Outcome :=
  Integration.integrate s.directory (s.workspace t) (options settings t [] []) raw

/-- What a command to integrate may fail for. -/
inductive Reason (s : Session) (path : Text) (t : Target) : Text → Prop
  | settings {m : Text} (stopped : s.settings t.settings = .error (.said m)) : Reason s path t m
  | response {m : Text} (stopped : s.response path = .error (.said m)) : Reason s path t m
  | integration {settings : Settings} {raw m : Text} {r : Integration.Report}
      (configured : s.settings t.settings = .ok settings) (read : s.response path = .ok raw)
      (report : (s.integration t settings raw).report = .ok r) (state : r.state = .failed)
      (failure : r.failure = some m.wide) : Reason s path t m

/-- Nothing that a command to integrate finds is beyond what it answers for. -/
structure Answerable (s : Session) (path : Text) (t : Target) : Prop where
  settings : ¬ s.Illegible t.settings
  -- What comes behind the settings counts once these are read.
  response : ∀ settings, s.settings t.settings = .ok settings → ¬ s.Unreadable path
  quiet : ∀ settings raw as f, s.settings t.settings = .ok settings → s.response path = .ok raw →
    Response.parse? raw = some as →
    ¬ Integration.Escapes s.directory (s.workspace t) (options settings t [] []) as f
  -- The last line of the report holds no surrogate.
  printable : ∀ settings raw r, s.settings t.settings = .ok settings → s.response path = .ok raw →
    (s.integration t settings raw).report = .ok r → ∃ last, r.outcomeLine.toText = .ok last

/-- A command to integrate has no fault exactly when all that it finds is answered for. -/
theorem integrate_faultless_iff (htold : ¬ Integration.Untold (s.workspace t) t.hints) :
    (s.integrate path t).fault = none ↔ s.Answerable path t := by
  have hsettings := s.settings_fault_iff t.settings
  have hresponse := s.response_fault_iff path
  rw [integrate]
  cases hs : s.settings t.settings with
  | error stop =>
    rw [hs] at hsettings
    cases stop with
    | said m =>
      have hlegible : ¬ s.Illegible t.settings := fun h => by simpa using hsettings.mpr h
      exact iff_of_true rfl ⟨hlegible, fun _ h => by simp [hs] at h, fun _ _ _ _ h => by simp [hs] at h,
        fun _ _ _ h => by simp [hs] at h⟩
    | fault f =>
      exact iff_of_false (by simp [Stop.effect]) fun h => h.settings (hsettings.mp ⟨f, rfl⟩)
  | ok settings =>
    rw [hs] at hsettings
    have hlegible : ¬ s.Illegible t.settings := fun h => by simpa using hsettings.mpr h
    cases hr : s.response path with
    | error stop =>
      rw [hr] at hresponse
      cases stop with
      | said m =>
        have hreadable : ¬ s.Unreadable path := fun h => by simpa using hresponse.mpr h
        exact iff_of_true rfl ⟨hlegible, fun _ _ => hreadable, fun _ _ _ _ _ h => by simp [hr] at h,
          fun _ _ _ _ h => by simp [hr] at h⟩
      | fault f =>
        exact iff_of_false (by simp [Stop.effect]) fun h => h.response _ hs (hresponse.mp ⟨f, rfl⟩)
    | ok raw =>
      rw [hr] at hresponse
      have hreadable : ¬ s.Unreadable path := fun h => by simpa using hresponse.mpr h
      dsimp only
      rw [ofOutcome_fault_iff]
      constructor
      · rintro ⟨r, last, hreport, hlast⟩
        refine ⟨hlegible, fun _ _ => hreadable, fun settings' raw' as f hs' hr' hp hescapes => ?_,
          fun settings' raw' r' hs' hr' hreport' => ?_⟩
        · obtain rfl := Except.ok.inj (hs.symm.trans hs')
          obtain rfl := Except.ok.inj (hr.symm.trans hr')
          rw [(Integration.integrate_fault_iff htold).mpr ⟨as, hp, hescapes⟩] at hreport
          cases hreport
        · obtain rfl := Except.ok.inj (hs.symm.trans hs')
          obtain rfl := Except.ok.inj (hr.symm.trans hr')
          obtain rfl := Except.ok.inj (hreport.symm.trans hreport')
          exact ⟨last, hlast⟩
      · intro h
        cases hreport : (Integration.integrate s.directory (s.workspace t) (options settings t [] [])
            raw).report with
        | ok r =>
          obtain ⟨last, hlast⟩ := h.printable settings raw r hs hr hreport
          exact ⟨r, last, rfl, hlast⟩
        | error f =>
          obtain ⟨as, hp, hescapes⟩ := (Integration.integrate_fault_iff htold).mp hreport
          exact absurd hescapes (h.quiet settings raw as f hs hr hp)

/-- A command to integrate without a fault ends with code 0, or prints a reason. -/
theorem integrate_ends (h : (s.integrate path t).fault = none) :
    Ends (s.integrate path t) (s.Reason path t) := by
  rw [integrate] at h ⊢
  cases hs : s.settings t.settings with
  | error stop =>
    rw [hs] at h
    cases stop with
    | said m => exact Stop.ends_of_said (.settings hs)
    | fault f => cases h
  | ok settings =>
    rw [hs] at h
    dsimp only at h ⊢
    cases hr : s.response path with
    | error stop =>
      rw [hr] at h
      cases stop with
      | said m => exact Stop.ends_of_said (.response hr)
      | fault f => cases h
    | ok raw =>
      rw [hr] at h
      obtain ⟨r, last, hreport, hlast⟩ := ofOutcome_fault_iff.mp h
      have horderly := Integration.report_orderly (.response raw) hreport
      rw [Ends, ofOutcome_done_iff]
      by_cases hstate : r.state = .failed
      · obtain ⟨m, hm⟩ := Option.isSome_iff_exists.mp (horderly.failure.mpr hstate)
        obtain ⟨t, rfl, hinfix⟩ := infix_outcomeLine hstate hm hlast
        refine .inr ⟨?_, t, .integration hs hr hreport hstate hm, last, ?_, hinfix⟩
        · simp only [ofOutcome, hreport, hlast, Integration.Report.succeeded, hstate]
          rfl
        · simp only [ofOutcome, hreport, hlast, List.mem_append, List.mem_singleton, or_true]
      · exact .inl ⟨r, hreport, hstate⟩

/-- **A command to integrate has code 0 exactly when its report is done.** -/
theorem integrate_done_iff : (s.integrate path t).status.code = 0 ↔
    ∃ settings raw r, s.settings t.settings = .ok settings ∧ s.response path = .ok raw ∧
      (s.integration t settings raw).report = .ok r ∧ r.state = .done := by
  rw [integrate]
  cases hs : s.settings t.settings with
  | error stop => cases stop <;> simp [Stop.effect, Status.code]
  | ok settings =>
    cases hr : s.response path with
    | error stop => cases stop <;> simp [Stop.effect, Status.code]
    | ok raw =>
      dsimp only
      rw [ofOutcome_done_iff]
      constructor
      · rintro ⟨r, hreport, hne⟩
        have hended := (Integration.report_orderly (.response raw) hreport).ended
        exact ⟨settings, raw, r, rfl, rfl, hreport, hended.resolve_right hne⟩
      · rintro ⟨_, _, r, hs', hr', hreport, hdone⟩
        obtain rfl := Except.ok.inj hs'
        obtain rfl := Except.ok.inj hr'
        exact ⟨r, hreport, by rw [hdone]; decide⟩

/-! ### To parse -/

/-- What a command to parse may fail for. -/
inductive ReasonToParse (s : Session) (path : Text) : Text → Prop
  | response {m : Text} (stopped : s.response path = .error (.said m)) : ReasonToParse s path m
  | empty {raw : Text} (read : s.response path = .ok raw) (none : Response.parse? raw = none) :
      ReasonToParse s path Response.emptyMessage

/-- A command to parse has no fault exactly when the response can be read, and then it ends with code 0, or
prints a reason. -/
theorem parse_ends : ((s.parse path).fault = none ↔ ¬ s.Unreadable path) ∧
    ((s.parse path).fault = none → Ends (s.parse path) (s.ReasonToParse path)) := by
  have hresponse := s.response_fault_iff path
  rw [parse]
  cases hr : s.response path with
  | error stop =>
    rw [hr] at hresponse
    cases stop with
    | said m =>
      have hreadable : ¬ s.Unreadable path := fun h => by simpa using hresponse.mpr h
      exact ⟨iff_of_true rfl hreadable, fun _ => Stop.ends_of_said (.response hr)⟩
    | fault f =>
      have hunreadable : s.Unreadable path := hresponse.mp ⟨f, rfl⟩
      exact ⟨iff_of_false (by simp [Stop.effect]) (not_not.mpr hunreadable),
        fun h => by simp [Stop.effect] at h⟩
  | ok raw =>
    rw [hr] at hresponse
    have hreadable : ¬ s.Unreadable path := fun h => by simpa using hresponse.mpr h
    dsimp only
    cases hp : Response.parse? raw with
    | none => exact ⟨iff_of_true rfl hreadable, fun _ => Stop.ends_of_said (.empty hr hp)⟩
    | some as => exact ⟨iff_of_true rfl hreadable, fun _ => .inl rfl⟩

/-! ### Command lines -/

/-- **A command line to integrate or to parse ends without a fault exactly when its files can be read, no fault
escapes from what is integrated, and its report can be printed**, whatever reads documents, if the source root
is told.  It then has code 0, or code 1 and has printed a reason; to integrate has code 0 exactly when the report
is done. -/
theorem answer_ends_iff (s : Session) (http : Nat → Gemini.HttpOutcome) (arguments : List Text) :
    (∀ path t, Command.ofArguments arguments = .ok (.integrate path t) →
      ¬ Integration.Untold (s.workspace t) t.hints →
      ((s.answer http arguments).fault = none ↔ s.Answerable path t) ∧
      ((s.answer http arguments).fault = none → Ends (s.answer http arguments) (s.Reason path t)) ∧
      ((s.answer http arguments).status.code = 0 ↔
        ∃ settings raw r, s.settings t.settings = .ok settings ∧ s.response path = .ok raw ∧
          (s.integration t settings raw).report = .ok r ∧ r.state = .done)) ∧
    (∀ path, Command.ofArguments arguments = .ok (.parse path) →
      ((s.answer http arguments).fault = none ↔ ¬ s.Unreadable path) ∧
      ((s.answer http arguments).fault = none →
        Ends (s.answer http arguments) (s.ReasonToParse path))) := by
  refine ⟨fun path t harguments htold => ?_, fun path harguments => ?_⟩
  · have hrun : s.answer http arguments = s.integrate path t := by
      rw [answer, harguments]
      rfl
    rw [hrun]
    exact ⟨integrate_faultless_iff htold, integrate_ends, integrate_done_iff⟩
  · have hrun : s.answer http arguments = s.parse path := by
      rw [answer, harguments]
      rfl
    rw [hrun]
    exact parse_ends

/-- A session with a response of one script, and a file whose octets are no text. -/
def shelf : Session where
  disk := .directory [("w.md".toList, .file (Utf8.encode Integration.scriptOnly)),
    ("b.md".toList, .file ⟨#[0xFF]⟩)]
  directory := []
  yaml := Yaml.simple none

/-- A network that nothing comes from. -/
def silence : Nat → Gemini.HttpOutcome := fun _ => .timedOut

/-- Without a manifest the response is parsed, and it is told why it is not integrated. -/
theorem answer_ends_shelf :
    Ends (shelf.answer silence ["integrate".toList, "w.md".toList]) (shelf.Reason "w.md".toList {}) ∧
      (shelf.answer silence ["integrate".toList, "w.md".toList]).status.code = 1 ∧
      Ends (shelf.answer silence ["parse".toList, "w.md".toList]) (shelf.ReasonToParse "w.md".toList) := by
  have htold : ¬ Integration.Untold (shelf.workspace {}) {} := by
    rintro ⟨-, m, given, u, hload, -⟩
    have hnone : (Manifest.load (shelf.workspace {})).toBool = false := by decide +kernel
    rw [hload] at hnone
    cases hnone
  have hintegrate := (answer_ends_iff shelf silence ["integrate".toList, "w.md".toList]).1 "w.md".toList {}
    (by decide +kernel) htold
  have hparse := (answer_ends_iff shelf silence ["parse".toList, "w.md".toList]).2 "w.md".toList
    (by decide +kernel)
  exact ⟨hintegrate.2.1 (by decide +kernel), by decide +kernel, hparse.2 (by decide +kernel)⟩

/-- There is no reason but a fault for octets that are no text. -/
theorem answer_ends_undecodable : ¬ ∀ (s : Session) (http : Nat → Gemini.HttpOutcome)
    (arguments : List Text) (path : Text), Command.ofArguments arguments = .ok (.parse path) →
      (s.answer http arguments).fault = none := by
  intro hall
  have hnone := hall shelf silence ["parse".toList, "b.md".toList] "b.md".toList
    (by decide +kernel)
  have hunreadable : (shelf.answer silence
      ["parse".toList, "b.md".toList]).fault.isSome = true := by decide +kernel
  rw [hnone] at hunreadable
  cases hunreadable

end Session
end Graft
