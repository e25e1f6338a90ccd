import Graft.Proofs.Registration.Wide
import Graft.Proofs.Telemetry.Lines
import Mathlib.Data.List.Forall2

/-
What a registration tells, and what can be read from it.

* `Notice.ofLine? limit t` — the notice that a line tells;
* `Notice.ofLine?_line` — **a notice is read back from its line**, whatever its texts hold;
* `Logged ns log` — a log of notices, each on a line with a timestamp of its own;
* `announced ns` — the insertions that notices announce;
* `register_told` — **a registration tells what it does**: the log of it is one of five, it can be read back,
  and the insertions announced in it make the host what it is then, if it could be written;
* `register_told_spoiled` — of a host that cannot be written, and of one whose new text would hold a
  surrogate, no more is told than what was planned.

Design notes: numbers are read up to a limit of digits, so a host must not be longer than numbers of that
many digits tell; no text in memory comes near it.
-/
namespace Graft.Registration

open Telemetry Workspace
open Json (PlainAscii Allows)

variable {w : Workspace} {r : Request} {n : Notice} {limit : Option Nat}

/-! ### Reading a notice -/

/-- The text under a name of an object. -/
def textOf? (v : Json) (key : Text) : Option Text := do
  let t ← (v.member? key).bind Json.text?
  t.toText.toOption

/-- The whole number under a name of an object. -/
def wholeOf? (v : Json) (key : Text) : Option Int :=
  match v.member? key with
  | some (.num (.int n)) => some n
  | _ => none

def insertionOf? (v : Json) : Option Insertion := do
  let position ← wholeOf? v "position".toList
  let text ← textOf? v "text".toList
  return ⟨position, text⟩

/-- The insertions under a name of an object. -/
def insertionsOf? (v : Json) (key : Text) : Option (List Insertion) :=
  match v.member? key with
  | some (.arr items) => items.mapM insertionOf?
  | _ => none

/-- The notice of a host that was passed over. -/
def skippedOf? (v : Json) (target : Text) : Option Notice := do
  let reason ← textOf? v "reason".toList
  if reason = "already-present".toList then return .present target
  let message ← textOf? v "message".toList
  if reason = "unreadable".toList then return .unreadable target message
  if reason = "grammar-mismatch".toList then return .mismatched target message
  none

def plannedOf? (v : Json) (target : Text) : Option Notice := do
  let symbol ← textOf? v "symbol".toList
  let role ← (textOf? v "insertion_kind".toList).bind Role.ofName?
  let edits ← insertionsOf? v "edits".toList
  return .planned target symbol role edits

/-- The notice that a value tells. -/
def noticeOf? (v : Json) : Option Notice := do
  let event ← textOf? v "event".toList
  let target ← textOf? v "target".toList
  if event = "patch_skipped".toList then skippedOf? v target
  else if event = "patch_planned".toList then plannedOf? v target
  else if event = "patch_applied".toList then
    (wholeOf? v "edit_count".toList).map fun n => .applied target n.toNat
  else none

/-- The notice that a line tells, for a reader of values that nest up to a limit. -/
def Notice.ofLine? (limit : Option Nat) (t : Text) : Option Notice :=
  (Json.read limit t.wide).toOption.bind noticeOf?

theorem textOf?_of_member {v : Json} {key t : Text} (h : v.member? key = some (.str t.wide)) :
    textOf? v key = some t := by
  rw [textOf?, h]
  show (Text.wide t).toText.toOption = some t
  rw [Text.toText_wide]
  rfl

/-- What the reader of numbers can read: no number of a notice has too many digits. -/
def Notice.Short : Notice → Prop
  | .planned _ _ _ edits => ∀ e ∈ edits, Text.Short e.position.natAbs
  | .applied _ count => Text.Short count
  | _ => True

theorem jsonItems_insertions (edits : List Insertion) :
    jsonItems ((edits.map Insertion.wide).map .insertion) =
      edits.map fun e => insertionJson e.wide := by
  induction edits with
  | nil => rfl
  | cons e es ih => rw [List.map_cons, List.map_cons, List.map_cons, jsonItems, ih, Payload.json]

theorem mapM_eq_some_of_forall₂ {α β : Type} {f : α → Option β} {xs : List α} {ys : List β}
    (h : List.Forall₂ (fun x y => f x = some y) xs ys) : xs.mapM f = some ys := by
  induction h with
  | nil => rfl
  | cons hfirst _ ih =>
    rw [List.mapM_cons, hfirst, ih]
    rfl

theorem insertionOf?_json (e : Insertion) : insertionOf? (insertionJson e.wide) = some e := by
  have htext : textOf? (insertionJson e.wide) "text".toList = some e.text := textOf?_of_member rfl
  rw [insertionOf?, htext]
  rfl

theorem mapM_insertionOf? (edits : List Insertion) :
    (edits.map fun e => insertionJson e.wide).mapM insertionOf? = some edits :=
  mapM_eq_some_of_forall₂ (List.forall₂_map_left_iff.mpr
    (List.forall₂_same.mpr fun e _ => insertionOf?_json e))

theorem ofName?_name (role : Role) : Role.ofName? role.name = some role := by
  cases role <;> rfl

/-- A notice is read back from the members of its event. -/
theorem noticeOf?_members (n : Notice) (timestamp : Text) :
    noticeOf? (.obj (n.event.members timestamp)) = some n := by
  generalize hv : Json.obj (n.event.members timestamp) = v
  cases n with
  | unreadable target message =>
    have hevent : textOf? v "event".toList = some "patch_skipped".toList := textOf?_of_member (hv ▸ rfl)
    have htarget : textOf? v "target".toList = some target := textOf?_of_member (hv ▸ rfl)
    have hreason : textOf? v "reason".toList = some "unreadable".toList := textOf?_of_member (hv ▸ rfl)
    have hmessage : textOf? v "message".toList = some message := textOf?_of_member (hv ▸ rfl)
    rw [noticeOf?, hevent, htarget]
    show skippedOf? v target = _
    rw [skippedOf?, hreason, hmessage]
    rfl
  | mismatched target message =>
    have hevent : textOf? v "event".toList = some "patch_skipped".toList := textOf?_of_member (hv ▸ rfl)
    have htarget : textOf? v "target".toList = some target := textOf?_of_member (hv ▸ rfl)
    have hreason : textOf? v "reason".toList = some "grammar-mismatch".toList :=
      textOf?_of_member (hv ▸ rfl)
    have hmessage : textOf? v "message".toList = some message := textOf?_of_member (hv ▸ rfl)
    rw [noticeOf?, hevent, htarget]
    show skippedOf? v target = _
    rw [skippedOf?, hreason, hmessage]
    rfl
  | present target =>
    have hevent : textOf? v "event".toList = some "patch_skipped".toList := textOf?_of_member (hv ▸ rfl)
    have htarget : textOf? v "target".toList = some target := textOf?_of_member (hv ▸ rfl)
    have hreason : textOf? v "reason".toList = some "already-present".toList :=
      textOf?_of_member (hv ▸ rfl)
    rw [noticeOf?, hevent, htarget]
    show skippedOf? v target = _
    rw [skippedOf?, hreason]
    rfl
  | applied target count =>
    have hevent : textOf? v "event".toList = some "patch_applied".toList := textOf?_of_member (hv ▸ rfl)
    have htarget : textOf? v "target".toList = some target := textOf?_of_member (hv ▸ rfl)
    have hcount : wholeOf? v "edit_count".toList = some count := hv ▸ rfl
    rw [noticeOf?, hevent, htarget]
    show (wholeOf? v "edit_count".toList).map (fun n => Notice.applied target n.toNat) = _
    rw [hcount]
    rfl
  | planned target symbol role edits =>
    have hevent : textOf? v "event".toList = some "patch_planned".toList := textOf?_of_member (hv ▸ rfl)
    have htarget : textOf? v "target".toList = some target := textOf?_of_member (hv ▸ rfl)
    have hsymbol : textOf? v "symbol".toList = some symbol := textOf?_of_member (hv ▸ rfl)
    have hrole : textOf? v "insertion_kind".toList = some role.name := textOf?_of_member (hv ▸ rfl)
    have hedits : insertionsOf? v "edits".toList = some edits := by
      have hmember : v.member? "edits".toList =
          some (.arr (jsonItems ((edits.map Insertion.wide).map .insertion))) := hv ▸ rfl
      rw [insertionsOf?, hmember]
      dsimp only
      rw [jsonItems_insertions, mapM_insertionOf?]
    rw [noticeOf?, hevent, htarget]
    show plannedOf? v target = _
    rw [plannedOf?, hsymbol, hrole, hedits]
    show (Role.ofName? role.name).bind (fun role => some (Notice.planned target symbol role edits)) = _
    rw [ofName?_name]
    rfl

theorem legible_insertionJson {d : Nat} {e : Insertion} (h : Text.Short e.position.natAbs) :
    Json.Legible (d + 1) (insertionJson e.wide) := by
  have hnames : [Text.wide "position".toList, Text.wide "text".toList].Nodup := by decide
  refine .obj hnames (fun m hm => ?_) fun m hm => ?_
  · simp only [List.mem_cons, List.not_mem_nil, or_false] at hm
    rcases hm with rfl | rfl <;> exact Json.unpaired_wide _
  · simp only [List.mem_cons, List.not_mem_nil, or_false] at hm
    rcases hm with rfl | rfl
    · exact .int _ h
    · exact .str (Json.unpaired_wide _)

theorem legible_insertions {d : Nat} {edits : List Insertion}
    (h : ∀ e ∈ edits, Text.Short e.position.natAbs) :
    Json.Legible (d + 1 + 1) (Payload.list ((edits.map Insertion.wide).map .insertion)).json := by
  rw [Payload.json, jsonItems_insertions]
  refine .arr fun v hv => ?_
  obtain ⟨e, he, rfl⟩ := List.mem_map.mp hv
  exact legible_insertionJson (h e he)

theorem legible_text {t : Text} {d : Nat} : Json.Legible d (Payload.text t.wide).json :=
  Event.legible_text (Json.unpaired_wide t)

theorem legible_skipped {more : List (Text × Payload)} {d : Nat} (reason target : Text) :
    (skipped reason target more).Legible d ↔ (Event.mk "patch_skipped".toList more).Legible d := by
  unfold skipped
  rw [List.cons_append, List.cons_append, List.nil_append, Event.legible_cons, Event.legible_cons,
    and_iff_right legible_text, and_iff_right legible_text]

/-- What a notice carries are texts, but for a role, a number and insertions. -/
theorem Notice.Short.legible (h : n.Short) : n.event.Legible 2 := by
  cases n with
  | unreadable target message => exact (legible_skipped _ _).mpr (by simp [legible_text])
  | mismatched target message => exact (legible_skipped _ _).mpr (by simp [legible_text])
  | present target => exact (legible_skipped _ _).mpr (by simp)
  | planned target symbol role edits =>
    have hrole : Json.Legible 2 (Payload.role role).json := by
      rw [Payload.json]
      exact .str (Json.unpaired_wide _)
    unfold event plannedEvent
    simp only [Event.legible_cons, legible_text, Event.legible_nil, hrole, true_and, and_true]
    exact legible_insertions h
  | applied target count =>
    have hcount : Json.Legible 2 (Payload.count count).json := by
      rw [Payload.count, Payload.json]
      exact .int _ h
    unfold event
    simp only [Event.legible_cons, legible_text, Event.legible_nil, hcount, and_true]

/-- **A notice is read back from its line**, whatever its texts hold. -/
theorem Notice.ofLine?_line (h : n.Short) (hlimit : Allows limit 3) (timestamp : Text) :
    Notice.ofLine? limit (n.event.line timestamp) = some n := by
  rw [Notice.ofLine?, h.legible.read_line hlimit]
  exact noticeOf?_members n timestamp

/-! ### The log of a registration -/

/-- A log of notices, each on a line with a timestamp of its own. -/
def Logged (ns : List Notice) (log : List Text) : Prop :=
  List.Forall₂ (fun n line => ∃ timestamp, line = n.event.line timestamp) ns log

/-- The insertions that notices announce. -/
def announced (ns : List Notice) : List Insertion :=
  ns.flatMap fun
    | .planned _ _ _ edits => edits
    | _ => []

section
variable {ns : List Notice} {log : List Text} {o : Outcome}

theorem Logged.plainAscii (h : Logged ns log) : ∀ line ∈ log, PlainAscii line := by
  induction h with
  | nil => exact List.forall_mem_nil _
  | cons hline _ ih =>
    obtain ⟨timestamp, rfl⟩ := hline
    exact List.forall_mem_cons.mpr ⟨Event.plainAscii_line _ timestamp, ih⟩

/-- Notices are read back from their log. -/
theorem Logged.mapM_ofLine? (h : Logged ns log) (hshort : ∀ n ∈ ns, n.Short)
    (hlimit : Allows limit 3) : log.mapM (Notice.ofLine? limit) = some ns := by
  have hread : List.Forall₂ (fun n line => Notice.ofLine? limit line = some n) ns log := by
    refine ((List.forall₂_and_left ns log).mpr ⟨hshort, h⟩).imp ?_
    rintro n line ⟨hn, timestamp, rfl⟩
    exact Notice.ofLine?_line hn hlimit timestamp
  exact mapM_eq_some_of_forall₂ hread.flip

/-- What a registration tells has no numbers beyond the length of the host. -/
theorem Told.short (h : Told w r o)
    (hlength : ∀ source, w.read r.target = .ok source → Text.Short source.length) :
    ∀ n ∈ o.notices, n.Short := by
  have hplaces {source : Text} {edits : List Insertion} (read : w.read r.target = .ok source)
      (planned : plan source r = .ok edits) : (Notice.planned r.target r.symbol r.role edits).Short := by
    intro e he
    have hfits := plan_fits planned e he
    simp only [Insertion.fits, Bool.and_eq_true, decide_eq_true_eq] at hfits
    exact (hlength source read).mono (by omega)
  cases h with
  | unreadable _ => simp [Notice.Short]
  | mismatched _ _ => simp [Notice.Short]
  | present _ _ => simp [Notice.Short]
  | @written source text edits after read planned =>
    have htwo : Text.Short 2 := by decide
    have hcount : (Notice.applied r.target edits.length).Short := htwo.mono (plan_length_le planned)
    simp [hplaces read planned, hcount]
  | barred read planned => simp [hplaces read planned]

/-- The insertions that are announced make the host what it is then, if it could be written. -/
theorem Told.made {source : Text} (h : Told w r o) (hread : w.read r.target = .ok source)
    (hwritten : ∀ e, o.result ≠ .error (.unwritten e)) :
    ∃ text, Insertion.applyAll source (announced o.notices) = .ok text ∧
      o.workspace.read r.target = .ok text := by
  cases h with
  | unreadable read =>
    rw [hread] at read
    cases read
  | mismatched _ _ => exact ⟨source, applyAll_nil source, hread⟩
  | present _ _ => exact ⟨source, applyAll_nil source, hread⟩
  | @written source' text edits after read planned _ made _ now =>
    obtain rfl := Except.ok.inj (hread.symm.trans read)
    have hedits : announced [.planned r.target r.symbol r.role edits, .applied r.target edits.length] =
        edits := by simp [announced]
    exact ⟨text, by rw [hedits, made], now⟩
  | barred _ _ _ _ _ => exact absurd rfl (hwritten _)

end

/-- **A registration tells what it does.**  If its path has no NUL, it ends in one of five ways, each with
notices of its own, and no file but the host is ever written.  Every line of its log is printable ASCII without
a line break.  The notices are read back from the log, and the insertions that they announce make the host what
it is then, if it could be written. -/
theorem register_told {log : List Text} (hnul : '\x00' ∉ r.target)
    (hlog : Logged (register w r).notices log) :
    Told w r (register w r) ∧ (∀ line ∈ log, PlainAscii line ∧ Text.Unbroken line) ∧
      ((∀ source, w.read r.target = .ok source → Text.Short source.length) →
        ∀ limit, Allows limit 3 → ∃ ns, log.mapM (Notice.ofLine? limit) = some ns ∧
          ns = (register w r).notices ∧ ∀ source, w.read r.target = .ok source →
            (∀ e, (register w r).result ≠ .error (.unwritten e)) → ∃ text,
              Insertion.applyAll source (announced ns) = .ok text ∧
                (register w r).workspace.read r.target = .ok text) := by
  have htold := told_register (w := w) hnul
  refine ⟨htold, fun line hline => ?_, fun hlength limit hlimit => ?_⟩
  · exact ⟨hlog.plainAscii line hline, (hlog.plainAscii line hline).unbroken⟩
  · exact ⟨_, hlog.mapM_ofLine? (htold.short hlength) hlimit, rfl, fun source => htold.made⟩

/-- A module with an empty list of classes. -/
def bareHost : Text := "@NgModule(\x7b declarations: [] \x7d)".toList

/-- A class whose import path has a quotation mark, a line feed and characters beyond ASCII. -/
def oddRequest : Request :=
  { target := "m.ts".toList, symbol := "W".toList, importPath := "./\"\né😀".toList }

/-- A workspace that holds the module, which may be locked. -/
def bareDisk (locked : Bool) : Workspace :=
  { root := [], disk := .directory [("m.ts".toList, .file (Utf8.encode bareHost) locked)] }

def oddLog : List Text :=
  (register (bareDisk false) oddRequest).notices.map fun n => n.event.line "2024-01-01".toList

theorem register_told_odd : '\x00' ∉ oddRequest.target ∧
    Told (bareDisk false) oddRequest (register (bareDisk false) oddRequest) ∧
    oddLog.length = 2 ∧ (∀ line ∈ oddLog, PlainAscii line ∧ Text.Unbroken line) ∧
    oddLog.mapM (Notice.ofLine? none) = some (register (bareDisk false) oddRequest).notices ∧
    (announced (register (bareDisk false) oddRequest).notices).length = 2 ∧
    ∃ text, Insertion.applyAll bareHost
        (announced (register (bareDisk false) oddRequest).notices) = .ok text ∧
      (register (bareDisk false) oddRequest).workspace.read oddRequest.target = .ok text := by
  have hnul : '\x00' ∉ oddRequest.target := by decide
  have hread : (bareDisk false).read oddRequest.target = .ok bareHost := by decide +kernel
  have hlogged : Logged (register (bareDisk false) oddRequest).notices oddLog :=
    List.forall₂_map_right_iff.mpr (List.forall₂_same.mpr fun n _ => ⟨_, rfl⟩)
  have hdone : (register (bareDisk false) oddRequest).result.toBool = true := by decide +kernel
  obtain ⟨htold, hascii, hback⟩ := register_told hnul hlogged
  obtain ⟨ns, hns, rfl, hmade⟩ := hback (fun source hsource => by
    obtain rfl := Except.ok.inj (hread.symm.trans hsource)
    decide) none (by simp [Allows])
  refine ⟨hnul, htold, by decide +kernel, hascii, hns, by decide +kernel,
    hmade bareHost hread fun e he => ?_⟩
  rw [he] at hdone
  cases hdone

/-- A class whose name is a surrogate. -/
def spoiledRequest : WideRequest :=
  { target := "m.ts".toList, symbol := [.surrogate ⟨0x3d, by decide⟩], importPath := Text.wide "./x".toList }

/-- Of a host that cannot be written no more is told than what was planned; of one whose new text would hold
a surrogate neither, and that is emptied. -/
theorem register_told_spoiled :
    (∃ edits e, register (bareDisk true) oddRequest =
      ⟨.error (.unwritten e), [.planned "m.ts".toList "W".toList .declared edits], bareDisk true⟩) ∧
    ∃ edits u after, registerWide (bareDisk false) spoiledRequest =
        ⟨.error (.fault (.unencodable u)), [plannedEvent "m.ts".toList [.surrogate 0x3d] .declared edits],
          after⟩ ∧
      (bareDisk false).read "m.ts".toList = .ok bareHost ∧ after.read "m.ts".toList = .ok [] := by
  have hread (locked : Bool) : (bareDisk locked).read "m.ts".toList = .ok bareHost := by
    cases locked <;> decide +kernel
  constructor
  · have hplan : ((plan bareHost oddRequest).toOption.map List.length) = some 2 := by decide +kernel
    cases hedits : plan bareHost oddRequest with
    | error m =>
      rw [hedits] at hplan
      cases hplan
    | ok edits =>
      rw [hedits] at hplan
      have htold : Told (bareDisk true) oddRequest (register (bareDisk true) oddRequest) :=
        told_register (by decide)
      have hfailed : (register (bareDisk true) oddRequest).result.toBool = false := by decide +kernel
      generalize register (bareDisk true) oddRequest = o at htold hfailed
      have hread' : (bareDisk true).read oddRequest.target = .ok bareHost := hread true
      cases htold with
      | unreadable read =>
        rw [hread'] at read
        cases read
      | mismatched read planned =>
        obtain rfl := Except.ok.inj (hread'.symm.trans read)
        rw [hedits] at planned
        cases planned
      | present read planned => cases hfailed
      | written read planned some made write now elsewhere => cases hfailed
      | barred read planned some made write => exact ⟨_, _, rfl⟩
  · have hplan : (planWide bareHost spoiledRequest).toOption.any
        (fun edits => edits.any fun e => !(Wide.toText e.text).toBool) = true := by decide +kernel
    cases hedits : planWide bareHost spoiledRequest with
    | error m =>
      rw [hedits] at hplan
      cases hplan
    | ok edits =>
      rw [hedits] at hplan
      obtain ⟨e, he, hno⟩ := List.any_eq_true.mp hplan
      have hwide : ∃ e ∈ edits, ∀ t : Text, e.text ≠ t.wide := by
        refine ⟨e, he, fun t ht => ?_⟩
        rw [ht, Text.toText_wide] at hno
        cases hno
      have hwrite : ((bareDisk false).write "m.ts".toList []).1.toBool = true ∧
          ((bareDisk false).write "m.ts".toList []).2.read "m.ts".toList = .ok [] := by decide +kernel
      rcases registerWide_unencodable (r := spoiledRequest) (hread false) hedits hwide with
        ⟨u, after, ⟨new, hafter⟩, htold⟩ | ⟨e, hbarred, -⟩
      · have hafter' : (bareDisk false).write "m.ts".toList [] = (.ok new, after) := hafter
        rw [hafter'] at hwrite
        exact ⟨edits, u, after, htold, hread false, hwrite.2⟩
      · have hbarred' : (bareDisk false).write "m.ts".toList [] = (.error (.path e), bareDisk false) :=
          hbarred
        rw [hbarred'] at hwrite
        cases hwrite.1

end Graft.Registration
