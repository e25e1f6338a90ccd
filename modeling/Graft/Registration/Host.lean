import Graft.Telemetry
import Graft.Workspace

/-
Registering a class in a host file of a workspace.

  `register w r`      the host read, the insertions planned, and the host written back;
  `Notice`            what is told on the way, as telemetry;
  `Registered`        the insertions made;
  `HostError`         why the host is left as it is.

The host is written at most once, and not at all when nothing is to be inserted.
-/
namespace Graft.Registration

/-- What a registration tells. -/
inductive Notice where
  | unreadable (target message : Text)
  | mismatched (target message : Text)
  | present (target : Text)
  | planned (target symbol : Text) (role : Role) (edits : List Insertion)
  | applied (target : Text) (count : Nat)
  deriving DecidableEq, Repr

open Telemetry in
/-- The event of a host that was passed over. -/
def skipped (reason target : Text) (more : List (Text × Payload)) : Event :=
  ⟨"patch_skipped".toList,
    [("reason".toList, .text reason), ("target".toList, .text target)] ++ more⟩

open Telemetry in
/-- The event of insertions that have been planned. -/
def plannedEvent (target : Text) (symbol : Wide) (role : Role) (edits : List (Insertion Point)) :
    Event :=
  ⟨"patch_planned".toList,
    [("target".toList, .text target), ("symbol".toList, .text symbol),
     ("insertion_kind".toList, .role role), ("edits".toList, .list (edits.map .insertion))]⟩

open Telemetry in
def Notice.event : Notice → Event
  | .unreadable target message =>
    skipped "unreadable".toList target [("message".toList, .text message)]
  | .mismatched target message =>
    skipped "grammar-mismatch".toList target [("message".toList, .text message)]
  | .present target => skipped "already-present".toList target []
  | .planned target symbol role edits =>
    plannedEvent target symbol role (edits.map Insertion.wide)
  | .applied target count =>
    ⟨"patch_applied".toList,
      [("target".toList, .text target), ("edit_count".toList, .count count)]⟩

/-- What a registration did. -/
structure Registered where
  path : Text
  role : Role
  edits : List Insertion
  deriving DecidableEq, Repr

def Registered.changed (r : Registered) : Bool := !r.edits.isEmpty

/-- Why a host is left as it is. -/
inductive HostError where
  | unreadable (target : Text) (e : Workspace.PathError)
  | mismatch (m : Mismatch)
  | outOfRange (e : Insertion.OutOfRange)
  | unwritten (e : Workspace.PathError)
  | fault (f : Fault)
  deriving DecidableEq, Repr

def HostError.message : HostError → Text
  | .unreadable target e =>
    "Could not read host file ".toList ++ target ++ ": ".toList ++ e.message
  | .mismatch m => m.message
  | .outOfRange e => e.message
  | .unwritten e => e.message
  | .fault f => f.message

/-- What comes of a registration. -/
structure Outcome where
  -- What was done, or why nothing was.
  result : Except HostError Registered
  notices : List Notice
  workspace : Workspace

def insert (w : Workspace) (r : Request) (source : Text) (edits : List Insertion) : Outcome :=
  let planned := Notice.planned r.target r.symbol r.role edits
  match Insertion.applyAll source edits with
  | .error e => ⟨.error (.outOfRange e), [planned], w⟩
  | .ok text =>
    match w.write r.target text with
    | (.error (.path e), w) => ⟨.error (.unwritten e), [planned], w⟩
    | (.error (.fault f), w) => ⟨.error (.fault f), [planned], w⟩
    | (.ok _, w) =>
      ⟨.ok ⟨r.target, r.role, edits⟩, [planned, .applied r.target edits.length], w⟩

/-- Registers a class in a host file. -/
def register (w : Workspace) (r : Request) : Outcome :=
  match w.read r.target with
  | .error (.fault f) => ⟨.error (.fault f), [], w⟩
  | .error (.path e) =>
    ⟨.error (.unreadable r.target e), [.unreadable r.target e.message], w⟩
  | .ok source =>
    match plan source r with
    | .error m => ⟨.error (.mismatch m), [.mismatched r.target m.message], w⟩
    | .ok [] => ⟨.ok ⟨r.target, r.role, []⟩, [.present r.target], w⟩
    | .ok edits => insert w r source edits

end Graft.Registration
