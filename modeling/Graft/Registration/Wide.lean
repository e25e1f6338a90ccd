import Graft.Registration.Host

/-
Registering a class whose name or import path is no text.

  `WideRequest`          a class to be registered, by a name and a path of code points;
  `planWide`             the insertions that register it;
  `registerWide w r`     the host read, the insertions planned, and the host written back.

No token of a host is a name with a surrogate, so such a name is planned for like one that no token
is.  What is planned with a surrogate in it is told, and fails when it is written; by then the host
has been emptied.
-/
namespace Graft.Registration

open Script

/-- A class to be registered, by a name and a path of code points. -/
structure WideRequest where
  target : Text
  symbol : Wide
  -- The module specifier to import it from.
  importPath : Wide
  role : Role := .declared
  deriving DecidableEq, Repr

/-- A request as one of code points. -/
def Request.wide (r : Request) : WideRequest :=
  ⟨r.target, r.symbol.wide, r.importPath.wide, r.role⟩

/-- The text that a wide one is; the empty text, which is no token, stands for all others. -/
def orEmpty (t : Wide) : Text := t.toText.toOption.getD []

/-- A request with texts only. -/
def WideRequest.bare (r : WideRequest) : Request :=
  ⟨r.target, orEmpty r.symbol, orEmpty r.importPath, r.role⟩

def importLineWide (symbol path : Wide) (quote : Char) : Wide :=
  Text.wide "import \x7b ".toList ++ symbol ++ Text.wide (" \x7d from ".toList ++ [quote]) ++ path ++
    Text.wide [quote, ';']

/-- The import statement that a host lacks. -/
def planImportWide (source : Text) (statements : List Import) (r : WideRequest) :
    List (Insertion Point) :=
  (planImport source statements r.bare).map fun e =>
    { position := e.position
      text :=
        match statements.getLast? with
        | some s => .char '\n' :: importLineWide r.symbol r.importPath s.quote
        | none => importLineWide r.symbol r.importPath '\'' ++ [.char '\n'] }

/-- What is put into a descriptor for a class: an entry of its list, or the list. -/
def additionWide (d : Descriptor) (role : Role) (symbol : Wide) : Wide :=
  match d.property? role.property with
  | some _ => symbol
  | none => Text.wide (role.property ++ ": [".toList) ++ symbol ++ [.char ']']

/-- The entry that the list of a descriptor lacks: what stands before it is the same for all names. -/
def planListWide (source : Text) (r : WideRequest) (d : Descriptor) :
    Except Mismatch (List (Insertion Point)) :=
  let shortest := (additionWide d r.role (orEmpty r.symbol)).length
  (planList source r.bare d).map fun es => es.map fun e =>
    { position := e.position
      text :=
        Text.wide (e.text.take (e.text.length - shortest)) ++ additionWide d r.role r.symbol }

/-- The insertions that register a class in a host. -/
def planWide (source : Text) (r : WideRequest) : Except Mismatch (List (Insertion Point)) :=
  let ts := tokens source
  match descriptor? ts with
  | none => .error ⟨r.target, .descriptor⟩
  | some d =>
    (planListWide source r d).map fun list => planImportWide source (imports ts) r ++ list

/-- What comes of a registration, told as events. -/
structure WideOutcome where
  -- What was done, or why nothing was.
  result : Except HostError Registered
  events : List Telemetry.Event
  workspace : Workspace

/-- What comes of a registration with texts only. -/
def Outcome.wide (o : Outcome) : WideOutcome := ⟨o.result, o.notices.map Notice.event, o.workspace⟩

/-- Writes a host with a surrogate in it, which fails. -/
def insertWide (w : Workspace) (r : WideRequest) (source : Text) (edits : List (Insertion Point)) :
    WideOutcome :=
  let planned := plannedEvent r.target r.symbol r.role edits
  match Insertion.applyAll source.wide edits with
  | .error e => ⟨.error (.outOfRange e), [planned], w⟩
  | .ok text =>
    match w.writeWide r.target text with
    | (.error (.path e), w) => ⟨.error (.unwritten e), [planned], w⟩
    | (.error (.fault f), w) => ⟨.error (.fault f), [planned], w⟩
    | (.ok _, w) =>
      ⟨.ok ⟨r.target, r.role, edits.map fun e => ⟨e.position, orEmpty e.text⟩⟩, [planned], w⟩

/-- Registers a class in a host file. -/
def registerWide (w : Workspace) (r : WideRequest) : WideOutcome :=
  match w.read r.target with
  | .error _ => (register w r.bare).wide
  | .ok source =>
    match planWide source r with
    | .error _ => (register w r.bare).wide
    | .ok edits =>
      if edits.all fun e => (Wide.toText e.text).toBool then (register w r.bare).wide
      else insertWide w r source edits

end Graft.Registration
