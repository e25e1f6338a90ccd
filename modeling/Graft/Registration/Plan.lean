import Graft.Path
import Graft.Registration.Insertion
import Graft.Script.Descriptor
import Graft.Script.Import

/-
Registering a class in a host script.

  `Role`                  which list of the descriptor names the class;
  `Request`               the class, its import path, its role, and the host;
  `Mismatch`              why a host cannot be extended;
  `plan source request`   the insertions that register the class;
  `patched? …`            the host with the insertions made.

At most two insertions are planned: an import statement unless a statement already binds the name,
and an entry unless one already begins with it.  A module without the list gets one; a component
without it cannot be extended.
-/
namespace Graft.Registration

open Script

/-- The list of the descriptor that names a class. -/
inductive Role where
  -- The class belongs to the module, which declares it.
  | declared
  -- The class stands alone and is imported.
  | composed
  deriving DecidableEq, Repr

namespace Role

def name : Role → Text
  | declared => "import".toList
  | composed => "composed".toList

def property : Role → Text
  | declared => "declarations".toList
  | composed => "imports".toList

def ofName? (t : Text) : Option Role := [declared, composed].find? fun r => r.name == t

/-- The role of the class that a script exports. -/
def ofScript (script : Text) : Role := if isStandalone script then composed else declared

end Role

/-- A class to be registered. -/
structure Request where
  target : Text
  symbol : Text
  -- The module specifier to import it from.
  importPath : Text
  role : Role := .declared
  deriving DecidableEq, Repr

/-- What a host lacks. -/
inductive Lack where
  | descriptor
  -- The descriptor of a decorator that may not be given new lists has no such list.
  | list (decorator : Decorator) (property : Text)
  -- The value under the key is no list.
  | listValue (property : Text)
  | listEnd (property : Text)
  deriving DecidableEq, Repr

/-- Why a host cannot be extended. -/
structure Mismatch where
  target : Text
  lack : Lack
  deriving DecidableEq, Repr

def Mismatch.message (m : Mismatch) : Text :=
  match m.lack with
  | .descriptor => "No @NgModule or @Component descriptor found in ".toList ++ m.target
  | .list d p =>
    '@' :: d.name ++ " in ".toList ++ m.target ++ " has no '".toList ++ p ++ "' array".toList
  | .listValue p =>
    '\'' :: p ++ "' in ".toList ++ m.target ++ " is not an array literal".toList
  | .listEnd p => "Unterminated '".toList ++ p ++ "' array in ".toList ++ m.target

/-- The key that a mismatch is about, if any. -/
def Mismatch.property? (m : Mismatch) : Option Text :=
  match m.lack with
  | .descriptor => none
  | .list _ p | .listValue p | .listEnd p => some p

/-- The offset of the end of the line that an offset lies on. -/
def lineEnd (source : Text) (offset : Nat) : Nat :=
  offset + ((source.drop offset).takeWhile (· != '\n')).length

/-- The blanks that begin the line that an offset lies on. -/
def indentation (source : Text) (offset : Nat) : Text :=
  (Text.lastLine (source.take offset)).takeWhile fun c => c = ' ' || c = '\t'

/-- The part of a text between two offsets. -/
def slice (source : Text) (start stop : Nat) : Text := (source.drop start).take (stop - start)

def importLine (symbol path : Text) (quote : Char) : Text :=
  "import \x7b ".toList ++ symbol ++ " \x7d from ".toList ++ quote :: path ++ [quote, ';']

/-- The import statement that a host lacks: after the line of its last one, in its quotes, or at the
start. -/
def planImport (source : Text) (statements : List Import) (r : Request) : List Insertion :=
  if statements.any fun s => s.names.contains r.symbol then []
  else
    match statements.getLast? with
    | some s =>
      [⟨lineEnd source s.stop, '\n' :: importLine r.symbol r.importPath s.quote⟩]
    | none => [⟨0, importLine r.symbol r.importPath '\'' ++ ['\n']⟩]

/-- A new last entry of a list: on a line of its own, indented like the last entry, when the list
extends over lines, else on the same line. -/
def appendEntry (source : Text) (opening : Token) (inside : List Token) (closing : Token)
    (entry : Text) : Insertion :=
  match (entries inside).getLast? with
  | some (first :: rest) =>
    let last := (first :: rest).getLast (List.cons_ne_nil _ _)
    let lead : Text :=
      if (slice source opening.stop last.stop).contains '\n' then
        [',', '\n'] ++ indentation source first.start
      else [',', ' ']
    ⟨last.stop, lead ++ entry⟩
  | _ => ⟨closing.start, entry⟩

/-- The entry that the list of a descriptor lacks, for a list under a key. -/
def planEntry (source : Text) (r : Request) (value : List Token) :
    Except Mismatch (List Insertion) :=
  let fail (lack : Lack) : Except Mismatch (List Insertion) := .error ⟨r.target, lack⟩
  match value with
  | [] => fail (.listValue r.role.property)
  | opening :: rest =>
    if opening.isMark '[' then
      match enclosed? (opening :: rest) with
      | none => fail (.listEnd r.role.property)
      | some g =>
        if (entries g.inside).any fun e => e.head?.any fun t => t.isWord r.symbol then .ok []
        else .ok [appendEntry source opening g.inside g.closing r.symbol]
    else fail (.listValue r.role.property)

def planList (source : Text) (r : Request) (d : Descriptor) : Except Mismatch (List Insertion) :=
  let property := r.role.property
  match d.property? property with
  | some entry => planEntry source r (entry.drop 2)
  | none =>
    match d.decorator with
    | .ngModule =>
      .ok [appendEntry source d.opening d.inside d.closing
        (property ++ ": [".toList ++ r.symbol ++ [']'])]
    | .component => .error ⟨r.target, .list d.decorator property⟩

/-- The insertions that register a class in a host. -/
def plan (source : Text) (r : Request) : Except Mismatch (List Insertion) :=
  let ts := tokens source
  match descriptor? ts with
  | none => .error ⟨r.target, .descriptor⟩
  | some d => (planList source r d).map fun list => planImport source (imports ts) r ++ list

/-- Why a host is left as it is. -/
inductive Refusal where
  | mismatch (m : Mismatch)
  | outOfRange (e : Insertion.OutOfRange)
  deriving DecidableEq, Repr

def patched? (source : Text) (r : Request) : Except Refusal Text :=
  match plan source r with
  | .error m => .error (.mismatch m)
  | .ok es => (Insertion.applyAll source es).mapError .outOfRange

/-- The specifier by which a host imports a script, both paths seen from the directory `base`:
the way from the host's directory, without the script's extension, and marked as relative. -/
def specifier? (base : List Text) (host script : Text) : Option Text :=
  let target :=
    if Text.endsWith ".ts".toList script then script.take (script.length - 3) else script
  let directory :=
    match Path.directory (host.dropWhile Path.isSlash) with
    | [] => Path.here
    | d => d
  (Path.relative? base (target.dropWhile Path.isSlash) directory).map fun p =>
    if p.head? = some '.' then p else '.' :: '/' :: p

end Graft.Registration
