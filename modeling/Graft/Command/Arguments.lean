import Graft.Fault
import Graft.Layout

/-
Command lines.

  `Command`               what a command line asks for;
  `Command.Verb`          the word that begins it;
  `Command.Flag`          an option;
  `Command.Reading`       what the arguments of a verb have been found to say so far;
  `Command.ofArguments`   the command of a command line.

Options and operands come in any order, and the last of several equal options counts.  The value of
an option is the argument after it, whatever that looks like; it may also follow a long option after
an equals sign, or a letter directly.  Letters may be bundled.  After `--` there are only operands.
-/
namespace Graft

/-- Where a command works, and on what. -/
structure Target where
  hints : Hints := {}
  -- Whether the root template is to show the component, if that is said.
  usageMarker : Option Bool := none
  root : Text := Path.here
  settings : Text := "prototyper.yaml".toList
  deriving DecidableEq, Repr

/-- What a command line asks for. -/
inductive Command where
  -- To be told how commands are written.
  | help
  -- To have a component generated and integrated.
  | generate (name prompt : Text) (remote : Bool) (target : Target)
  | integrate (response : Text) (target : Target)
  -- To have the artifacts of a saved response listed.
  | parse (response : Text)
  deriving DecidableEq, Repr

namespace Command

/-- The word that begins a command line. -/
inductive Verb where
  | generate
  | integrate
  | parse
  deriving DecidableEq, Repr

def Verb.ofWord? (t : Text) : Option Verb :=
  Table.get? t
    [("generate".toList, .generate), ("integrate".toList, .integrate), ("parse".toList, .parse)]

/-- An option. -/
inductive Flag where
  | prompt
  | project
  | host
  | noHost
  | sourceRoot
  -- Whether the root template is to show the component.
  | usageMarker (on : Bool)
  | root
  | settings
  -- Whether the model is to be asked over the network.
  | remote (on : Bool)
  -- Progress is to be told; nothing printed depends on it.
  | verbose
  -- To be told how commands are written.
  | help
  deriving DecidableEq, Repr

namespace Flag

def ofWord? (t : Text) : Option Flag :=
  Table.get? t
    [("prompt".toList, prompt), ("project".toList, project), ("module".toList, host),
     ("skip-import".toList, noHost), ("source-root".toList, sourceRoot),
     ("usage-marker".toList, usageMarker true), ("no-usage-marker".toList, usageMarker false),
     ("root".toList, root), ("config".toList, settings), ("use-remote".toList, remote true),
     ("no-use-remote".toList, remote false), ("verbose".toList, verbose), ("help".toList, help)]

def ofLetter? : Char → Option Flag
  | 'p' => some prompt
  | 'm' => some host
  | 'r' => some root
  | 'c' => some settings
  | 'v' => some verbose
  | _ => none

def hasValue : Flag → Bool
  | prompt | project | host | sourceRoot | root | settings => true
  | noHost | usageMarker _ | remote _ | verbose | help => false

end Flag

/-- Whether an option goes with a verb. -/
def Verb.allows : Verb → Flag → Bool
  | _, .help => true
  | .generate, _ => true
  | .integrate, .prompt | .integrate, .remote _ => false
  | .integrate, _ => true
  | .parse, _ => false

/-- What the arguments of a verb have been found to say so far. -/
structure Reading where
  target : Target := {}
  prompt : Option Text := none
  -- Whether the model is to be asked over the network.
  remote : Bool := true
  help : Bool := false
  operands : List Text := []
  pending : Option Flag := none
  closed : Bool := false

namespace Reading

/-- Takes in an option and its value, if it has one. -/
def take (r : Reading) (f : Flag) (value : Text) : Reading :=
  match f with
  | .prompt => { r with prompt := some value }
  | .project => { r with target.hints.project := some value }
  | .host => { r with target.hints.host := some value }
  | .noHost => { r with target.hints.noHost := true }
  | .sourceRoot => { r with target.hints.sourceRoot := some value }
  | .usageMarker on => { r with target.usageMarker := some on }
  | .root => { r with target.root := value }
  | .settings => { r with target.settings := value }
  | .remote on => { r with remote := on }
  | .verbose => r
  | .help => { r with help := true }

/-- Takes in an option of which no value has been seen. -/
def open? (r : Reading) (f : Flag) : Reading :=
  if f.hasValue then { r with pending := some f } else r.take f []

/-- Takes in a long option, spelled without its dashes. -/
def long? (v : Verb) (r : Reading) (t : Text) : Option Reading := do
  let f ← Flag.ofWord? (t.takeWhile (· != '='))
  guard (v.allows f)
  match t.dropWhile (· != '=') with
  | [] => return r.open? f
  | _ :: value =>
    guard f.hasValue
    return r.take f value

/-- Takes in letters that were bundled; what follows the letter of an option with a value is that
value. -/
def bundle? (v : Verb) (r : Reading) : List Char → Option Reading
  | [] => some r
  | c :: cs => do
    let f ← Flag.ofLetter? c
    guard (v.allows f)
    if f.hasValue && !cs.isEmpty then return r.take f cs
    else bundle? v (r.open? f) cs

def next? (v : Verb) (r : Reading) (a : Text) : Option Reading :=
  match r.pending with
  | some f => some ({ r with pending := none }.take f a)
  | none =>
    if r.closed then some { r with operands := r.operands ++ [a] }
    else
      match a with
      | ['-', '-'] => some { r with closed := true }
      | '-' :: '-' :: t => r.long? v t
      | '-' :: c :: cs => r.bundle? v (c :: cs)
      | a => some { r with operands := r.operands ++ [a] }

def all? (v : Verb) (arguments : List Text) : Option Reading := do
  let r ← arguments.foldlM (next? v) {}
  guard r.pending.isNone
  return r

def paths (v : Verb) (r : Reading) : List Text :=
  [r.target.root, r.target.settings] ++
    match v with
    | .generate => []
    | .integrate | .parse => r.operands.take 1

end Reading

/-- Why a command line asks for nothing. -/
inductive Misuse where
  -- It is not written as commands are.
  | usage
  -- It names a path that is none.
  | fault (f : Fault)
  deriving DecidableEq, Repr

/-- The command of a verb and what its arguments say. -/
def ofReading (v : Verb) (r : Reading) : Except Misuse Command :=
  if r.help then .ok .help
  else if (r.paths v).any fun p => p.contains '\x00' then .error (.fault .nul)
  else
    match v, r.operands, r.prompt with
    | .generate, [name], some prompt => .ok (.generate name prompt r.remote r.target)
    | .integrate, [response], _ => .ok (.integrate response r.target)
    | .parse, [response], _ => .ok (.parse response)
    | _, _, _ => .error .usage

/-- The command of a verb and its arguments. -/
def ofVerb (word : Text) (arguments : List Text) : Except Misuse Command :=
  match Verb.ofWord? word with
  | none => .error .usage
  | some v =>
    match Reading.all? v arguments with
    | none => .error .usage
    | some r => ofReading v r

/-- What follows the options before the verb, and whether these ask for help; they can ask for
nothing else. -/
def beforeVerb? (help : Bool) : List Text → Option (Bool × List Text)
  | [] => some (help, [])
  | a :: arguments =>
    if a = "--help".toList then beforeVerb? true arguments
    else
      match a with
      | ['-', '-'] => some (help, arguments)
      | '-' :: _ :: _ => none
      | a => some (help, a :: arguments)

/-- The command of a command line.  Only requests for help, and `--`, may stand before the verb. -/
def ofArguments (arguments : List Text) : Except Misuse Command :=
  match beforeVerb? false arguments with
  | some (true, _) => .ok .help
  | some (false, word :: arguments) => ofVerb word arguments
  | some (false, []) | none => .error .usage

end Command
end Graft
