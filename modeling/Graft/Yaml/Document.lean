import Graft.Yaml.Node
import Graft.Yaml.Plain

/-
Documents of YAML text.

  `Value.ofNode n`            what a node stands for;
  `Value.ofText n t`          what a text stands for that nests up to `n` levels;
  `Document.problem? n t`     what is wrong with a text that begins so, whatever follows;
  `Problem`                   why a text stands for nothing.

A key is a scalar.  Under a plain key `<<` stand mappings whose entries count as well, before those
of the mapping itself; elsewhere neither that mark nor a plain `=` stands for anything.

A node is looked at before the nodes inside it, and all nodes of one depth before those of the next,
so of several problems the outermost comes first, and of those at one depth the one that is written
first.  `Built.apply` keeps to that order.
-/
namespace Graft.Yaml

/-- Why a text stands for nothing. -/
inductive Problem where
  | malformed
  -- A scalar in it has a flaw.
  | flaw (f : Flaw)
  | tooDeep
  deriving DecidableEq, Repr

/-- The problem of a text that is read no further. -/
def Problem.ofStop : Stop → Problem
  | .ended | .refused => .malformed
  | .noCharacter code => .flaw (.noCharacter code)
  | .tooDeep => .tooDeep

/-- A value, or the first problem on the way to it and how deep that lies. -/
abbrev Built (α : Type) := Except (Nat × Problem) α

namespace Built

/-- Applies what was built to what was built after it; of two problems the outer one counts, or else
the first. -/
def apply {α β : Type} : Built (α → β) → Built α → Built β
  | .ok f, .ok a => .ok (f a)
  | .ok _, .error q => .error q
  | .error p, .ok _ => .error p
  | .error p, .error q => .error (if q.1 < p.1 then q else p)

def cons {α : Type} (a : Built α) (as : Built (List α)) : Built (List α) :=
  apply (a.map List.cons) as

def append {α : Type} (as bs : Built (List α)) : Built (List α) :=
  apply (as.map fun as bs => as ++ bs) bs

end Built

/-- An entry of a mapping. -/
abbrev Entry := Value × Value

namespace Value

/-- The mark of entries that are taken over from other mappings. -/
def mergeMark : Text := ['<', '<']

def defaultMark : Text := ['=']

/-- Whether a node is a plain scalar spelled as a mark. -/
def spells (mark : Text) : Node → Bool
  | .plain t => t == mark
  | _ => false

/-- The value of a plain scalar at a depth. -/
def ofPlain (depth : Nat) (t : Text) : Built Value :=
  if t = mergeMark ∨ t = defaultMark then .error (depth, .malformed)
  else (Plain.ofText t).mapError fun f => (depth, .flaw f)

def keyOf (depth : Nat) : Node → Built Value
  | .plain t => if t = defaultMark then .ok (.text t) else ofPlain depth t
  | .quoted t => .ok (.text t)
  | _ => .error (depth, .malformed)

mutual

/-- The value of a node at a depth. -/
def ofNode (depth : Nat) : Node → Built Value
  | .plain t => ofPlain depth t
  | .quoted t => .ok (.text t)
  | .sequence items => (ofNodes (depth + 1) items).map .list
  | .mapping pairs =>
    match ofPairs? (depth + 1) pairs with
    | none => .error (depth + 1, .malformed)
    | some (taken, own) => (taken.append own).map .mapping

/-- The values of nodes at a depth. -/
def ofNodes (depth : Nat) : List Node → Built (List Value)
  | [] => .ok []
  | n :: ns => (ofNode depth n).cons (ofNodes depth ns)

/-- The entries that pairs take over, and those of their own; nothing when something is to be taken
over that holds no entries. -/
def ofPairs? (depth : Nat) : List (Node × Node) → Option (Built (List Entry) × Built (List Entry))
  | [] => some (.ok [], .ok [])
  | (k, v) :: rest => do
    let (taken, own) ← ofPairs? depth rest
    if spells mergeMark k then
      let more ← takenOver? depth v
      return (more.append taken, own)
    else
      let entry : Built Entry := Built.apply ((keyOf depth k).map Prod.mk) (ofNode depth v)
      return (taken, entry.cons own)

/-- The entries to take over from a mapping, or from several. -/
def takenOver? (depth : Nat) : Node → Option (Built (List Entry))
  | .mapping pairs => (ofPairs? depth pairs).map fun r => r.1.append r.2
  | .sequence items => takenFromAll? depth items
  | .plain _ | .quoted _ => none

/-- The entries to take over from mappings, those of the last first. -/
def takenFromAll? (depth : Nat) : List Node → Option (Built (List Entry))
  | [] => some (.ok [])
  | .mapping pairs :: rest => do
    let (taken, own) ← ofPairs? depth pairs
    let more ← takenFromAll? depth rest
    return more.append (taken.append own)
  | _ => none

end

def ofText (nesting : Option Nat) (t : Text) : Except Problem Value :=
  match Node.ofText nesting false t with
  | .error e => .error (Problem.ofStop e)
  | .ok n => (ofNode 0 n).mapError Prod.snd

end Value

/-- What is wrong with a text that begins in a way, whatever follows. -/
def Document.problem? (nesting : Option Nat) (beginning : Text) : Option Problem :=
  match Node.ofText nesting true beginning with
  | .ok _ | .error .ended => none
  | .error e => some (Problem.ofStop e)

end Graft.Yaml
