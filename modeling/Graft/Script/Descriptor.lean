import Graft.Script.Bracket

/-
The descriptor of a host: the object given to its decorator.

  `Descriptor`             the decorator, and the tokens of its object;
  `descriptor? ts`         the first descriptor among tokens;
  `Descriptor.property?`   the entry of the object under a key;
  `isStandalone t`         whether a script says `standalone: true`.

Only the two decorators of `Decorator` count, and only when their object is a closed group.  A later
entry under the same key hides an earlier one.
-/
namespace Graft.Script

/-- The decorators whose object is a descriptor. -/
inductive Decorator where
  | ngModule
  | component
  deriving DecidableEq, Repr

namespace Decorator

def name : Decorator → Text
  | ngModule => "NgModule".toList
  | component => "Component".toList

def ofToken? (t : Token) : Option Decorator :=
  [ngModule, component].find? fun d => t.isWord d.name

end Decorator

/-- The object that describes a host. -/
structure Descriptor where
  decorator : Decorator
  opening : Token
  inside : List Token
  closing : Token
  deriving Repr

def descriptor? : List Token → Option Descriptor
  | [] => none
  | a :: ts =>
    let here : Option Descriptor :=
      match ts with
      | name :: p :: brace :: rest => do
        guard (a.isMark '@' && p.isMark '(' && brace.isMark '{')
        let decorator ← Decorator.ofToken? name
        let g ← enclosed? (brace :: rest)
        return ⟨decorator, brace, g.inside, g.closing⟩
      | _ => none
    here.or (descriptor? ts)

/-- The key of an entry `key: …`, an identifier or a string. -/
def entryKey? : List Token → Option Text
  | key :: colon :: _ =>
    if colon.isMark ':' then
      match key.kind with
      | .ident => some key.text
      | .string => some key.unquoted
      | _ => none
    else none
  | _ => none

def Descriptor.property? (d : Descriptor) (key : Text) : Option (List Token) :=
  (entries d.inside).reverse.find? fun e => entryKey? e == some key

def hasStandalone : List Token → Bool
  | [] => false
  | t :: ts =>
    (match ts with
      | colon :: v :: _ =>
        t.isWord "standalone".toList && colon.isMark ':' && v.text == "true".toList
      | _ => false) || hasStandalone ts

/-- Whether a script declares its component as standing alone. -/
def isStandalone (script : Text) : Bool := hasStandalone (tokens script)

end Graft.Script
