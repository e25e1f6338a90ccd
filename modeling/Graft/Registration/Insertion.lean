import Graft.Text.Wide

/-
Insertions into a text.

  `Insertion`             a text and the offset where it goes, counted in the text as it was;
  `Insertion.applyAll`    all insertions made, or the first that lies outside the text;
  `Insertion.wide`        an insertion of characters as one of code points.

A text may be of anything; insertions are of characters unless it is said otherwise.

Insertions are made from the last offset to the first, so that an offset means the same place
throughout; those at one offset keep their order.
-/
namespace Graft

/-- A text to be inserted at an offset. -/
structure Insertion (α : Type := Char) where
  -- The offset in the text as it was.
  position : Int
  text : List α
  deriving DecidableEq, Repr

namespace Insertion

/-- An insertion at a place that the text does not have. -/
structure OutOfRange where
  position : Int
  length : Nat
  deriving DecidableEq, Repr

/-- The message for an insertion outside the text. -/
def OutOfRange.message (e : OutOfRange) : Text :=
  "Insertion offset ".toList ++ Text.ofInt e.position ++ " is outside the source (length ".toList ++
    Text.decimal e.length ++ ")".toList

variable {α : Type}

/-- Whether an offset lies in a text of the given length, its end included. -/
def fits (length : Nat) (e : Insertion α) : Bool := 0 ≤ e.position && e.position ≤ length

def apply (e : Insertion α) (t : List α) : List α :=
  t.take e.position.toNat ++ e.text ++ t.drop e.position.toNat

/-- The insertions in the order of their offsets; those at one offset keep their order. -/
def ordered (es : List (Insertion α)) : List (Insertion α) :=
  es.mergeSort fun a b => a.position ≤ b.position

def applyAll (t : List α) (es : List (Insertion α)) : Except OutOfRange (List α) :=
  match es.find? fun e => !fits t.length e with
  | some e => .error ⟨e.position, t.length⟩
  | none => .ok ((ordered es).foldr apply t)

/-- An insertion of characters as one of code points. -/
def wide (e : Insertion) : Insertion Point := ⟨e.position, Text.wide e.text⟩

end Insertion
end Graft
