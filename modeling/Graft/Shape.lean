import Graft.Text.Basic

/-
What is wrong with the shape of a value.

  `Expectation`      what a place of a value should have held;
  `Mistake`          a place and its expectation;
  `Shape.Checked α`  a result, or every mistake found on the way to it;
  `Shape.summary`    how many mistakes there are.

Mistakes add up: `Shape.apply` keeps those of both its arguments.
-/
namespace Graft

/-- What a place of a value should have held. -/
inductive Expectation where
  | text
  -- Octets that encode a text.
  | encodedText
  | mapping
  | record
  | truth
  -- A text that spells a truth value.
  | truthText
  | whole
  -- A text that spells a whole number.
  | wholeText
  | wholeSize
  | finite
  | noFraction
  | number
  | numberText
  | above
  | notBelow
  deriving DecidableEq, Repr

def Expectation.name : Expectation → Text
  | .text => "string_type".toList
  | .encodedText => "string_unicode".toList
  | .mapping => "dict_type".toList
  | .record => "model_type".toList
  | .truth => "bool_type".toList
  | .truthText => "bool_parsing".toList
  | .whole => "int_type".toList
  | .wholeText => "int_parsing".toList
  | .wholeSize => "int_parsing_size".toList
  | .finite => "finite_number".toList
  | .noFraction => "int_from_float".toList
  | .number => "float_type".toList
  | .numberText => "float_parsing".toList
  | .above => "greater_than".toList
  | .notBelow => "greater_than_equal".toList

/-- A place that does not hold what it should. -/
structure Mistake where
  -- The keys that lead to the place.
  place : List Text
  expectation : Expectation
  deriving DecidableEq, Repr

namespace Shape

/-- A result, or every mistake found on the way to it. -/
abbrev Checked (α : Type) := Except (List Mistake) α

def mistake {α : Type} (e : Expectation) : Checked α := .error [⟨[], e⟩]

/-- Applies a checked function to a checked argument; the mistakes of both are kept. -/
def apply {α β : Type} : Checked (α → β) → Checked α → Checked β
  | .ok f, .ok a => .ok (f a)
  | .ok _, .error es => .error es
  | .error es, .ok _ => .error es
  | .error es, .error fs => .error (es ++ fs)

/-- Puts a key in front of the places of mistakes. -/
def under {α : Type} (key : Text) (r : Checked α) : Checked α :=
  r.mapError fun es => es.map fun e => { e with place := key :: e.place }

/-- How many mistakes there are in a value of a kind. -/
def summary (kind : Text) (mistakes : List Mistake) : Text :=
  Text.decimal mistakes.length ++
    (if mistakes.length = 1 then " validation error for " else " validation errors for ").toList ++
    kind

end Shape
end Graft
