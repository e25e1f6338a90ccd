import Graft.Script.Piece

/-
Tokens with their places in the script.

  `Token`        a token: what it is, where it starts, and its text;
  `tokens t`     the tokens of a script, in order.

A token's text is the script's text from its start to its stop, so the script and the tokens agree
on every offset.
-/
namespace Graft.Script

/-- A token at an offset of a script. -/
structure Token where
  kind : TokenKind
  start : Nat
  text : Text
  deriving DecidableEq, Repr

namespace Token

def stop (t : Token) : Nat := t.start + t.text.length

/-- Whether a token is the punctuation mark `c`. -/
def isMark (c : Char) (t : Token) : Bool := t.kind == .punct && t.text == [c]

/-- Whether a token is the identifier `word`. -/
def isWord (word : Text) (t : Token) : Bool := t.kind == .ident && t.text == word

/-- The text of a string token between its quotes; a lone quote holds none. -/
def unquoted (t : Token) : Text := (t.text.drop 1).dropLast

/-- The bracket that closes the one a token opens. -/
def closer? (t : Token) : Option Char :=
  if t.isMark '(' then some ')'
  else if t.isMark '[' then some ']'
  else if t.isMark '{' then some '}'
  else none

/-- Whether a token is an opening bracket. -/
def opens (t : Token) : Bool := t.closer?.isSome

/-- Whether a token is a closing bracket. -/
def closes (t : Token) : Bool := t.isMark ')' || t.isMark ']' || t.isMark '}'

end Token

/-- The tokens among pieces, the first of which starts at an offset. -/
def tokensFrom (offset : Nat) : List Piece → List Token
  | [] => []
  | .gap t :: ps => tokensFrom (offset + t.length) ps
  | .token kind t :: ps => ⟨kind, offset, t⟩ :: tokensFrom (offset + t.length) ps

def tokens (t : Text) : List Token := tokensFrom 0 (pieces t)

end Graft.Script
