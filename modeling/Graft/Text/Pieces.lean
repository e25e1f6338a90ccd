import Graft.Text.Lines
import Graft.Text.Utf8

/-
Text that is read from octets in pieces.

  `Pieces.lengthBefore n`   how much of a text is looked at before the piece of an offset;
  `Pieces.Source`           octets on the way to text;
  `Pieces.beforeFault b`    the pieces that are read before the first fault, and the fault.

A piece is a fixed number of characters, line ends counted as newlines.  Octets are taken in chunks,
a chunk only when a piece asks for more, and each is decoded together with what the one before it
left over, so the place of a fault counts from there.  A chunk is larger than usual when the chunk
before it held few characters for its size.  The first two pieces are read before either of them is
looked at, and then looked at together.
-/
namespace Graft.Pieces

/-- The number of characters in a piece. -/
def pieceSize : Nat := 4096

/-- How many characters are looked at before the piece in which an offset lies. -/
def lengthBefore (offset : Nat) : Nat :=
  if offset < 2 * pieceSize then 0 else offset / pieceSize * pieceSize

/-- The least number of octets in a chunk. -/
def chunkSize : Nat := 8192

/-- Octets on the way to text. -/
structure Source where
  -- The octets that have not been taken.
  octets : List UInt8
  -- The octets taken of a character that is not complete.
  owed : List UInt8 := []
  -- Whether a carriage return has been taken that a newline may follow.
  afterReturn : Bool := false
  -- How many octets the last chunk had for a character.
  density : Float := 0
  -- The characters that belong to no piece yet.
  ready : Text := []

namespace Source

/-- The number of octets to take for a number of characters. -/
def chunkFor (s : Source) (wanted : Nat) : Nat :=
  max chunkSize (s.density * Float.ofNat wanted).toUInt64.toNat

/-- Adds decoded characters, after a chunk of some octets. -/
def receive (s : Source) (count : Nat) (t : Text) : Source :=
  let t := if s.afterReturn && !t.isEmpty then '\r' :: t else t
  let ends := t.getLast? == some '\r'
  let t := Text.unixNewlines (if ends then t.dropLast else t)
  { s with
    afterReturn := ends || (s.afterReturn && t.isEmpty)
    density := if t.isEmpty then 0 else Float.ofNat count / Float.ofNat t.length
    ready := s.ready ++ t }

def textOf (octets : List UInt8) : Text := (Utf8.decode ⟨octets.toArray⟩).toOption.getD []

/-- Whether octets at the end of a chunk may turn out to be a character, or are two of the three
that would be a surrogate. -/
def isCut (f : Utf8.Fault) (octets : List UInt8) : Bool :=
  f.reason == .unexpectedEnd ||
    match octets.drop f.start with
    | [a, b] => a == 0xED && 0xA0 ≤ b && b ≤ 0xBF
    | _ => false

/-- Takes a chunk, from which a number of characters is wanted. -/
def take (s : Source) (wanted : Nat) : Except Utf8.Fault Source :=
  let chunk := s.octets.take (s.chunkFor wanted)
  let octets := s.owed ++ chunk
  let s := { s with octets := s.octets.drop chunk.length, owed := [] }
  match Utf8.firstFault 0 0 octets with
  | none => .ok (s.receive chunk.length (textOf octets))
  | some f =>
    if isCut f octets && !chunk.isEmpty then
      let s := { s with owed := octets.drop f.start }
      .ok (s.receive chunk.length (textOf (octets.take f.start)))
    else .error f

/-- The pieces from here to the first fault or the end, in front of those before them in reverse. -/
def readFrom (pieces : List Text) : Nat → Source → List Text × Option Utf8.Fault
  | 0, _ => (pieces, none)
  | fuel + 1, s =>
    if pieceSize ≤ s.ready.length then
      readFrom (s.ready.take pieceSize :: pieces) fuel { s with ready := s.ready.drop pieceSize }
    else
      match s.take (pieceSize - s.ready.length) with
      | .error f => (pieces, some f)
      | .ok after =>
        if s.octets.isEmpty then (after.ready :: pieces, none) else readFrom pieces fuel after

end Source

/-- The text of the pieces that are read before the first fault of octets, and the fault. -/
def beforeFault (b : ByteArray) : Text × Option Utf8.Fault :=
  let (pieces, fault) := Source.readFrom [] (2 * b.size + 1) { octets := b.toList }
  (if pieces.length < 2 then [] else pieces.reverse.flatten, fault)

end Graft.Pieces
