import Graft.Text.Basic

/-
UTF-8 decoding with the first fault located.

  `Utf8.encode t`     the octets of a text;
  `Utf8.size t`       how many they are;
  `Utf8.decode b`     the text that the octets encode, or their first fault;
  `Utf8.Fault`        where decoding fails and why, worded by `Fault.message`;
  `Utf8.decodeLossy`  the text with the faulty octets left out.

A fault covers the longest run of octets that could begin a character: an octet that begins none,
the octets before one that does not continue them, or the octets left at the end.
-/
namespace Graft.Utf8

/-- Why octets are not UTF-8. -/
inductive Reason where
  | invalidStart
  -- The octets begin a character, and the next one does not continue it.
  | invalidContinuation
  -- The octets begin a character, and the input ends.
  | unexpectedEnd
  deriving DecidableEq, Repr

/-- The first place where octets are not UTF-8. -/
structure Fault where
  -- The offset of the first octet of the fault.
  start : Nat
  width : Nat
  octet : UInt8
  reason : Reason
  deriving DecidableEq, Repr

def Reason.message : Reason → Text
  | .invalidStart => "invalid start byte".toList
  | .invalidContinuation => "invalid continuation byte".toList
  | .unexpectedEnd => "unexpected end of data".toList

/-- The message of a fault names the octet when the fault is one octet wide. -/
def Fault.message (f : Fault) : Text :=
  let place :=
    if f.width = 1 then
      "byte 0x".toList ++ Text.hex 2 f.octet.toNat ++ " in position ".toList ++
        Text.decimal f.start
    else
      "bytes in position ".toList ++ Text.decimal f.start ++ ['-'] ++
        Text.decimal (f.start + f.width - 1)
  "'utf-8' codec can't decode ".toList ++ place ++ ": ".toList ++ f.reason.message

/-- How many octets follow a first octet, and the range of the one after it; `none` for an octet
that begins no character of several octets. -/
def lead (b : UInt8) : Option (Nat × UInt8 × UInt8) :=
  if b < 0xC2 then none
  else if b < 0xE0 then some (1, 0x80, 0xBF)
  else if b = 0xE0 then some (2, 0xA0, 0xBF)
  else if b = 0xED then some (2, 0x80, 0x9F)
  else if b < 0xF0 then some (2, 0x80, 0xBF)
  else if b = 0xF0 then some (3, 0x90, 0xBF)
  else if b < 0xF4 then some (3, 0x80, 0xBF)
  else if b = 0xF4 then some (3, 0x80, 0x8F)
  else none

/-- How many of the octets continue a character that still lacks `owed` octets, the next one being
within `low` and `high`; the flag tells whether the character is complete, and a missing octet is
told from a wrong one. -/
def continued : Nat → UInt8 → UInt8 → List UInt8 → Nat × Option Reason
  | 0, _, _, _ => (0, none)
  | _ + 1, _, _, [] => (0, some .unexpectedEnd)
  | owed + 1, low, high, b :: bs =>
    if low ≤ b && b ≤ high then
      let (k, r) := continued owed 0x80 0xBF bs
      (k + 1, r)
    else (0, some .invalidContinuation)

/-- The first fault of the octets from offset `start` on, if there is one.  `pass` counts the
octets of a character already checked. -/
def firstFault (start : Nat) : Nat → List UInt8 → Option Fault
  | _, [] => none
  | pass + 1, _ :: bs => firstFault (start + 1) pass bs
  | 0, b :: bs =>
    if b < 0x80 then firstFault (start + 1) 0 bs
    else
      match lead b with
      | none => some ⟨start, 1, b, .invalidStart⟩
      | some (owed, low, high) =>
        match continued owed low high bs with
        | (k, some reason) => some ⟨start, k + 1, b, reason⟩
        | (k, none) => firstFault (start + 1) k bs

def encode (t : Text) : ByteArray := (String.ofList t).toByteArray

/-- How many octets a text has. -/
def size : Text → Nat
  | [] => 0
  | c :: cs => c.utf8Size + size cs

/-- The text that the octets encode, or their first fault. -/
def decode (b : ByteArray) : Except Fault Text :=
  if h : b.IsValidUTF8 then .ok (String.ofByteArray b h).toList
  else .error ((firstFault 0 0 b.toList).getD ⟨0, 1, 0, .invalidStart⟩)

theorem decode_encode (t : Text) : decode (encode t) = .ok t := by
  have h : (encode t).IsValidUTF8 := (String.ofList t).isValidUTF8
  rw [decode, dif_pos h]
  exact congrArg Except.ok String.toList_ofList

/-- The octets without those that faults cover.  `pass` counts the octets of a character already
checked and `skip` those of a fault still to leave out. -/
def withoutFaults : Nat → Nat → List UInt8 → List UInt8
  | _, _, [] => []
  | pass, skip + 1, _ :: bs => withoutFaults pass skip bs
  | pass + 1, 0, b :: bs => b :: withoutFaults pass 0 bs
  | 0, 0, b :: bs =>
    if b < 0x80 then b :: withoutFaults 0 0 bs
    else
      match lead b with
      | none => withoutFaults 0 0 bs
      | some (owed, low, high) =>
        match continued owed low high bs with
        | (k, some _) => withoutFaults 0 k bs
        | (k, none) => b :: withoutFaults k 0 bs

/-- The text of the octets that are left when faults are skipped. -/
def decodeLossy (b : ByteArray) : Text :=
  match decode ⟨(withoutFaults 0 0 b.toList).toArray⟩ with
  | .ok t => t
  | .error _ => []

end Graft.Utf8
