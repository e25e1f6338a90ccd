/-
The shortest decimal that reads back as a given binary number.

A positive binary number `m * 2 ^ q` is the reading of every real between the midpoints to its
neighbours, the midpoints included when `m` is even.

  `Bits`                 the parts of the 64 bits of a double;
  `Binary`               a positive binary number and its rounding interval;
  `Binary.ofBits`        the number of a finite, non-zero double;
  `Binary.shortest`      the decimal with the fewest digits in the interval.

For 1, 2, … 17 digits the two neighbours of the number on that decimal grid are tested in exact
arithmetic.  The first grid with a neighbour inside the interval wins; of two the nearer is taken,
and of two equally near the even one.  No shorter decimal reads back, because if any point of a
grid lies in the interval then one of the two neighbours does.
-/
namespace Graft.Decimal

def twoTo (n : Nat) : Nat := Nat.pow 2 n

def tenTo (n : Nat) : Nat := Nat.pow 10 n

/-- The parts of the 64 bits of a double. -/
structure Bits where
  negative : Bool
  exponent : Nat
  fraction : Nat
  deriving Repr

/-- The parts of the bits of a double. -/
def Bits.ofNat (bits : Nat) : Bits where
  negative := twoTo 63 ≤ bits
  exponent := bits / twoTo 52 % twoTo 11
  fraction := bits % twoTo 52

/-- Whether the bits are those of an infinity or of no number. -/
def Bits.isSpecial (b : Bits) : Bool := b.exponent == twoTo 11 - 1

/-- A positive binary number `mantissa * 2 ^ exponent`. -/
structure Binary where
  mantissa : Nat
  exponent : Int
  -- Whether the neighbour below is only half as far as the one above.
  narrowBelow : Bool
  deriving Repr

/-- A decimal `digits * 10 ^ exponent`. -/
structure Digits where
  digits : Nat
  exponent : Int
  deriving Repr

/-- The magnitude of a finite double from its bits; `none` for zero. -/
def Binary.ofBits (b : Bits) : Option Binary :=
  if b.exponent = 0 then
    if b.fraction = 0 then none else some ⟨b.fraction, -1074, false⟩
  else
    some ⟨twoTo 52 + b.fraction, (b.exponent : Int) - 1075, b.fraction == 0 && 1 < b.exponent⟩

/-- Four times the number as a quotient of natural numbers, so that the midpoints are integral. -/
def Binary.quotient (b : Binary) : Nat × Nat :=
  let q := b.exponent - 2
  if 0 ≤ q then (4 * b.mantissa * twoTo q.toNat, 1) else (4 * b.mantissa, twoTo (-q).toNat)

/-- A number `num / den` multiplied by a power of ten. -/
def scaled (num den : Nat) (power : Int) : Nat × Nat :=
  if 0 ≤ power then (num * tenTo power.toNat, den) else (num, den * tenTo (-power).toNat)

/-- The power of ten of the first digit of `num / den`. -/
def leadingPower (num den : Nat) : Int :=
  let guess : Int := ((Nat.toDigits 10 num).length : Int) - (Nat.toDigits 10 den).length
  let (n, d) := scaled num den (-guess)
  if n < d then guess - 1 else guess

/-- Whether `digits * 10 ^ exponent` lies in the rounding interval. -/
def Binary.admits (b : Binary) (x : Digits) : Bool :=
  let unit := b.quotient.2
  let below := 4 * b.mantissa - (if b.narrowBelow then 1 else 2)
  let above := 4 * b.mantissa + 2
  let power := if 0 ≤ b.exponent - 2 then twoTo (b.exponent - 2).toNat else 1
  let (n, d) := scaled (x.digits * unit) 1 x.exponent
  let low := below * power * d
  let high := above * power * d
  if b.mantissa % 2 = 0 then low ≤ n && n ≤ high else low < n && n < high

/-- The neighbours of the number on the grid of `count` digits, the nearer first. -/
def Binary.neighbours (b : Binary) (count : Nat) : List Digits :=
  let (num, den) := b.quotient
  let exponent := leadingPower num den - (count : Int) + 1
  let (n, d) := scaled num den (-exponent)
  let floor := n / d
  let rest := 2 * (n % d)
  let downFirst := rest < d || (rest == d && floor % 2 == 0)
  let down : Digits := ⟨floor, exponent⟩
  let up : Digits := ⟨floor + 1, exponent⟩
  if downFirst then [down, up] else [up, down]

/-- The shortest decimal of at least `count` digits, within `fuel` further digits. -/
def Binary.shortestFrom (b : Binary) (count : Nat) : Nat → Digits
  | 0 => (b.neighbours count).headD ⟨0, 0⟩
  | fuel + 1 =>
    match (b.neighbours count).find? b.admits with
    | some x => x
    | none => b.shortestFrom (count + 1) fuel

/-- The shortest decimal that reads back as the number; seventeen digits always do. -/
def Binary.shortest (b : Binary) : Digits := b.shortestFrom 1 16

end Graft.Decimal
