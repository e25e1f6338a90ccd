/-
Text as a list of characters, with the cuts and substitutions the library needs.

  `Text.trim p t`          `t` without the characters at either end that satisfy `p`;
  `Text.after? lead t`     what follows `lead` when `t` starts with it;
  `Text.endsWith tail t`   whether `t` ends with `tail`;
  `Text.before? part t`    what stands before the first occurrence of `part`;
  `Text.replaceAll a b t`  `t` with the occurrences of `a`, left to right, replaced by `b`;
  `Text.decimal n`         the decimal digits of a natural number.

Design notes.  Characters are code points, so lengths and offsets count code points.  Every
function is structural in the list, which keeps it computable inside proofs; strings occur only
as literals and at the outer layer.
-/
namespace Graft

/-- A text is its list of characters. -/
abbrev Text := List Char

namespace Text

/-- Drops the trailing characters that satisfy `p`. -/
def trimRight (p : Char → Bool) : Text → Text
  | [] => []
  | c :: cs =>
    match trimRight p cs with
    | [] => if p c then [] else [c]
    | d :: ds => c :: d :: ds

/-- Drops the characters at both ends that satisfy `p`. -/
def trim (p : Char → Bool) (t : Text) : Text := trimRight p (t.dropWhile p)

/-- What follows `lead`, when the text starts with it. -/
def after? : Text → Text → Option Text
  | [], t => some t
  | _ :: _, [] => none
  | a :: as, c :: cs => if a = c then after? as cs else none

def endsWith (tail t : Text) : Bool := (after? tail.reverse t.reverse).isSome

/-- What stands before the first occurrence of `part`. -/
def before? (part : Text) : Text → Option Text
  | [] => if part.isEmpty then some [] else none
  | c :: cs =>
    if (after? part (c :: cs)).isSome then some [] else (before? part cs).map (c :: ·)

/-- Replaces the occurrences of a non-empty `old`, found from left to right. -/
def replaceAll (old new : Text) (t : Text) : Text := go 0 t
where
  -- The first argument counts the characters of a found occurrence that are still to pass.
  go : Nat → Text → Text
    | _, [] => []
    | k + 1, _ :: cs => go k cs
    | 0, c :: cs =>
      if (after? old (c :: cs)).isSome then new ++ go (old.length - 1) cs else c :: go 0 cs

/-- Whether `part` occurs in the text and what follows an occurrence satisfies `p`. -/
def occursBefore (part : Text) (p : Text → Bool) : Text → Bool
  | [] => ((after? part []).map p).getD false
  | c :: cs => ((after? part (c :: cs)).map p).getD false || occursBefore part p cs

def lastLine (t : Text) : Text := (t.reverse.takeWhile (· != '\n')).reverse

/-- The decimal digits of a natural number. -/
def decimal (n : Nat) : Text := Nat.toDigits 10 n

/-- The decimal digits of an integer, after a minus sign when it is negative. -/
def ofInt : Int → Text
  | .ofNat n => decimal n
  | .negSucc n => '-' :: decimal (n + 1)

/-- A natural number in base 16 with lower-case digits, filled with zeros to `width`. -/
def hex (width n : Nat) : Text :=
  let ds := Nat.toDigits 16 n
  List.replicate (width - ds.length) '0' ++ ds

/-- A natural number in base 10, filled with zeros to `width`. -/
def padded (width n : Nat) : Text :=
  let ds := decimal n
  List.replicate (width - ds.length) '0' ++ ds

/-- A text that is there and not empty. -/
def nonEmpty (t : Option Text) : Option Text := t.filter fun t => !t.isEmpty

/-- Lower case for the ASCII letters; every other character is kept. -/
def lowerAscii (t : Text) : Text := t.map Char.toLower

/-- Orders texts by the code points of their first difference. -/
def precedes : Text → Text → Bool
  | _, [] => false
  | [], _ :: _ => true
  | a :: as, b :: bs => if a = b then precedes as bs else a.toNat < b.toNat

@[simp] theorem after?_nil (t : Text) : after? [] t = some t := by
  cases t <;> rfl

@[simp] theorem after?_append (lead t : Text) : after? lead (lead ++ t) = some t := by
  induction lead with
  | nil => simp
  | cons a as ih => simp [after?, ih]

theorem after?_eq_some_iff {lead t r : Text} : after? lead t = some r ↔ t = lead ++ r := by
  induction lead generalizing t with
  | nil => simp [eq_comm]
  | cons a as ih =>
    cases t with
    | nil => simp [after?]
    | cons c cs =>
      simp only [after?, List.cons_append, List.cons.injEq]
      by_cases h : a = c <;> simp [h, ih, eq_comm]

end Text
end Graft
