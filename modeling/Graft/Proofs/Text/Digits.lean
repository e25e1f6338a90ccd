import Graft.Text.Digits

/-
Numbers written with digits, and read back.

* `hex_succ`, `hex_four` — the digits of a number in base 16, filled with zeros;
* `decimal_ne_nil`, `isDigit_of_mem_decimal`, `length_decimal_mono` — the digits of a number in base 10;
* `Short n` — a number with no more digits than are read;
* `digitsValue_decimal` — **they have its value**.
-/
namespace Graft

/-- A digit in base 16 has its value. -/
theorem hexDigit?_digitChar {d : Nat} (h : d < 16) : hexDigit? d.digitChar = some d := by
  have hall : ∀ d < 16, hexDigit? (Nat.digitChar d) = some d := by decide
  exact hall d h

namespace Text

/-! ### Base 16 -/

/-- A number with one more digit to fill. -/
theorem hex_succ {width : Nat} (hwidth : 0 < width) (n : Nat) :
    hex (width + 1) n = hex width (n / 16) ++ [(n % 16).digitChar] := by
  have hlast : n % 16 < 16 := Nat.mod_lt _ (by decide)
  rw [hex, hex]
  by_cases hsmall : n < 16
  · obtain ⟨w, rfl⟩ : ∃ w, width = w + 1 := ⟨width - 1, by omega⟩
    rw [Nat.div_eq_of_lt hsmall, Nat.mod_eq_of_lt hsmall, Nat.toDigits_of_lt_base hsmall,
      Nat.toDigits_of_lt_base (by decide)]
    have hzero : Nat.digitChar 0 = '0' := rfl
    simp [hzero, List.replicate_succ']
  · have hsplit := Nat.toDigits_append_toDigits (b := 16) (n := n / 16) (d := n % 16) (by decide)
      (by omega) hlast
    rw [Nat.div_add_mod, Nat.toDigits_of_lt_base hlast] at hsplit
    rw [← hsplit]
    simp [Nat.add_sub_add_right]

/-- Four digits of a number that has no more. -/
theorem hex_four {n : Nat} (h : n < 0x10000) :
    hex 4 n = [(n / 0x1000).digitChar, (n / 0x100 % 16).digitChar, (n / 0x10 % 16).digitChar,
      (n % 16).digitChar] := by
  have hfirst : n / 0x1000 < 16 := by omega
  have hone : hex 1 (n / 0x1000) = [(n / 0x1000).digitChar] := by
    rw [hex, Nat.toDigits_of_lt_base hfirst]
    rfl
  have hsecond : n / 0x10 / 0x10 = n / 0x100 := Nat.div_div_eq_div_mul n 0x10 0x10
  have hthird : n / 0x100 / 0x10 = n / 0x1000 := Nat.div_div_eq_div_mul n 0x100 0x10
  rw [hex_succ (by decide), hex_succ (by decide), hex_succ (by decide), hsecond, hthird, hone]
  rfl

/-! ### Base 10 -/

theorem decimal_ne_nil (n : Nat) : decimal n ≠ [] := Nat.toDigits_ne_nil

theorem isDigit_of_mem_decimal {n : Nat} {c : Char} (h : c ∈ decimal n) : c.isDigit = true :=
  Nat.isDigit_of_mem_toDigits (by decide) (by decide) h

/-- A smaller number has no more digits. -/
theorem length_decimal_mono {m n : Nat} (h : m ≤ n) : (decimal m).length ≤ (decimal n).length := by
  have hpos : 0 < (decimal n).length := List.length_pos_iff.mpr (decimal_ne_nil n)
  have hn := (Nat.length_toDigits_le_iff (by decide) hpos).mp (Nat.le_refl _)
  exact (Nat.length_toDigits_le_iff (by decide) hpos).mpr (Nat.lt_of_le_of_lt h hn)

/-- No more digits than are read of a whole number. -/
def Short (n : Nat) : Prop := (decimal n).length ≤ digitLimit

instance (n : Nat) : Decidable (Short n) := inferInstanceAs (Decidable (_ ≤ _))

theorem Short.mono {m n : Nat} (h : Short n) (hle : m ≤ n) : Short m :=
  Nat.le_trans (length_decimal_mono hle) h

/-- The last digit of a number stands behind the digits of the rest of it, if it has more than one. -/
theorem decimal_eq (n : Nat) :
    decimal n = (if n < 10 then [] else decimal (n / 10)) ++ [(n % 10).digitChar] := by
  rw [decimal, Nat.toDigits_eq_if (by decide)]
  split
  next hsmall => rw [Nat.mod_eq_of_lt hsmall, List.nil_append]
  next => rfl

theorem digitsValue_append_digit (t : Text) {d : Nat} (h : d < 10) :
    digitsValue 10 (t ++ [d.digitChar]) = 10 * digitsValue 10 t + d := by
  simp [digitsValue, hexDigit?_digitChar (Nat.lt_trans h (by decide))]

/-- **The digits of a number have its value.** -/
theorem digitsValue_decimal (n : Nat) : digitsValue 10 (decimal n) = n := by
  induction n using Nat.strongRecOn with
  | ind n ih =>
    rw [decimal_eq, digitsValue_append_digit _ (Nat.mod_lt n (by decide))]
    split
    next hsmall =>
      have hnone : digitsValue 10 [] = 0 := rfl
      omega
    next hlarge =>
      rw [ih (n / 10) (by omega)]
      exact Nat.div_add_mod n 10

end Text
end Graft
