import Graft.Proofs.Json.Strings
import Graft.Proofs.Text.Lines

/-
What is printed is printable ASCII.

* `PlainAscii t` — a text of printable ASCII;
* `PlainAscii.unbroken` — such a text is one line;
* `plainAscii_render` — numbers with a fraction are written in it;
* `plainAscii_print` — **so is every value, whatever it holds**.

Design notes: values, items and members are gone through together, as they are printed.
-/
namespace Graft.Json

open Decimal

variable {s : Layout} {t u : Text} {c : Char}

/-- A text of printable ASCII. -/
def PlainAscii (t : Text) : Prop := ∀ c ∈ t, IsPlainAscii c

instance (t : Text) : Decidable (PlainAscii t) := List.decidableBAll _ _

@[simp] theorem plainAscii_nil : PlainAscii [] := List.forall_mem_nil _

@[simp] theorem plainAscii_cons : PlainAscii (c :: t) ↔ IsPlainAscii c ∧ PlainAscii t :=
  List.forall_mem_cons

@[simp] theorem plainAscii_append : PlainAscii (t ++ u) ↔ PlainAscii t ∧ PlainAscii u :=
  List.forall_mem_append

theorem PlainAscii.sublist (h : PlainAscii t) (hsub : u.Sublist t) : PlainAscii u :=
  fun c hc => h c (hsub.subset hc)

theorem plainAscii_replicate (n : Nat) (hc : IsPlainAscii c) : PlainAscii (List.replicate n c) :=
  fun _ h => List.eq_of_mem_replicate h ▸ hc

/-- A text of printable ASCII is one line. -/
theorem PlainAscii.unbroken (h : PlainAscii t) : Text.Unbroken t := by
  intro c hc
  obtain ⟨hlow, hhigh⟩ := h c hc
  simp only [isLineBreak, Bool.or_eq_false_iff, Bool.and_eq_false_iff, decide_eq_false_iff_not,
    beq_eq_false_iff_ne]
  omega

/-! ### Numbers -/

theorem isPlainAscii_of_isDigit (h : c.isDigit = true) : IsPlainAscii c := by
  obtain ⟨hlow, hhigh⟩ : 48 ≤ c.toNat ∧ c.toNat ≤ 57 := by
    simpa [Char.isDigit, UInt32.le_iff_toNat_le] using h
  exact ⟨Nat.le_trans (by decide) hlow, Nat.lt_of_le_of_lt hhigh (by decide)⟩

theorem plainAscii_decimal (n : Nat) : PlainAscii (Text.decimal n) :=
  fun _ hc => isPlainAscii_of_isDigit (Text.isDigit_of_mem_decimal hc)

theorem plainAscii_ofInt (n : Int) : PlainAscii (Text.ofInt n) := by
  cases n with
  | ofNat n => exact plainAscii_decimal n
  | negSucc n => exact plainAscii_cons.mpr ⟨by decide, plainAscii_decimal (n + 1)⟩

theorem plainAscii_padded (width n : Nat) : PlainAscii (Text.padded width n) :=
  plainAscii_append.mpr ⟨plainAscii_replicate _ (by decide), plainAscii_decimal n⟩

theorem plainAscii_positional (h : PlainAscii t) (point : Int) : PlainAscii (positional t point) := by
  have hzeros (n : Nat) : PlainAscii (List.replicate n '0') := plainAscii_replicate n (by decide)
  rw [positional]
  dsimp only
  split
  · have hlead : PlainAscii "0.".toList := by decide
    simp only [plainAscii_append, hlead, hzeros, h, and_self]
  · simp only [plainAscii_append, hzeros, and_true]
    refine ⟨⟨h.sublist (List.take_sublist _ _), by decide⟩, ?_⟩
    split
    · decide
    · exact h.sublist (List.drop_sublist _ _)

theorem plainAscii_scientific (h : PlainAscii t) (power : Int) : PlainAscii (scientific t power) := by
  have hsign : IsPlainAscii (if power < 0 then '-' else '+') := by split <;> decide
  have he : IsPlainAscii 'e' := by decide
  unfold scientific
  dsimp only
  simp only [plainAscii_append, plainAscii_padded, plainAscii_cons, plainAscii_nil, hsign, he, and_true]
  split
  · decide
  · exact h
  · rw [plainAscii_cons] at h
    exact plainAscii_cons.mpr ⟨h.1, plainAscii_cons.mpr ⟨by decide, h.2⟩⟩

theorem plainAscii_digits (x : Digits) : PlainAscii x.render := by
  have hsignificant : PlainAscii (significant (Text.decimal x.digits)) := by
    rw [significant, Text.trimRight_eq_rdropWhile]
    exact (plainAscii_decimal _).sublist (List.rdropWhile_prefix _ _).sublist
  rw [Digits.render]
  split
  · exact plainAscii_positional hsignificant _
  · exact plainAscii_scientific hsignificant _

/-- A number with a fraction is written in printable ASCII, if what has no digits is. -/
theorem plainAscii_render {style : Style} (hinfinite : PlainAscii style.infinite)
    (hundefined : PlainAscii style.undefined) (f : Float) : PlainAscii (style.render f) := by
  have hsign (b : Bool) : PlainAscii (if b = true then ['-'] else []) := by cases b <;> decide
  rw [Style.render]
  split
  · split
    · exact plainAscii_append.mpr ⟨hsign _, hinfinite⟩
    · exact hundefined
  · split
    · exact plainAscii_append.mpr ⟨hsign _, by decide⟩
    · exact plainAscii_append.mpr ⟨hsign _, plainAscii_digits _⟩

theorem plainAscii_printNumber (n : Number) : PlainAscii (printNumber n) := by
  cases n with
  | int n => exact plainAscii_ofInt n
  | float f => exact plainAscii_render (by decide) (by decide) f

/-! ### Values -/

theorem plainAscii_escaped (t : Wide) : PlainAscii (escaped t) := fun _ => isPlainAscii_of_mem_escaped

mutual

/-- **Every value is printed in printable ASCII, whatever it holds**, between separators that are. -/
theorem plainAscii_print (hcomma : PlainAscii s.comma) (hcolon : PlainAscii s.colon) :
    (v : Json) → PlainAscii (print s v)
  | .null => (by decide : PlainAscii "null".toList)
  | .bool true => (by decide : PlainAscii "true".toList)
  | .bool false => (by decide : PlainAscii "false".toList)
  | .num n => plainAscii_printNumber n
  | .str t => plainAscii_escaped t
  | .arr items => by
    have hitems := plainAscii_printItems hcomma hcolon items
    have hbrackets : IsPlainAscii '[' ∧ IsPlainAscii ']' := by decide
    simp [print, hitems, hbrackets]
  | .obj members => by
    have hmembers := plainAscii_printMembers hcomma hcolon members
    have hbraces : IsPlainAscii '\x7b' ∧ IsPlainAscii '\x7d' := by decide
    simp [print, hmembers, hbraces]

theorem plainAscii_printItems (hcomma : PlainAscii s.comma) (hcolon : PlainAscii s.colon) :
    (items : List Json) → PlainAscii (printItems s items)
  | [] => plainAscii_nil
  | [v] => plainAscii_print hcomma hcolon v
  | v :: w :: vs => by
    have hv := plainAscii_print hcomma hcolon v
    have hvs := plainAscii_printItems hcomma hcolon (w :: vs)
    simp [printItems, hv, hvs, hcomma]

theorem plainAscii_printMembers (hcomma : PlainAscii s.comma) (hcolon : PlainAscii s.colon) :
    (members : List (Wide × Json)) → PlainAscii (printMembers s members)
  | [] => plainAscii_nil
  | [(k, v)] => by
    have hv := plainAscii_print hcomma hcolon v
    simp [printMembers, hv, hcolon, plainAscii_escaped]
  | (k, v) :: m :: ms => by
    have hv := plainAscii_print hcomma hcolon v
    have hms := plainAscii_printMembers hcomma hcolon (m :: ms)
    simp [printMembers, hv, hms, hcolon, hcomma, plainAscii_escaped]

end

end Graft.Json
