import Graft.Json.Printer
import Graft.Json.Reader
import Graft.Proofs.Text.Digits
import Mathlib.Data.List.Chain

/-
Strings of JSON text, read back.

* `escapedChar_cases` — what a character is escaped to;
* `isPlainAscii_of_mem_escaped` — a string is written in printable ASCII;
* `readUnits_unit`, `readUnits_pair` — the units of a character are read as that character;
* `readString_escapedPoint` — so is whatever a code point is escaped to;
* `Unpaired t` — no high surrogate stands right before a low one in `t`, as in no text of characters;
* `readText_escaped` — **a string is read back, whatever its code points and whatever follows**, unless two of
  them make a pair.

Design notes: a reader of four digits asks for something behind them, which in a string there is: its closing
quote at least.  A surrogate is read as itself when no partner follows, so what follows is looked at first.
-/
namespace Graft.Json

variable {n : Nat} {c : Char} {rest : Wide}

/-- Printable ASCII. -/
def IsPlainAscii (c : Char) : Prop := 0x20 ≤ c.toNat ∧ c.toNat < 0x7F

instance : DecidablePred IsPlainAscii := fun _ => inferInstanceAs (Decidable (_ ∧ _))

/-! ### Printable ASCII -/

theorem isPlainAscii_digitChar {d : Nat} (h : d < 16) : IsPlainAscii d.digitChar := by
  have hall : ∀ d < 16, IsPlainAscii (Nat.digitChar d) := by decide
  exact hall d h

theorem isPlainAscii_unitEscape (h : n < 0x10000) : ∀ c ∈ unitEscape n, IsPlainAscii c := by
  intro c hc
  rw [unitEscape, Text.hex_four h] at hc
  simp only [List.cons_append, List.nil_append, List.mem_cons, List.not_mem_nil, or_false] at hc
  rcases hc with rfl | rfl | rfl | rfl | rfl | rfl
  · decide
  · decide
  · exact isPlainAscii_digitChar (by omega)
  · exact isPlainAscii_digitChar (by omega)
  · exact isPlainAscii_digitChar (by omega)
  · exact isPlainAscii_digitChar (by omega)

/-- A character lies in the code space, and is no surrogate. -/
theorem char_bounds (c : Char) : c.toNat < 0xD800 ∨ (0xDFFF < c.toNat ∧ c.toNat < 0x110000) := c.valid

/-- The first unit of a character that has two, and the second. -/
def highUnit (c : Char) : Nat := 0xD800 + (c.toNat - 0x10000) / 0x400

def lowUnit (c : Char) : Nat := 0xDC00 + (c.toNat - 0x10000) % 0x400

/-- What a character is escaped to: a letter for it, itself, its unit, or its two units. -/
theorem escapedChar_cases (c : Char) :
    (∃ e, shortEscape? e = some c ∧ escapedChar c = ['\\', e] ∧ e ≠ 'u' ∧ IsPlainAscii e) ∨
    (IsPlainAscii c ∧ c ≠ '"' ∧ c ≠ '\\' ∧ escapedChar c = [c]) ∨
    (c.toNat < 0x10000 ∧ escapedChar c = unitEscape c.toNat) ∨
    (0x10000 ≤ c.toNat ∧ escapedChar c = unitEscape (highUnit c) ++ unitEscape (lowUnit c)) := by
  by_cases hquote : c = '"'
  · exact .inl ⟨'"', by rw [hquote]; decide⟩
  by_cases hback : c = '\\'
  · exact .inl ⟨'\\', by rw [hback]; decide⟩
  by_cases hline : c = '\n'
  · exact .inl ⟨'n', by rw [hline]; decide⟩
  by_cases hreturn : c = '\r'
  · exact .inl ⟨'r', by rw [hreturn]; decide⟩
  by_cases htab : c = '\t'
  · exact .inl ⟨'t', by rw [htab]; decide⟩
  by_cases hfeed : c = '\x0c'
  · exact .inl ⟨'f', by rw [hfeed]; decide⟩
  by_cases hbell : c = '\x08'
  · exact .inl ⟨'b', by rw [hbell]; decide⟩
  -- No letter stands for the character.
  rw [escapedChar, if_neg hquote, if_neg hback, if_neg hline, if_neg hreturn, if_neg htab, if_neg hfeed,
    if_neg hbell]
  right
  by_cases hprint : IsPlainAscii c
  · have htest : (0x20 ≤ c.toNat && c.toNat < 0x7F) = true := by simpa [IsPlainAscii] using hprint
    exact .inl ⟨hprint, hquote, hback, if_pos htest⟩
  · have htest : ¬ (0x20 ≤ c.toNat && c.toNat < 0x7F) = true := by simpa [IsPlainAscii] using hprint
    rw [if_neg htest]
    by_cases hunit : c.toNat < 0x10000
    · exact .inr (.inl ⟨hunit, if_pos hunit⟩)
    · exact .inr (.inr ⟨Nat.le_of_not_lt hunit, if_neg hunit⟩)

theorem units_lt (c : Char) : highUnit c < 0x10000 ∧ lowUnit c < 0x10000 := by
  have hbounds := char_bounds c
  unfold highUnit lowUnit
  omega

theorem isPlainAscii_of_mem_escapedChar {d : Char} (h : d ∈ escapedChar c) : IsPlainAscii d := by
  rcases escapedChar_cases c with ⟨e, -, heq, -, he⟩ | ⟨hc, -, -, heq⟩ | ⟨hunit, heq⟩ | ⟨-, heq⟩
  · rw [heq, List.mem_cons, List.mem_singleton] at h
    rcases h with rfl | rfl
    · decide
    · exact he
  · rw [heq, List.mem_singleton] at h
    rwa [h]
  · exact isPlainAscii_unitEscape hunit d (heq ▸ h)
  · rw [heq, List.mem_append] at h
    exact h.elim (isPlainAscii_unitEscape (units_lt c).1 d) (isPlainAscii_unitEscape (units_lt c).2 d)

theorem isPlainAscii_of_mem_escapedPoint {p : Point} {d : Char} (h : d ∈ escapedPoint p) :
    IsPlainAscii d := by
  cases p with
  | char c => exact isPlainAscii_of_mem_escapedChar h
  | surrogate n => exact isPlainAscii_unitEscape (by omega) d h

/-- A string is written in printable ASCII. -/
theorem isPlainAscii_of_mem_escaped {t : Wide} {d : Char} (h : d ∈ escaped t) : IsPlainAscii d := by
  rw [escaped, List.cons_append, List.mem_cons, List.mem_append, List.mem_flatMap,
    List.mem_singleton] at h
  rcases h with rfl | ⟨p, -, hp⟩ | rfl
  · decide
  · exact isPlainAscii_of_mem_escapedPoint hp
  · decide

/-! ### Units -/

/-- Four digits that something follows have the value of their number. -/
theorem hex4?_hex (h : n < 0x10000) (e : Point) (rest : Wide) :
    hex4? ((Text.hex 4 n).wide ++ e :: rest) = some (n, e :: rest) := by
  have hvalue : ((n / 0x1000 * 16 + n / 0x100 % 16) * 16 + n / 0x10 % 16) * 16 + n % 16 = n := by omega
  rw [Text.hex_four h]
  simp only [Text.wide_cons, Text.wide_nil, List.cons_append, List.nil_append, hex4?]
  rw [hexDigit?_digitChar (by omega), hexDigit?_digitChar (by omega), hexDigit?_digitChar (by omega),
    hexDigit?_digitChar (by omega)]
  simp only [Option.bind_eq_bind, Option.bind_some, hvalue]

theorem unitEscape_append (n : Nat) (t : Wide) :
    (unitEscape n).wide ++ t = .char '\\' :: .char 'u' :: ((Text.hex 4 n).wide ++ t) := rfl

/-- A text that does not begin with the escape of a low surrogate, though it may with another one's. -/
def Unpairing (t : Wide) : Prop := ∀ r, t = .char '\\' :: .char 'u' :: r →
  ∃ low r', hex4? r = some (low, r') ∧ ¬ (0xDC00 ≤ low ∧ low < 0xE000)

/-- A unit is read as the code point it is when no partner follows it. -/
theorem readUnits_unit (h : n < 0x10000) {e : Point} (hnext : 0xD800 ≤ n ∧ n < 0xDC00 → Unpairing (e :: rest)) :
    readUnits (.char 'u' :: ((Text.hex 4 n).wide ++ e :: rest)) = .ok (.ofUnit n, e :: rest) := by
  rw [readUnits, List.drop_one, List.tail_cons, hex4?_hex h]
  dsimp only
  by_cases hhigh : 0xD800 ≤ n ∧ n < 0xDC00
  · rw [if_pos (by simpa using hhigh)]
    split
    next r heq =>
      obtain ⟨low, r', hlow, hno⟩ := hnext hhigh r heq
      rw [hlow]
      exact if_neg (by simpa using hno)
    next => rfl
  · rw [if_neg (by simpa using hhigh)]

/-- A character that is two units is read from both. -/
theorem readUnits_pair (h : 0x10000 ≤ c.toNat) (e : Point) (rest : Wide) :
    readUnits (.char 'u' :: ((Text.hex 4 (highUnit c)).wide ++ ((unitEscape (lowUnit c)).wide ++ e :: rest))) =
      .ok (.char c, e :: rest) := by
  have hbounds := char_bounds c
  have hhigh : 0xD800 ≤ highUnit c ∧ highUnit c < 0xDC00 := by
    unfold highUnit
    omega
  have hlow : 0xDC00 ≤ lowUnit c ∧ lowUnit c < 0xE000 := by
    unfold lowUnit
    omega
  have hvalue : 0x10000 + (highUnit c - 0xD800) * 0x400 + (lowUnit c - 0xDC00) = c.toNat := by
    unfold highUnit lowUnit
    omega
  rw [unitEscape_append, readUnits, List.drop_one, List.tail_cons, hex4?_hex (units_lt c).1]
  simp only [hex4?_hex (units_lt c).2, hhigh, hlow, hvalue, Char.ofNat_toNat, decide_true, Bool.and_self,
    if_true]

theorem ofUnit_char (c : Char) : Point.ofUnit c.toNat = .char c := by
  have hbounds := char_bounds c
  rw [Point.ofUnit, if_neg (by simp only [Bool.and_eq_true, decide_eq_true_eq]; omega), Char.ofNat_toNat]

theorem ofUnit_surrogate (n : Fin 0x800) : Point.ofUnit (0xD800 + n) = .surrogate n := by
  rw [Point.ofUnit, if_pos (by simp only [Bool.and_eq_true, decide_eq_true_eq]; omega),
    Nat.add_sub_cancel_left, Fin.ofNat_val_eq_self]

/-! ### Strings -/

variable {opened fuel : Nat} {e : Char} {p q : Point} {t : Wide}

/-- Puts a code point in front of what a reader has read. -/
def andThen (p : Point) (read : Except Stop (Wide × Wide)) : Except Stop (Wide × Wide) :=
  read.map fun r => (p :: r.1, r.2)

theorem readString_letter (he : shortEscape? e = some c) (hu : e ≠ 'u') :
    readString opened (fuel + 1) (.char '\\' :: .char e :: rest) =
      andThen (.char c) (readString opened fuel rest) := by
  rw [readString]
  · rw [Point.char?, Option.bind_some, he]
    cases readString opened fuel rest <;> rfl
  · exact fun h => hu (Point.char.inj h)

theorem readString_plain (hc : IsPlainAscii c) (hquote : c ≠ '"') (hback : c ≠ '\\') :
    readString opened (fuel + 1) (.char c :: rest) = andThen (.char c) (readString opened fuel rest) := by
  have hback' : Point.char c ≠ .char '\\' := fun h => hback (Point.char.inj h)
  rw [readString]
  · rw [if_neg (by unfold IsPlainAscii at hc; rw [Point.toNat]; omega)]
    cases readString opened fuel rest <;> rfl
  · exact fun h => hquote (Point.char.inj h)
  · exact fun h => absurd h hback'
  · exact fun _ h => absurd h hback'
  · exact fun _ _ h => absurd h hback'

theorem readString_units {rest' : Wide} (h : readUnits (.char 'u' :: rest) = .ok (p, rest')) :
    readString opened (fuel + 1) (.char '\\' :: .char 'u' :: rest) = andThen p (readString opened fuel rest') := by
  rw [readString, h]
  change (readString opened fuel rest' >>= fun r => pure (p :: r.1, r.2)) = _
  cases readString opened fuel rest' <;> rfl

/-- What a code point is escaped to is read as that code point, where something follows that is not the
partner of a surrogate. -/
theorem readString_escapedPoint (opened fuel : Nat) (h : p.isHigh = true → Unpairing (q :: rest)) :
    readString opened (fuel + 1) ((escapedPoint p).wide ++ q :: rest) =
      andThen p (readString opened fuel (q :: rest)) := by
  cases p with
  | surrogate n =>
    rw [escapedPoint, unitEscape_append]
    refine readString_units ?_
    rw [readUnits_unit (by omega) fun hn => h (decide_eq_true (by omega)), ofUnit_surrogate]
  | char c =>
    rw [escapedPoint]
    rcases escapedChar_cases c with ⟨x, hx, heq, hu, -⟩ | ⟨hc, hquote, hback, heq⟩ | ⟨hunit, heq⟩ | ⟨hpair, heq⟩
    · rw [heq]
      exact readString_letter hx hu
    · rw [heq]
      exact readString_plain hc hquote hback
    · rw [heq, unitEscape_append]
      refine readString_units ?_
      have hbounds := char_bounds c
      rw [readUnits_unit hunit fun hn => absurd hn (by omega), ofUnit_char]
    · rw [heq, Text.wide_append, List.append_assoc, unitEscape_append]
      exact readString_units (readUnits_pair hpair q rest)

/-- Wide texts in which no high surrogate stands right before a low one; such a pair would be read as one
character. -/
def Unpaired (t : Wide) : Prop := t.IsChain fun p q => ¬ (p.isHigh = true ∧ q.isLow = true)

theorem unpaired_wide (t : Text) : Unpaired t.wide := by
  induction t with
  | nil => exact .nil
  | cons c cs ih =>
    cases cs with
    | nil => exact .singleton _
    | cons d ds => exact .cons_cons (fun h => by cases h.1) ih

/-- What a text begins with that an escape is put in front of. -/
theorem unpairing_of_unit (h : n < 0x10000) (hlow : ¬ (0xDC00 ≤ n ∧ n < 0xE000)) (e : Point) (rest : Wide) :
    Unpairing ((unitEscape n).wide ++ e :: rest) := by
  intro r hr
  rw [unitEscape_append] at hr
  obtain rfl := (List.cons.inj (List.cons.inj hr).2).2
  exact ⟨n, e :: rest, hex4?_hex h e rest, hlow⟩

/-- A code point that is no low surrogate is escaped to nothing that a high one takes for its partner. -/
theorem unpairing_escapedPoint (h : p.isLow = false) (e : Point) (rest : Wide) :
    Unpairing ((escapedPoint p).wide ++ e :: rest) := by
  cases p with
  | surrogate n =>
    have hlow : n.val < 0x400 := by simpa [Point.isLow] using h
    exact unpairing_of_unit (by omega) (by omega) e rest
  | char c =>
    have hbounds := char_bounds c
    rw [escapedPoint]
    rcases escapedChar_cases c with ⟨x, -, heq, hu, -⟩ | ⟨-, -, hback, heq⟩ | ⟨hunit, heq⟩ | ⟨hpair, heq⟩
    · rw [heq]
      exact fun r hr => absurd (Point.char.inj (List.cons.inj (List.cons.inj hr).2).1) hu
    · rw [heq]
      exact fun r hr => absurd (Point.char.inj (List.cons.inj hr).1) hback
    · rw [heq]
      exact unpairing_of_unit hunit (by omega) e rest
    · rw [heq, Text.wide_append, List.append_assoc]
      refine unpairing_of_unit (units_lt c).1 ?_ _ _
      unfold highUnit
      omega

/-- What a string of code points is written as, with its closing quote and what follows. -/
theorem wide_flatMap_cons (p : Point) (ps : Wide) :
    Text.wide ((p :: ps).flatMap escapedPoint) = (escapedPoint p).wide ++ Text.wide (ps.flatMap escapedPoint) := by
  rw [List.flatMap_cons, Text.wide_append]

/-- The code points of a string are read up to its closing quote, one at a time. -/
theorem readString_flatMap (opened : Nat) {fuel : Nat} (ht : Unpaired t) (h : t.length < fuel)
    (rest : Wide) :
    readString opened fuel (Text.wide (t.flatMap escapedPoint) ++ .char '"' :: rest) = .ok (t, rest) := by
  induction t generalizing fuel with
  | nil =>
    obtain ⟨k, rfl⟩ : ∃ k, fuel = k + 1 := ⟨fuel - 1, by omega⟩
    rfl
  | cons p ps ih =>
    obtain ⟨k, rfl⟩ : ∃ k, fuel = k + 1 := ⟨fuel - 1, by omega⟩
    rw [List.length_cons] at h
    have hrest : readString opened k (Text.wide (ps.flatMap escapedPoint) ++ .char '"' :: rest) =
        .ok (ps, rest) := ih ht.tail (by omega)
    rw [wide_flatMap_cons, List.append_assoc]
    -- No partner follows a high surrogate: the string ends, or another code point comes.
    have hnext : p.isHigh = true → Unpairing (Text.wide (ps.flatMap escapedPoint) ++ .char '"' :: rest) := by
      intro hhigh
      cases ps with
      | nil => exact fun r hr => absurd (List.cons.inj hr).1 (by decide)
      | cons q qs =>
        have hlow : q.isLow = false := Bool.eq_false_iff.mpr fun hq => ht.rel ⟨hhigh, hq⟩
        obtain ⟨e, rest', heq⟩ := List.exists_cons_of_ne_nil
          (List.append_ne_nil_of_right_ne_nil (Text.wide (qs.flatMap escapedPoint))
            (List.cons_ne_nil (.char '"') rest))
        rw [wide_flatMap_cons, List.append_assoc, heq]
        exact unpairing_escapedPoint hlow e rest'
    obtain ⟨e, rest', heq⟩ := List.exists_cons_of_ne_nil
      (List.append_ne_nil_of_right_ne_nil (Text.wide (ps.flatMap escapedPoint))
        (List.cons_ne_nil (.char '"') rest))
    rw [heq] at hnext hrest ⊢
    rw [readString_escapedPoint opened k hnext, hrest]
    rfl

theorem length_le_flatMap (t : Wide) : t.length ≤ (t.flatMap escapedPoint).length := by
  induction t with
  | nil => exact Nat.le_refl 0
  | cons p ps ih =>
    have hone : 1 ≤ (escapedPoint p).length := by
      cases p with
      | surrogate n => exact Nat.succ_le_succ (Nat.zero_le _)
      | char c =>
        rw [escapedPoint]
        rcases escapedChar_cases c with ⟨x, -, heq, -⟩ | ⟨-, -, -, heq⟩ | ⟨-, heq⟩ | ⟨-, heq⟩
        all_goals
          rw [heq]
          exact Nat.succ_le_succ (Nat.zero_le _)
    rw [List.flatMap_cons, List.length_cons, List.length_append]
    omega

/-- **A string is read back, whatever its code points and whatever follows**, unless two of them make a
pair. -/
theorem readText_escaped (ht : Unpaired t) (rest : Wide) :
    readText (Text.wide (t.flatMap escapedPoint) ++ .char '"' :: rest) = .ok (t, rest) := by
  refine readString_flatMap _ ht ?_ rest
  have hlength := length_le_flatMap t
  rw [List.length_append, List.length_cons, Text.length_wide]
  omega

end Graft.Json
