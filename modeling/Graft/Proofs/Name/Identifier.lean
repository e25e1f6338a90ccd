import Graft.Name.Exported
import Graft.Name
import Graft.Proofs.Text.Lines
import Graft.Script.Piece

/-
The names of classes are identifiers.

* `IsIdentifier s` — a text that reads as one identifier;
* `isIdentifier_of_exported?` — the name of a class that a script exports;
* `isIdentifier_symbol` — **the name that an artifact is expected to export**, whatever its path.
-/
namespace Graft

open Script

/-- A text that reads as one identifier. -/
structure IsIdentifier (s : Text) : Prop where
  nonempty : s ≠ []
  chars : ∀ c ∈ s, isIdentChar c = true

/-! ### ASCII letters and digits -/

theorem toNat_lt_of_isAlphanum {c : Char} (h : c.isAlphanum = true) : c.toNat < 128 := by
  have hclass : c.isAlphanum = ((decide ('A'.val ≤ c.val ∧ c.val ≤ 'Z'.val) ||
      (decide ('a'.val ≤ c.val) && decide (c.val ≤ 'z'.val))) ||
      (decide ('0'.val ≤ c.val) && decide (c.val ≤ '9'.val))) := rfl
  simp only [hclass, Bool.or_eq_true, Bool.and_eq_true, decide_eq_true_eq,
    UInt32.le_iff_toNat_le] at h
  have hval : c.toNat = c.val.toNat := rfl
  simp at h
  omega

theorem isIdentChar_of_isAlphanum {c : Char} (h : c.isAlphanum = true) : isIdentChar c = true := by
  rw [isIdentChar, isAlphanumeric, if_pos (toNat_lt_of_isAlphanum h), h]
  rfl

/-- What holds of all ASCII characters holds of letters and digits. -/
theorem forall_alphanum {P : Char → Prop} (h : ∀ n < 128, P (Char.ofNat n)) {c : Char}
    (hc : c.isAlphanum = true) : P c := by
  have hascii := h c.toNat (toNat_lt_of_isAlphanum hc)
  rwa [Char.ofNat_toNat] at hascii

/-- Letters and digits are so in either case. -/
theorem isAlphanum_case {c : Char} (h : c.isAlphanum = true) :
    c.toUpper.isAlphanum = true ∧ c.toLower.isAlphanum = true :=
  forall_alphanum (P := fun c => c.isAlphanum = true →
    c.toUpper.isAlphanum = true ∧ c.toLower.isAlphanum = true) (by decide +kernel) h h

namespace Name

/-! ### Exported classes -/

theorem isIdentChar_of_isClassStart {c : Char} (h : isClassStart c = true) : isIdentChar c = true := by
  rw [isClassStart, Bool.or_eq_true, Bool.or_eq_true] at h
  rcases h with (h | h) | h
  · refine isIdentChar_of_isAlphanum ?_
    rw [Char.isAlphanum, h, Bool.true_or]
  · rw [isIdentChar, h, Bool.or_true, Bool.true_or]
  · rw [isIdentChar, h, Bool.or_true]

/-- What a text starts with when it starts with an exported class. -/
theorem exportedHere?_eq_some {t s : Text} (h : exportedHere? t = some s) : ∃ rest c cs,
    afterWord? "export".toList t = some rest ∧
    afterWord? "class".toList (skipWord "abstract".toList (skipWord "default".toList rest)) =
      some (c :: cs) ∧ isClassStart c = true ∧ s = c :: cs.takeWhile isClassPart := by
  unfold exportedHere? at h
  split at h
  · cases h
  next rest hexport =>
    split at h
    · cases h
    · cases h
    next c cs hclass =>
      obtain ⟨hstart, h⟩ := Option.ite_none_right_eq_some.mp h
      exact ⟨rest, c, cs, hexport, hclass, hstart, (Option.some.inj h).symm⟩

theorem isIdentifier_of_exportedHere? {t s : Text} (h : exportedHere? t = some s) : IsIdentifier s := by
  obtain ⟨rest, c, cs, -, -, hstart, rfl⟩ := exportedHere?_eq_some h
  refine ⟨List.cons_ne_nil _ _, List.forall_mem_cons.mpr ⟨isIdentChar_of_isClassStart hstart, ?_⟩⟩
  intro d hd
  exact List.all_eq_true.mp List.all_takeWhile d hd

theorem isIdentifier_of_exported? {script s : Text} (h : exported? script = some s) :
    IsIdentifier s := by
  have hfrom (inWord : Bool) (t : Text) (h : exportedFrom? inWord t = some s) : IsIdentifier s := by
    induction t generalizing inWord with
    | nil => cases h
    | cons c cs ih =>
      rw [exportedFrom?] at h
      cases hhere : (if inWord then none else exportedHere? (c :: cs)) with
      | none =>
        rw [hhere] at h
        exact ih _ h
      | some name =>
        rw [hhere] at h
        obtain rfl := Option.some.inj h
        exact isIdentifier_of_exportedHere? (Option.ite_none_left_eq_some.mp hhere).2
  exact hfrom false script h

/-! ### Expected classes -/

theorem isAlphanum_of_mem_words {t w : Text} (h : w ∈ words t) : ∀ c ∈ w, c.isAlphanum = true := by
  intro c hc
  simpa using Text.not_of_mem_splitOnP (List.mem_filter.mp h).1 c hc

theorem isAlphanum_of_mem_capitalised {w : Text} (h : ∀ c ∈ w, c.isAlphanum = true) :
    ∀ c ∈ capitalised w, c.isAlphanum = true := by
  cases w with
  | nil => exact h
  | cons c cs =>
    obtain ⟨hc, hcs⟩ := List.forall_mem_cons.mp h
    refine List.forall_mem_cons.mpr ⟨(isAlphanum_case hc).1, fun e he => ?_⟩
    obtain ⟨d, hd, rfl⟩ := List.mem_map.mp he
    exact (isAlphanum_case (hcs d hd)).2

theorem isAlphanum_of_mem_pascal {t : Text} : ∀ c ∈ pascal t, c.isAlphanum = true := by
  intro c hc
  obtain ⟨w, hw, hc⟩ := List.mem_flatMap.mp hc
  exact isAlphanum_of_mem_capitalised (isAlphanum_of_mem_words hw) c hc

/-- The name of a class, written in the convention for classes and with the suffix of a component. -/
theorem isIdentifier_pascal (t : Text) : IsIdentifier (pascal t ++ componentSuffix) := by
  refine ⟨List.append_ne_nil_of_right_ne_nil _ (by decide), fun c hc => ?_⟩
  rcases List.mem_append.mp hc with hc | hc
  · exact isIdentChar_of_isAlphanum (isAlphanum_of_mem_pascal c hc)
  · exact List.all_eq_true.mp (by decide : componentSuffix.all isIdentChar = true) c hc

/-- **The name that an artifact is expected to export is an identifier.** -/
theorem isIdentifier_symbol (path : Text) : IsIdentifier (symbol path componentSuffix) :=
  isIdentifier_pascal (base path)

end Name
end Graft
