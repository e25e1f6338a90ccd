import Graft.Proofs.Name.Identifier
import Graft.Text.Lowercase

/-
The words of a name, and the two ways to write them.

* `IsKebab t` — non-empty runs of lower-case letters and digits, joined by single hyphens;
* `flatten_words` — the words of a text are its letters and digits;
* `words_kebab` — **written with hyphens, a name has the same words in lower case**;
* `kebab_normal` — **what is written with hyphens is a normal form**, and is capitalised like the text.

Design notes: a text without capitals has no joint, so all that has to be known of the words of a text is that
they are runs of letters and digits, and which ones.
-/
namespace Graft

/-! ### Letters and digits in either case -/

theorem isLower_toLower {c : Char} (h : c.isAlphanum = true) :
    (c.toLower.isLower || c.toLower.isDigit) = true :=
  forall_alphanum (P := fun c => c.isAlphanum = true → (c.toLower.isLower || c.toLower.isDigit) = true)
    (by decide +kernel) h h

theorem toLower_toUpper {c : Char} (h : c.isAlphanum = true) : c.toUpper.toLower = c.toLower :=
  forall_alphanum (P := fun c => c.toUpper.toLower = c.toLower) (by decide +kernel) h

theorem toUpper_toLower {c : Char} (h : c.isAlphanum = true) : c.toLower.toUpper = c.toUpper :=
  forall_alphanum (P := fun c => c.toLower.toUpper = c.toUpper) (by decide +kernel) h

theorem toLower_toLower {c : Char} (h : c.isAlphanum = true) : c.toLower.toLower = c.toLower :=
  forall_alphanum (P := fun c => c.toLower.toLower = c.toLower) (by decide +kernel) h

/-- For ASCII texts the lower case of all scripts is that of ASCII. -/
theorem Text.lowercase_ascii {t : Text} (h : ∀ c ∈ t, c.toNat < 128) : lowercase t = lowerAscii t := by
  have hgo (before : Text) : lowercase.go before t = lowerAscii t := by
    induction t generalizing before with
    | nil => rfl
    | cons c cs ih =>
      obtain ⟨hc, hcs⟩ := List.forall_mem_cons.mp h
      have hdotted : c ≠ '\u0130' := by
        rintro rfl
        exact absurd hc (by decide)
      have hsigma : c ≠ '\u03a3' := by
        rintro rfl
        exact absurd hc (by decide)
      rw [lowercase.go, if_neg hdotted, if_neg hsigma, lowerChar, if_pos hc, ih hcs]
      rfl
  exact hgo []

namespace Name

/-! ### Words -/

/-- A non-empty run of lower-case ASCII letters and digits. -/
structure IsLowerWord (w : Text) : Prop where
  nonempty : w ≠ []
  chars : ∀ c ∈ w, (c.isLower || c.isDigit) = true

/-- Lower-case words, joined by single hyphens; there may be none. -/
def IsKebab (t : Text) : Prop := ∃ ws, (∀ w ∈ ws, IsLowerWord w) ∧ t = List.intercalate ['-'] ws

theorem isAlphanum_of_lower {c : Char} (h : (c.isLower || c.isDigit) = true) : c.isAlphanum = true := by
  have halnum : c.isAlphanum = (c.isUpper || c.isLower || c.isDigit) := rfl
  rw [halnum, Bool.or_assoc, h, Bool.or_true]

theorem ne_nil_of_mem_words {t w : Text} (h : w ∈ words t) : w ≠ [] := by
  simpa using (List.mem_filter.mp h).2

theorem isLowerWord_of_mem_words {t w : Text} (h : w ∈ words t) : IsLowerWord (Text.lowerAscii w) where
  nonempty := by
    rw [Text.lowerAscii, Ne, List.map_eq_nil_iff]
    exact ne_nil_of_mem_words h
  chars := by
    intro c hc
    obtain ⟨d, hd, rfl⟩ := List.mem_map.mp hc
    exact isLower_toLower (isAlphanum_of_mem_words h d hd)

theorem isKebab_kebab (t : Text) : IsKebab (kebab t) := by
  refine ⟨(words t).map Text.lowerAscii, fun w hw => ?_, rfl⟩
  obtain ⟨v, hv, rfl⟩ := List.mem_map.mp hw
  exact isLowerWord_of_mem_words hv

/-- What is written with hyphens holds nothing but lower-case letters, digits and hyphens. -/
theorem IsKebab.mem {t : Text} (h : IsKebab t) {c : Char} (hc : c ∈ t) :
    c = '-' ∨ (c.isLower || c.isDigit) = true := by
  obtain ⟨ws, hws, rfl⟩ := h
  exact (Text.mem_intercalate hc).imp_right fun ⟨w, hw, hcw⟩ => (hws w hw).chars c hcw

/-- What holds of hyphens and of letters and digits holds of all characters of what is written with hyphens. -/
theorem IsKebab.forall_mem {t : Text} (h : IsKebab t) {P : Char → Prop} (hyphen : P '-')
    (hascii : ∀ n < 128, (Char.ofNat n).isAlphanum = true → P (Char.ofNat n)) : ∀ c ∈ t, P c := by
  intro c hc
  rcases h.mem hc with rfl | hlower
  · exact hyphen
  · have halnum := isAlphanum_of_lower hlower
    exact forall_alphanum (P := fun c => c.isAlphanum = true → P c) hascii halnum halnum

/-! ### What is in the words -/

/-- Hyphens aside, nothing is lost, added or moved at the joints. -/
theorem filter_hyphenated (t : Text) : (hyphenated t).filter Char.isAlphanum = t.filter Char.isAlphanum := by
  fun_induction hyphenated t with
  | case1 a b cs hjoint ih => rw [List.filter_cons, List.filter_cons_of_neg (by decide), ih, ← List.filter_cons]
  | case2 a b cs hjoint ih => rw [List.filter_cons, ih, ← List.filter_cons]
  | case3 => rfl

/-- **The words of a text are its letters and digits.** -/
theorem flatten_words (t : Text) : (words t).flatten = t.filter Char.isAlphanum := by
  rw [words, List.flatten_filter_not_isEmpty, Text.flatten_splitOnP, ← filter_hyphenated t]
  simp

/-! ### The words of what is written with hyphens -/

theorem hyphenated_eq_self {t : Text} (h : ∀ c ∈ t, c.isUpper = false) : hyphenated t = t := by
  fun_induction hyphenated t with
  | case1 a b cs hjoint ih =>
    rw [isJoint, h b (by simp)] at hjoint
    cases hjoint
  | case2 a b cs hjoint ih => rw [ih fun c hc => h c (List.mem_cons_of_mem a hc)]
  | case3 => rfl

theorem not_isUpper_of_lower {c : Char} (h : (c.isLower || c.isDigit) = true) : c.isUpper = false :=
  forall_alphanum (P := fun c => (c.isLower || c.isDigit) = true → c.isUpper = false) (by decide +kernel)
    (isAlphanum_of_lower h) h

/-- Lower-case words joined by hyphens are the words of what they make up. -/
theorem words_intercalate {ws : List Text} (h : ∀ w ∈ ws, IsLowerWord w) :
    words (List.intercalate ['-'] ws) = ws := by
  have hlower : ∀ c ∈ List.intercalate ['-'] ws, c.isUpper = false := by
    intro c hc
    rcases Text.mem_intercalate hc with rfl | ⟨w, hw, hc⟩
    · decide
    · exact not_isUpper_of_lower ((h w hw).chars c hc)
  rw [words, hyphenated_eq_self hlower]
  rcases eq_or_ne ws [] with rfl | hne
  · rfl
  · rw [Text.splitOnP_intercalate (by decide) hne fun w hw c hc => by
        rw [isAlphanum_of_lower ((h w hw).chars c hc)]; rfl,
      List.filter_eq_self]
    intro w hw
    simpa using (h w hw).nonempty

theorem toLower_of_lower {c : Char} (h : (c.isLower || c.isDigit) = true) : c.toLower = c :=
  forall_alphanum (P := fun c => (c.isLower || c.isDigit) = true → c.toLower = c) (by decide +kernel)
    (isAlphanum_of_lower h) h

theorem IsLowerWord.lowerAscii_eq {w : Text} (h : IsLowerWord w) : Text.lowerAscii w = w :=
  (List.map_congr_left fun c hc => toLower_of_lower (h.chars c hc)).trans (List.map_id w)

/-- What is written with hyphens stays as it is when it is written so again. -/
theorem IsKebab.kebab_eq {t : Text} (h : IsKebab t) : kebab t = t := by
  obtain ⟨ws, hws, rfl⟩ := h
  have hsame : ws.map Text.lowerAscii = ws :=
    (List.map_congr_left fun w hw => (hws w hw).lowerAscii_eq).trans (List.map_id ws)
  rw [kebab, words_intercalate hws, hsame]

/-- **Written with hyphens, a name has the same words in lower case.** -/
theorem words_kebab (t : Text) : words (kebab t) = (words t).map Text.lowerAscii := by
  refine words_intercalate fun w hw => ?_
  obtain ⟨v, hv, rfl⟩ := List.mem_map.mp hw
  exact isLowerWord_of_mem_words hv

/-! ### The two ways to write a name -/

section
variable {w : Text} (h : ∀ c ∈ w, c.isAlphanum = true)
include h

theorem lowerAscii_lowerAscii : Text.lowerAscii (Text.lowerAscii w) = Text.lowerAscii w := by
  rw [Text.lowerAscii, Text.lowerAscii, List.map_map]
  exact List.map_congr_left fun c hc => toLower_toLower (h c hc)

theorem capitalised_lowerAscii : capitalised (Text.lowerAscii w) = capitalised w := by
  cases w with
  | nil => rfl
  | cons c cs =>
    obtain ⟨hc, hcs⟩ := List.forall_mem_cons.mp h
    show c.toLower.toUpper :: Text.lowerAscii (Text.lowerAscii cs) = c.toUpper :: Text.lowerAscii cs
    rw [toUpper_toLower hc, lowerAscii_lowerAscii hcs]

theorem lowerAscii_capitalised : Text.lowerAscii (capitalised w) = Text.lowerAscii w := by
  cases w with
  | nil => rfl
  | cons c cs =>
    obtain ⟨hc, hcs⟩ := List.forall_mem_cons.mp h
    show c.toUpper.toLower :: Text.lowerAscii (Text.lowerAscii cs) = c.toLower :: Text.lowerAscii cs
    rw [toLower_toUpper hc, lowerAscii_lowerAscii hcs]

end

theorem kebab_kebab (t : Text) : kebab (kebab t) = kebab t := (isKebab_kebab t).kebab_eq

theorem pascal_kebab (t : Text) : pascal (kebab t) = pascal t := by
  rw [pascal, pascal, words_kebab, List.flatMap_map]
  exact List.flatMap_congr fun w hw => capitalised_lowerAscii (isAlphanum_of_mem_words hw)

/-- Without its hyphens, a text of joined words is these words. -/
theorem filter_intercalate {ws : List Text} (h : ∀ w ∈ ws, '-' ∉ w) :
    (List.intercalate ['-'] ws).filter (· != '-') = ws.flatten := by
  have hkept {w : Text} (hw : '-' ∉ w) : w.filter (· != '-') = w := by
    refine List.filter_eq_self.mpr fun c hc => ?_
    rw [bne_iff_ne]
    rintro rfl
    exact hw hc
  induction ws with
  | nil => rfl
  | cons w ws ih =>
    obtain ⟨hw, hws⟩ := List.forall_mem_cons.mp h
    cases ws with
    | nil => rw [List.intercalate_singleton, hkept hw, List.flatten_singleton]
    | cons v vs =>
      rw [List.intercalate_cons_cons, List.filter_append, List.filter_append, hkept hw, ih hws]
      simp

/-- Without its hyphens, what is written with hyphens is the letters and digits in lower case. -/
theorem filter_kebab (t : Text) :
    (kebab t).filter (· != '-') = Text.lowerAscii (t.filter Char.isAlphanum) := by
  rw [kebab, filter_intercalate, ← flatten_words, Text.lowerAscii, List.map_flatten]
  · rfl
  · intro w hw hmem
    obtain ⟨v, hv, rfl⟩ := List.mem_map.mp hw
    exact absurd ((isLowerWord_of_mem_words hv).chars _ hmem) (by decide)

theorem lowerAscii_pascal (t : Text) :
    Text.lowerAscii (pascal t) = Text.lowerAscii (t.filter Char.isAlphanum) := by
  rw [pascal, ← flatten_words, Text.lowerAscii, Text.lowerAscii, List.map_flatMap, List.map_flatten,
    ← List.flatMap_def]
  exact List.flatMap_congr fun w hw => lowerAscii_capitalised (isAlphanum_of_mem_words hw)

/-- **What is written with hyphens is a normal form**: words joined by hyphens, the letters and digits of the
text in lower case; written so again it stays as it is, it is capitalised like the text, and the lower case of
that is again the same letters and digits. -/
theorem kebab_normal (t : Text) : IsKebab (kebab t) ∧
    (kebab t).filter (· != '-') = Text.lowercase (t.filter Char.isAlphanum) ∧
    kebab (kebab t) = kebab t ∧ pascal (kebab t) = pascal t ∧
    Text.lowercase (pascal t) = (kebab t).filter (· != '-') := by
  have hfiltered : ∀ c ∈ t.filter Char.isAlphanum, c.toNat < 128 := fun c hc =>
    toNat_lt_of_isAlphanum (List.mem_filter.mp hc).2
  have hpascal : ∀ c ∈ pascal t, c.toNat < 128 := fun c hc =>
    toNat_lt_of_isAlphanum (isAlphanum_of_mem_pascal c hc)
  refine ⟨isKebab_kebab t, ?_, kebab_kebab t, pascal_kebab t, ?_⟩
  · rw [filter_kebab, Text.lowercase_ascii hfiltered]
  · rw [filter_kebab, Text.lowercase_ascii hpascal, lowerAscii_pascal]

end Name
end Graft
