import Graft.Proofs.Name.Exported
import Graft.Proofs.Name.Words
import Graft.Response.Artifacts

/-
Names of artifacts that can be used.

* `Artifact.className a` — the class of an artifact: the one that its script exports, or the expected one;
* `IsClassName s` — an identifier that does not start with a digit;
* `Artifact.Usable a` — the class has such a name, and every tag consists of words joined by hyphens;
* `isClassName_symbol_iff`, `isKebab_tag_iff` — the two conditions on the base name of a path;
* `usable_iff` — **an artifact is usable exactly when its base name has a letter or digit, and the first of
  these is no digit unless the script exports a class**.

Design notes: what a name begins with is the first letter or digit of the base name, in upper case, so nothing
has to be known of where its words end.
-/
namespace Graft

/-- An identifier that does not start with a digit. -/
structure IsClassName (s : Text) : Prop where
  identifier : IsIdentifier s
  -- It starts with an ASCII character, so that digits of other scripts are left out of account.
  start : ∀ c ∈ s.head?, c.toNat < 128 ∧ c.isDigit = false

namespace Name

/-! ### Classes -/

theorem isClassStart_ascii {c : Char} (h : isClassStart c = true) : c.toNat < 128 ∧ c.isDigit = false := by
  rw [isClassStart, Bool.or_eq_true, Bool.or_eq_true, beq_iff_eq, beq_iff_eq] at h
  rcases h with (h | rfl) | rfl
  · have halnum : c.isAlphanum = true := by rw [Char.isAlphanum, h, Bool.true_or]
    exact ⟨toNat_lt_of_isAlphanum halnum,
      forall_alphanum (P := fun c => c.isAlpha = true → c.isDigit = false) (by decide +kernel) halnum h⟩
  · decide
  · decide

theorem isClassName_of_exported? {script s : Text} (h : exported? script = some s) : IsClassName s := by
  refine ⟨isIdentifier_of_exported? h, fun d hd => ?_⟩
  obtain ⟨n, hfound⟩ := exists_foundAt h
  obtain ⟨rest, c, cs, -, -, hstart, rfl⟩ := exportedHere?_eq_some hfound.here
  obtain rfl := Option.some.inj hd
  exact isClassStart_ascii hstart

/-- A name begins with the first letter or digit of the text, in upper case. -/
theorem head?_pascal (t : Text) : (pascal t).head? = (t.find? Char.isAlphanum).map Char.toUpper := by
  have hfirst : (t.find? Char.isAlphanum) = (words t).flatten.head? := by
    rw [flatten_words, List.head?_filter]
  rw [hfirst, pascal]
  cases hwords : words t with
  | nil => rfl
  | cons w ws =>
    have hw : w ≠ [] := ne_nil_of_mem_words (t := t) (by rw [hwords]; exact List.mem_cons_self)
    obtain ⟨c, cs, rfl⟩ := List.exists_cons_of_ne_nil hw
    rfl

theorem isClassName_symbol_iff (path : Text) : IsClassName (symbol path componentSuffix) ↔
    ∀ c ∈ (base path).find? Char.isAlphanum, c.isDigit = false := by
  have hhead : (symbol path componentSuffix).head? =
      (((base path).find? Char.isAlphanum).map Char.toUpper).or (some 'C') := by
    rw [symbol, List.head?_append, head?_pascal]
    rfl
  have hupper {c : Char} (hc : (base path).find? Char.isAlphanum = some c) :
      c.toUpper.toNat < 128 ∧ c.toUpper.isDigit = c.isDigit :=
    forall_alphanum (P := fun c => c.toUpper.toNat < 128 ∧ c.toUpper.isDigit = c.isDigit) (by decide +kernel)
      (List.find?_some hc)
  constructor
  · intro h c hc
    rw [← (hupper hc).2]
    exact (h.start _ (by rw [hhead, Option.mem_def.mp hc]; rfl)).2
  · refine fun h => ⟨isIdentifier_symbol path, fun d hd => ?_⟩
    rw [hhead] at hd
    cases hfirst : (base path).find? Char.isAlphanum with
    | none =>
      rw [hfirst] at hd
      obtain rfl := Option.some.inj hd
      decide
    | some c =>
      rw [hfirst] at hd
      obtain rfl := Option.some.inj hd
      exact ⟨(hupper hfirst).1, (hupper hfirst).2.trans (h c hfirst)⟩

/-! ### Tags -/

theorem kebab_eq_nil_iff {t : Text} : kebab t = [] ↔ ∀ c ∈ t, c.isAlphanum = false := by
  have hfilter : t.filter Char.isAlphanum = [] ↔ ∀ c ∈ t, c.isAlphanum = false := by
    rw [List.filter_eq_nil_iff]
    exact forall₂_congr fun c _ => by rw [Bool.not_eq_true]
  rw [← hfilter, ← flatten_words]
  constructor
  · intro h
    have hwords := words_kebab t
    rw [h] at hwords
    rw [List.map_eq_nil_iff.mp hwords.symm, List.flatten_nil]
  · intro h
    have hnone : words t = [] := List.eq_nil_iff_forall_not_mem.mpr fun w hw =>
      ne_nil_of_mem_words hw (List.flatten_eq_nil_iff.mp h w hw)
    rw [kebab, hnone]
    rfl

theorem IsKebab.append {a b : Text} (ha : IsKebab a) (hb : IsKebab b) (hane : a ≠ []) (hbne : b ≠ []) :
    IsKebab (a ++ '-' :: b) := by
  obtain ⟨ws, hws, rfl⟩ := ha
  obtain ⟨vs, hvs, rfl⟩ := hb
  refine ⟨ws ++ vs, List.forall_mem_append.mpr ⟨hws, hvs⟩, ?_⟩
  have hwne : ws ≠ [] := by
    rintro rfl
    exact hane rfl
  have hvne : vs ≠ [] := by
    rintro rfl
    exact hbne rfl
  exact (Text.intercalate_append hwne hvne).symm

/-- **All tags of an artifact consist of words exactly when its base name has a letter or digit.** -/
theorem isKebab_tag_iff (path : Text) : (∀ lead, IsKebab (tag path lead) ∧ tag path lead ≠ []) ↔
    ∃ c ∈ base path, c.isAlphanum = true := by
  have hsome : (∃ c ∈ base path, c.isAlphanum = true) ↔ id path ≠ [] := by
    rw [id, Ne, kebab_eq_nil_iff]
    simp
  rw [hsome]
  constructor
  · intro h
    exact (h []).2
  · intro hid lead
    rw [tag]
    split
    · exact ⟨isKebab_kebab _, hid⟩
    next p hp =>
      exact ⟨(isKebab_kebab lead).append (isKebab_kebab _) hp hid,
        List.append_ne_nil_of_right_ne_nil _ (List.cons_ne_nil _ _)⟩

end Name

/-! ### Artifacts -/

namespace Artifact

open Name

/-- The class of an artifact: the one that its script exports, or the one it is expected to export. -/
def className (a : Artifact) : Text :=
  (a.contents.script.bind exported?).getD (symbol a.path componentSuffix)

/-- The names of an artifact can be used in a script and in a template. -/
structure Usable (a : Artifact) : Prop where
  className : IsClassName a.className
  -- Every tag consists of one or more words joined by hyphens, whatever its prefix.
  tag : ∀ lead, IsKebab (tag a.path lead) ∧ tag a.path lead ≠ []

/-- **An artifact is usable exactly when its base name has a letter or digit**, the first of which is no
digit unless its script exports a class. -/
theorem usable_iff (a : Artifact) : a.Usable ↔ (∃ c ∈ base a.path, c.isAlphanum = true) ∧
    ((a.contents.script.bind exported?).isSome = true ∨
      ∀ c ∈ (base a.path).find? Char.isAlphanum, c.isDigit = false) := by
  have hclass : IsClassName a.className ↔ (a.contents.script.bind exported?).isSome = true ∨
      ∀ c ∈ (base a.path).find? Char.isAlphanum, c.isDigit = false := by
    rw [Artifact.className]
    cases hexported : a.contents.script.bind exported? with
    | none =>
      rw [Option.getD_none, isClassName_symbol_iff]
      simp
    | some s =>
      obtain ⟨script, -, hs⟩ := Option.bind_eq_some_iff.mp hexported
      exact iff_of_true (isClassName_of_exported? hs) (.inl rfl)
  rw [← hclass, ← isKebab_tag_iff]
  exact ⟨fun h => ⟨h.tag, h.className⟩, fun h => ⟨h.2, h.1⟩⟩

/-- A response with an artifact whose name begins with a dot, and one whose name begins with a digit. -/
def oddResponse : Text :=
  ("### filename: .w.ts ###\n\x60\x60\x60ts\nexport class W \x7b\x7d\n\x60\x60\x60\n" ++
    "### filename: 1.ts ###\n\x60\x60\x60ts\nx\n\x60\x60\x60").toList

/-- The first of them has no tag, the second no class. -/
theorem oddResponse_not_usable : ∃ a b, Response.artifacts oddResponse = [a, b] ∧
    (tag a.path defaultPrefix = "app-".toList ∧ ¬ a.Usable) ∧
    (b.className = "1Component".toList ∧ ¬ b.Usable) := by
  refine ⟨⟨".w.ts".toList, { script := some "export class W \x7b\x7d".toList }⟩,
    ⟨"1.ts".toList, { script := some ['x'] }⟩, by decide +kernel, ⟨by decide +kernel, fun h => ?_⟩,
    ⟨by decide +kernel, fun h => ?_⟩⟩
  · obtain ⟨c, hc, -⟩ := (isKebab_tag_iff ".w.ts".toList).mp h.tag
    have hbase : base ".w.ts".toList = [] := by decide +kernel
    rw [hbase] at hc
    cases hc
  · have hname : IsClassName "1Component".toList := h.className
    exact absurd (hname.start '1' rfl).2 (by decide)

end Artifact
end Graft
