import Graft.Integration.Wire
import Graft.Proofs.Name.Words
import Graft.Proofs.Registration.Repetition
import Graft.Proofs.Script.Trailing

/-
The element that shows a component in a template.

* `IsTag t` — a text of identifier characters and hyphens, as every tag is;
* `displays_withElement` — a template that was given an element displays it;
* `exists_trailing` — read as a script, the element is tokens behind those of the template;
* `plan_withElement` — **a class that a script binds and lists is so with an element behind it**.

Design notes: a template is no script, but nothing keeps a project from naming one file as both.
-/
namespace Graft

open Script

/-! ### Tags -/

/-- A text of identifier characters and hyphens. -/
def IsTag (t : Text) : Prop := ∀ c ∈ t, isIdentChar c = true ∨ c = '-'

namespace Name

theorem isTag_kebab (t : Text) : IsTag (kebab t) := by
  intro c hc
  rcases (isKebab_kebab t).mem hc with rfl | hc
  · exact .inr rfl
  · exact .inl (isIdentChar_of_isAlphanum (isAlphanum_of_lower hc))

theorem isTag_tag (path lead : Text) : IsTag (tag path lead) := by
  rw [tag]
  split
  · exact isTag_kebab _
  · intro c hc
    rcases List.mem_append.mp hc with hc | hc
    · exact isTag_kebab lead c hc
    · rcases List.mem_cons.mp hc with rfl | hc
      · exact .inr rfl
      · exact isTag_kebab _ c hc

end Name

namespace Text

/-- A part is found where it occurs, when what follows is as it should be. -/
theorem occursBefore_append {part rest : Text} {p : Text → Bool} (h : p rest = true) (lead : Text) :
    occursBefore part p (lead ++ (part ++ rest)) = true := by
  have hhere : ((after? part (part ++ rest)).map p).getD false = true := by
    rw [after?_append]
    exact h
  induction lead with
  | nil =>
    rw [List.nil_append]
    cases hall : part ++ rest with
    | nil =>
      rw [hall] at hhere
      exact hhere
    | cons c cs =>
      rw [hall] at hhere
      rw [occursBefore, hhere, Bool.true_or]
  | cons c cs ih => rw [List.cons_append, occursBefore, ih, Bool.or_true]

end Text

namespace Integration

open Registration

variable {tag u : Text}

/-- What an element is put behind: a newline, unless the template is empty or ends with one. -/
def separator (template : Text) : Text :=
  if template.isEmpty || template.getLast? == some '\n' then [] else ['\n']

/-- The line of an element. -/
def elementLine (tag : Text) : Text := element tag ++ ['\n']

theorem withElement_eq (tag template : Text) :
    withElement tag template = template ++ (separator template ++ elementLine tag) := by
  simp only [withElement, separator, elementLine, List.append_assoc]

/-- A template that was given an element displays it. -/
theorem displays_withElement (tag template : Text) : displays tag (withElement tag template) = true := by
  have hshape : withElement tag template = (template ++ separator template) ++
      ('<' :: tag ++ (['>', '<', '/'] ++ tag ++ ['>'] ++ ['\n'])) := by
    simp [withElement_eq, elementLine, element]
  rw [hshape, displays]
  exact Text.occursBefore_append (by rfl) _

/-! ### An element behind a script -/

/-- The mark of a token is a character of the script. -/
theorem mem_of_isMark {source : Text} {t : Token} {c : Char} (ht : t ∈ tokens source)
    (h : t.isMark c = true) : c ∈ source := by
  obtain ⟨L, R, hts⟩ := List.append_of_mem ht
  obtain ⟨rest, hdrop⟩ := drop_start hts
  rw [(isMark_iff.mp h).2] at hdrop
  refine List.mem_of_mem_drop (i := t.start) ?_
  rw [hdrop]
  exact List.mem_cons_self

theorem isBracket_not_ident {c : Char} (h : isBracket c = true) : isIdentChar c = false := by
  simp only [isBracket, isCloser, Bool.or_eq_true, decide_eq_true_eq] at h
  rcases h with ((rfl | rfl) | rfl) | ((rfl | rfl) | rfl) <;> decide

/-- A script without brackets is nested. -/
theorem nested_of_not_bracket {source : Text} (h : ∀ c ∈ source, isBracket c = false) :
    Nested (bareTokens source) := by
  have hplain : ∀ t ∈ tokens source, Nested [t.bare] := by
    intro t ht
    refine nested_plain (plain_of_not_isMark fun c hc => ?_)
    rw [moves_bare.isMark]
    cases hmark : t.isMark c with
    | false => rfl
    | true =>
      rw [h c (mem_of_isMark ht hmark)] at hc
      cases hc
  rw [bareTokens]
  generalize tokens source = ts at hplain
  induction ts with
  | nil => exact nested_nil
  | cons t ts ih =>
    obtain ⟨ht, hts⟩ := List.forall_mem_cons.mp hplain
    exact ht.append (ih hts)

theorem nested_elementLine (htag : IsTag tag) : Nested (bareTokens (elementLine tag)) := by
  refine nested_of_not_bracket fun c hc => ?_
  simp only [elementLine, element, List.mem_append, List.mem_cons, List.not_mem_nil, or_false] at hc
  have hmark : c = '<' ∨ c = '>' ∨ c = '/' ∨ c = '\n' ∨ c ∈ tag := by tauto
  rcases hmark with rfl | rfl | rfl | rfl | hc
  · decide
  · decide
  · decide
  · decide
  · rcases htag c hc with hident | rfl
    · cases hbracket : isBracket c with
      | false => rfl
      | true =>
        rw [isBracket_not_ident hbracket] at hident
        cases hident
    · decide

theorem bareTokens_elementLine (tag : Text) :
    ∃ R, bareTokens (elementLine tag) = markToken '<' :: R := by
  have hpieces : pieces (elementLine tag) =
      .token .punct ['<'] :: pieces (tag ++ ['>', '<', '/'] ++ tag ++ ['>'] ++ ['\n']) :=
    pieces_mark rfl _
  exact ⟨_, by rw [bareTokens, tokens, hpieces]; rfl⟩

/-- A line comment holds no newline. -/
theorem newline_not_mem_comment {t x : Text} (h : .gap ('/' :: '/' :: x) ∈ pieces t) : '\n' ∉ x := by
  have hfirst : ∀ c cs, (firstPiece c cs).1 = .gap ('/' :: '/' :: x) → '\n' ∉ x := by
    intro c cs hpiece
    have hc : c = '/' := by
      have htext := firstPiece_append c cs
      rw [hpiece] at htext
      exact (List.cons.inj htext).1.symm
    subst hc
    rw [firstPiece_slash] at hpiece
    unfold passSlash at hpiece
    split at hpiece
    · obtain rfl : List.takeWhile (· != '\n') _ = x := by
        injection hpiece with htext
        exact (List.cons.inj (List.cons.inj htext).2).2
      intro hmem
      exact absurd (List.mem_takeWhile_imp hmem) (by decide)
    · injection hpiece with htext
      exact absurd (List.cons.inj (List.cons.inj htext).2).1 (by decide)
    · cases hpiece
  exact forall_pieces (P := fun p => p = .gap ('/' :: '/' :: x) → '\n' ∉ x) hfirst _ h rfl

/-- The line of an element stands behind a script, and does not join it. -/
theorem joins_elementLine (u tag : Text) : Joins u (separator u ++ elementLine tag) := by
  rw [separator]
  split
  next h =>
    rw [Bool.or_eq_true, List.isEmpty_iff, beq_iff_eq] at h
    rcases h with rfl | h
    · exact joins_nil _
    · -- The last piece holds the newline, so it is no comment on a line.
      intro p hp d hd
      obtain rfl : '<' = d := Option.some.inj hd
      obtain ⟨A, hA⟩ := List.getLast?_eq_some_iff.mp hp
      have htext := text_pieces u
      have hne : p.text ≠ [] := piece_text_ne_nil (t := u) (by rw [hA]; simp)
      rw [hA, List.flatMap_append, List.flatMap_singleton] at htext
      rw [← htext, List.getLast?_append_of_ne_nil _ hne] at h
      unfold Piece.reads
      split
      next x =>
        have hmem : '\n' ∈ '/' :: '/' :: x := List.mem_of_getLast? h
        have hnot := newline_not_mem_comment (t := u) (x := x) (by rw [hA]; simp)
        simp only [List.mem_cons, hnot, or_false] at hmem
        exact absurd hmem (by decide)
      · decide
      · decide
      · rfl
  · exact joins_newline _ _

/-- Read as a script, an element is tokens behind those of the template. -/
theorem exists_trailing (htag : IsTag tag) (hu : Closed u) :
    ∃ R, Trailing R ∧ bareTokens (withElement tag u) = bareTokens u ++ R := by
  have hbehind : bareTokens (separator u ++ elementLine tag) = bareTokens (elementLine tag) := by
    rw [separator]
    split
    · rfl
    · rw [List.singleton_append, bareTokens, tokens, pieces_space rfl]
      exact bare_tokensFrom 1 0 (pieces (elementLine tag))
  refine ⟨bareTokens (elementLine tag), ⟨nested_elementLine htag, ?_⟩, ?_⟩
  · obtain ⟨R, hR⟩ := bareTokens_elementLine tag
    rw [hR]
    intro x hx
    obtain rfl := Option.some.inj hx
    rfl
  · rw [withElement_eq, bareTokens_append (pieces_append hu (joins_elementLine u tag)), hbehind]

/-- **A class that a script binds and lists is so with an element behind it.** -/
theorem plan_withElement {q : Request} (htag : IsTag tag) (hu : Closed u)
    (hb : Binds (tokens u) q.symbol) (hl : Lists (tokens u) q.role.property q.symbol) :
    plan (withElement tag u) q = .ok [] := by
  obtain ⟨R, hR, htokens⟩ := exists_trailing htag hu
  have hbinds : Binds (bareTokens (withElement tag u)) q.symbol := by
    rw [htokens]
    exact binds_append hR (binds_bare.mpr hb)
  have hlists : Lists (bareTokens (withElement tag u)) q.role.property q.symbol := by
    rw [htokens]
    exact lists_append hR.nested (lists_bare.mpr hl)
  exact plan_eq_nil (binds_bare.mp hbinds) (lists_bare.mp hlists)

end Integration
end Graft
