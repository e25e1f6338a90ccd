import Graft.Proofs.Script.Rereading

/-
Template literals, nested to any depth.

* `StringBody q t` — what stands between two quotes `q`;
* `TemplateBody t`, `BracedBody t` — what stands between two backticks, and between two braces inside of
  them;
* `TemplateBody.passed`, `BracedBody.passed` — **what is open when such a text begins is what is open
  when it ends**;
* `tokens_templateLiteral` — **a template literal is one token**, whatever follows it.

Design notes: the grammar is given by two inductive predicates that call each other, and the induction is
on both at once.  It carries the frames that are open around a body, since a body may stand at any depth.
-/
namespace Graft.Script

/-! ### The grammar -/

/-- What stands between two quotes `q`.  A backslash takes the next character with it; the quote and a
newline stand in no other way. -/
inductive StringBody (q : Char) : Text → Prop
  | nil : StringBody q []
  | escape (c : Char) {t : Text} : StringBody q t → StringBody q ('\\' :: c :: t)
  | char {c : Char} {t : Text} (hescape : c ≠ '\\') (hquote : c ≠ q) (hline : c ≠ '\n') :
    StringBody q t → StringBody q (c :: t)

mutual

/-- What stands between two backticks: escaped characters, other characters, and substitutions. -/
inductive TemplateBody : Text → Prop
  | nil : TemplateBody []
  | escape (c : Char) {t : Text} : TemplateBody t → TemplateBody ('\\' :: c :: t)
  -- A dollar sign in front of a brace begins a substitution.
  | char {c : Char} {t : Text} (hescape : c ≠ '\\') (hbacktick : c ≠ backtick)
    (hpair : c = '$' → t.head? ≠ some '{') : TemplateBody t → TemplateBody (c :: t)
  | substitution {b t : Text} :
    BracedBody b → TemplateBody t → TemplateBody ('$' :: '{' :: (b ++ '}' :: t))

/-- What stands between two braces of a substitution: strings, template literals, braces in pairs, and
other characters. -/
inductive BracedBody : Text → Prop
  | nil : BracedBody []
  | char {c : Char} {t : Text} (hquote : isQuote c = false) (hbacktick : c ≠ backtick)
    (hopening : c ≠ '{') (hclosing : c ≠ '}') : BracedBody t → BracedBody (c :: t)
  | string {q : Char} {s t : Text} (hquote : isQuote q = true) :
    StringBody q s → BracedBody t → BracedBody (q :: (s ++ q :: t))
  | template {s t : Text} :
    TemplateBody s → BracedBody t → BracedBody (backtick :: (s ++ backtick :: t))
  | braces {s t : Text} : BracedBody s → BracedBody t → BracedBody ('{' :: (s ++ '}' :: t))

end

/-- A template literal: a body between backticks. -/
def TemplateLiteral (x : Text) : Prop := ∃ t, TemplateBody t ∧ x = backtick :: (t ++ [backtick])

/-! ### Passing a body -/

/-- Puts a text in front of what was passed. -/
def passed (x : Text) (r : Text × Text) : Text × Text := (x ++ r.1, r.2)

/-- What is passed in two parts, each with the mark that ends it. -/
theorem passed_body (s t : Text) (q e : Char) (r : Text × Text) :
    passed (s ++ [q]) (passed (t ++ [e]) r) = passed ((s ++ q :: t) ++ [e]) r := by
  simp only [passed, List.append_assoc, List.cons_append, List.nil_append]

/-- A string inside a substitution is passed with its quote. -/
theorem StringBody.passed {q : Char} {t : Text} (h : StringBody q t) (hq : isQuote q = true)
    (fs : List Frame) (rest : Text) : passFrames (.string q :: fs) (t ++ q :: rest) =
      passed (t ++ [q]) (passFrames fs rest) := by
  induction h with
  | nil =>
    have hescape : q ≠ '\\' := by
      rintro rfl
      cases hq
    rw [List.nil_append, passFrames_string hescape, if_pos (by simp)]
    rfl
  | escape c _ ih =>
    rw [List.cons_append, List.cons_append, passFrames, ih]
    rfl
  | char hescape hquote hline _ ih =>
    rw [List.cons_append, passFrames_string hescape, if_neg (by simp [hquote, hline]), ih]
    rfl

theorem passFrames_quote {q : Char} (hq : isQuote q = true) (fs : List Frame) (t : Text) :
    passFrames (.braces :: fs) (q :: t) = passing q (passFrames (.string q :: .braces :: fs) t) := by
  rw [passFrames, if_pos hq]

theorem passFrames_plain {c : Char} (hquote : isQuote c = false) (hbacktick : c ≠ backtick)
    (hopening : c ≠ '{') (hclosing : c ≠ '}') (fs : List Frame) (t : Text) :
    passFrames (.braces :: fs) (c :: t) = passing c (passFrames (.braces :: fs) t) := by
  rw [passFrames, if_neg (by simp [hquote]), if_neg hbacktick, if_neg hopening, if_neg hclosing]

theorem passFrames_backtick (fs : List Frame) (t : Text) : passFrames (.braces :: fs) (backtick :: t) =
    passing backtick (passFrames (.template :: .braces :: fs) t) := rfl

theorem passFrames_opening (fs : List Frame) (t : Text) : passFrames (.braces :: fs) ('{' :: t) =
    passing '{' (passFrames (.braces :: .braces :: fs) t) := rfl

mutual

/-- **The body of a template literal is passed with its backtick.** -/
theorem TemplateBody.passed {t : Text} (h : TemplateBody t) (fs : List Frame) (rest : Text) :
    passFrames (.template :: fs) (t ++ backtick :: rest) =
      passed (t ++ [backtick]) (passFrames fs rest) := by
  cases h with
  | nil =>
    rw [List.nil_append, passFrames_template (by decide) (fun _ hc => absurd hc (by decide)), if_pos rfl]
    rfl
  | escape c ht =>
    rw [List.cons_append, List.cons_append, passFrames, ht.passed fs rest]
    rfl
  | @char c t hescape hbacktick hpair ht =>
    -- What follows the character in the text is what follows it in the body, or the backtick.
    have hnext : ∀ ds, c = '$' → t ++ backtick :: rest = '{' :: ds → False := by
      intro ds hc hds
      cases t with
      | nil => exact absurd (List.cons.inj hds).1 (by decide)
      | cons d t => exact hpair hc (by rw [(List.cons.inj hds).1]; rfl)
    rw [List.cons_append, passFrames_template hescape hnext, if_neg hbacktick, ht.passed fs rest]
    rfl
  | substitution hb ht =>
    rw [List.cons_append, List.cons_append, List.append_assoc, List.cons_append, passFrames,
      hb.passed (.template :: fs), ht.passed fs rest, passed_body]
    rfl
termination_by t.length
decreasing_by all_goals simp only [List.length_cons, List.length_append]; omega

/-- **The body of braces is passed with the brace that closes them.** -/
theorem BracedBody.passed {t : Text} (h : BracedBody t) (fs : List Frame) (rest : Text) :
    passFrames (.braces :: fs) (t ++ '}' :: rest) = passed (t ++ ['}']) (passFrames fs rest) := by
  cases h with
  | nil => rfl
  | char hquote hbacktick hopening hclosing ht =>
    rw [List.cons_append, passFrames_plain hquote hbacktick hopening hclosing, ht.passed fs rest]
    rfl
  | string hq hs ht =>
    rw [List.cons_append, List.append_assoc, List.cons_append, passFrames_quote hq, hs.passed hq,
      ht.passed fs rest, passed_body]
    rfl
  | template hs ht =>
    rw [List.cons_append, List.append_assoc, List.cons_append, passFrames_backtick,
      hs.passed (.braces :: fs), ht.passed fs rest, passed_body]
    rfl
  | braces hs ht =>
    rw [List.cons_append, List.append_assoc, List.cons_append, passFrames_opening,
      hs.passed (.braces :: fs), ht.passed fs rest, passed_body]
    rfl
termination_by t.length
decreasing_by all_goals simp only [List.length_cons, List.length_append]; omega

end

/-! ### Template literals -/

/-- **A template literal is one token, whatever follows it**, and what follows is read on its own. -/
theorem tokens_templateLiteral {x : Text} (h : TemplateLiteral x) (rest : Text) :
    tokens (x ++ rest) = ⟨.template, 0, x⟩ :: tokensFrom x.length (pieces rest) := by
  obtain ⟨t, ht, rfl⟩ := h
  have htext : backtick :: (t ++ [backtick]) ++ rest = backtick :: (t ++ backtick :: rest) := by
    simp only [List.cons_append, List.append_assoc, List.nil_append]
  have hfirst : firstPiece backtick (t ++ backtick :: rest) =
      (.token .template (backtick :: (t ++ [backtick])), rest) := by
    show Piece.ofToken .template backtick (passFrames [.template] (t ++ backtick :: rest)) = _
    rw [ht.passed [] rest, passFrames, passed, List.append_nil]
    rfl
  rw [htext, tokens, pieces_cons, hfirst, tokensFrom, Nat.zero_add]

/-- A literal with a dollar sign before a substitution, which holds a string with an escaped quote and a
brace, and a literal in braces; an escaped dollar sign before a brace follows. -/
def tangledLiteral : Text :=
  "\x60$$\x7b'\\'\x7d' + \x7b\x60\\\x60$\x7b\x7d\x60\x7d\x7d\\$\x7b\x60".toList

theorem templateLiteral_tangled : TemplateLiteral tangledLiteral := by
  have hstring : StringBody '\'' "\\'\x7d".toList :=
    .escape _ (.char (by decide) (by decide) (by decide) .nil)
  have hinner : TemplateBody "\\\x60$\x7b\x7d".toList := .escape _ (.substitution .nil .nil)
  have hplain {t : Text} (h : BracedBody t) : BracedBody (" + ".toList ++ t) :=
    .char rfl (by decide) (by decide) (by decide) (.char rfl (by decide) (by decide) (by decide)
      (.char rfl (by decide) (by decide) (by decide) h))
  have hbraced : BracedBody "'\\'\x7d' + \x7b\x60\\\x60$\x7b\x7d\x60\x7d".toList :=
    .string rfl hstring (hplain (.braces (.template hinner .nil) .nil))
  have hafter : TemplateBody "\\$\x7b".toList := .escape _ (.char (by decide) (by decide) (by decide) .nil)
  exact ⟨_, .char (by decide) (by decide) (by decide) (.substitution hbraced hafter), rfl⟩

theorem tokens_templateLiteral_tangled : TemplateLiteral tangledLiteral ∧
    tokens (tangledLiteral ++ "\x60".toList) =
      [⟨.template, 0, tangledLiteral⟩, ⟨.template, 26, "\x60".toList⟩] :=
  ⟨templateLiteral_tangled, (tokens_templateLiteral templateLiteral_tangled _).trans (by decide +kernel)⟩

end Graft.Script
