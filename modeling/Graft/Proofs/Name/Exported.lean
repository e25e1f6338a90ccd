import Graft.Proofs.Script.ImportDocument
import Mathlib.Data.List.Infix

/-
The class that a script exports, in its text and among its tokens.

* `Exports ts name` — tokens one after another that export a class; `ExportsAt ts n name` — from an offset on;
* `FoundAt script n name` — what the search in the text finds, and where;
* `HeadAt script n name` — a place where the words of an exported class are written;
* `Calm t`, `suffix_of_calm` — a text in which no exported class begins, and what may follow it;
* `Exposed script n` — a place that no token and no comment goes on over;
* `exportsAt_iff` — **tokens export a class from an offset on exactly when the place is exposed and the words are
  written there**;
* `exports_iff` — so tokens export the class that is found, unless it is found in a comment, in a string, in a
  template literal or behind a dollar sign, and is written at no exposed place.

Design notes: the search looks for words with white space between them, and tokens may have comments between
them as well.  So the words that are found are tokens, in the form of a script that is written one token after
another, as soon as the first of them is.
-/
namespace Graft.Name

open Script Registration

/-! ### Exported classes -/

/-- The tokens with which an exported class begins, without their offsets. -/
def classHead (isDefault isAbstract : Bool) (name : Text) : List Token :=
  wordToken "export".toList :: ((if isDefault then [wordToken "default".toList] else []) ++
    ((if isAbstract then [wordToken "abstract".toList] else []) ++
      [wordToken "class".toList, wordToken name]))

/-- Tokens among which, one after another, some export a class. -/
def Exports (ts : List Token) (name : Text) : Prop :=
  ∃ isDefault isAbstract, classHead isDefault isAbstract name <:+: ts.map Token.bare

instance (ts : List Token) (name : Text) : Decidable (Exports ts name) :=
  inferInstanceAs (Decidable (∃ _ _, _))

/-- Tokens among which, one after another, some export a class, the first of them at an offset. -/
def ExportsAt (ts : List Token) (n : Nat) (name : Text) : Prop :=
  ∃ L M R isDefault isAbstract, ts = L ++ (M ++ R) ∧
    M.map Token.bare = classHead isDefault isAbstract name ∧ M.head?.map Token.start = some n

theorem exports_iff_exists {ts : List Token} {name : Text} :
    Exports ts name ↔ ∃ n, ExportsAt ts n name := by
  constructor
  · rintro ⟨d, a, A, B, hts⟩
    obtain ⟨LM, R, rfl, hLM, -⟩ := List.map_eq_append_iff.mp hts.symm
    obtain ⟨L, M, rfl, -, hM⟩ := List.map_eq_append_iff.mp hLM
    cases M with
    | nil => cases hM
    | cons k M => exact ⟨k.start, L, k :: M, R, d, a, List.append_assoc .., hM, rfl⟩
  · rintro ⟨n, L, M, R, d, a, rfl, hM, -⟩
    refine ⟨d, a, L.map Token.bare, R.map Token.bare, ?_⟩
    rw [List.map_append, List.map_append, hM, List.append_assoc]

/-! ### The search -/

/-- A place that no word character stands in front of. -/
def AtEdge (script : Text) (n : Nat) : Prop := ∀ c ∈ (script.take n).getLast?, isWordChar c = false

/-- Where the search for an exported class ends, and what it finds there. -/
structure FoundAt (script : Text) (n : Nat) (name : Text) : Prop where
  here : exportedHere? (script.drop n) = some name
  edge : AtEdge script n
  -- Nothing is found before.
  first : ∀ m < n, AtEdge script m → exportedHere? (script.drop m) = none

/-- The search in a text, with a character in front of it or with none, finds the first place that it can. -/
theorem exists_first_of_exportedFrom? {t name : Text} {before : Option Char}
    (h : exportedFrom? (before.any isWordChar) t = some name) :
    ∃ n, exportedHere? (t.drop n) = some name ∧
      ((t.take n).getLast?.or before).any isWordChar = false ∧
      ∀ m < n, ((t.take m).getLast?.or before).any isWordChar = false → exportedHere? (t.drop m) = none := by
  induction t generalizing before with
  | nil => cases h
  | cons c cs ih =>
    rw [exportedFrom?] at h
    cases hhere : (if before.any isWordChar then none else exportedHere? (c :: cs)) with
    | some s =>
      rw [hhere] at h
      obtain ⟨hbefore, hhere⟩ := Option.ite_none_left_eq_some.mp hhere
      exact ⟨0, hhere.trans h, by simpa using hbefore, fun m hm => absurd hm (Nat.not_lt_zero m)⟩
    | none =>
      rw [hhere] at h
      have hnext : exportedFrom? ((some c).any isWordChar) cs = some name := h
      obtain ⟨n, hname, hedge, hfirst⟩ := ih hnext
      have hlast (k : Nat) : ((c :: cs).take (k + 1)).getLast?.or before =
          (cs.take k).getLast?.or (some c) := by
        rw [List.take_succ_cons, List.getLast?_cons]
        cases (cs.take k).getLast? <;> rfl
      refine ⟨n + 1, hname, by rwa [hlast], fun m hm hm' => ?_⟩
      cases m with
      | zero =>
        have hfree : before.any isWordChar = false := hm'
        rwa [hfree] at hhere
      | succ m =>
        rw [hlast] at hm'
        exact hfirst m (Nat.lt_of_succ_lt_succ hm) hm'

/-- What is found is found at the first place where it can be. -/
theorem exists_foundAt {script name : Text} (h : exported? script = some name) :
    ∃ n, FoundAt script n name := by
  have hsearch : exportedFrom? ((none : Option Char).any isWordChar) script = some name := h
  obtain ⟨n, hhere, hedge, hfirst⟩ := exists_first_of_exportedFrom? hsearch
  have hedge_iff (m : Nat) : ((script.take m).getLast?.or none).any isWordChar = false ↔ AtEdge script m := by
    rw [Option.or_none, AtEdge]
    cases (script.take m).getLast? <;> simp
  exact ⟨n, hhere, (hedge_iff n).mp hedge, fun m hm hm' => hfirst m hm ((hedge_iff m).mpr hm')⟩

/-- What is found is found at a place of the text. -/
theorem exists_suffix_of_exported? {script name : Text} (h : exported? script = some name) :
    ∃ v, v <:+ script ∧ exportedHere? v = some name := by
  obtain ⟨n, hfound⟩ := exists_foundAt h
  exact ⟨script.drop n, List.drop_suffix n script, hfound.here⟩

/-! ### What is found, as tokens -/

theorem gap_dropWhile (t : Text) : Gap t (t.dropWhile isSpace) := by
  induction t with
  | nil => exact .nil
  | cons c cs ih =>
    cases hc : isSpace c with
    | true =>
      rw [List.dropWhile_cons_of_pos hc]
      exact .space hc ih
    | false =>
      rw [List.dropWhile_cons_of_neg (by simp [hc])]
      exact .nil

theorem afterWord?_eq_some {w t rest : Text} (h : afterWord? w t = some rest) :
    ∃ c cs, t = w ++ c :: cs ∧ isSpace c = true ∧ rest = cs.dropWhile isSpace := by
  obtain ⟨s, hs, hspace⟩ := Option.bind_eq_some_iff.mp h
  rw [Text.after?_eq_some_iff] at hs
  cases s with
  | nil => cases hspace
  | cons c cs =>
    obtain ⟨hc, hspace⟩ := Option.ite_none_right_eq_some.mp hspace
    exact ⟨c, cs, hs, hc, (Option.some.inj hspace).symm⟩

/-- A word that white space follows is written as a token with a gap behind it. -/
theorem written_of_afterWord? {w t rest u : Text} {ts : List Token} (h : afterWord? w t = some rest)
    (hrest : Written ts rest u) : Written (wordToken w :: ts) t u := by
  obtain ⟨c, cs, rfl, hc, rfl⟩ := afterWord?_eq_some h
  exact .cons (fun _ => head_not_ident (isIdentChar_of_isSpace hc) cs) (.space hc (gap_dropWhile cs)) hrest

/-- A word that may be missing is written as a token, or is not there. -/
theorem exists_written_of_skipWord (w t : Text) : ∃ isThere : Bool, ∀ {ts : List Token} {u : Text},
    Written ts (skipWord w t) u → Written ((if isThere then [wordToken w] else []) ++ ts) t u := by
  cases h : afterWord? w t with
  | none =>
    refine ⟨false, fun hts => ?_⟩
    rwa [skipWord, h] at hts
  | some rest =>
    refine ⟨true, fun hts => ?_⟩
    rw [skipWord, h] at hts
    exact written_of_afterWord? h hts

/-- At an offset of a script the words of an exported class are written, with white space and comments
between them. -/
def HeadAt (script : Text) (n : Nat) (name : Text) : Prop :=
  ∃ isDefault isAbstract u, Written (classHead isDefault isAbstract name) (script.drop n) u

/-- What the search finds are the words of an exported class. -/
theorem headAt_of_exportedHere? {script name : Text} {n : Nat}
    (h : exportedHere? (script.drop n) = some name) : HeadAt script n name := by
  obtain ⟨rest, c, cs, hexport, hclass, -, rfl⟩ := exportedHere?_eq_some h
  obtain ⟨isDefault, hdefault⟩ := exists_written_of_skipWord "default".toList rest
  obtain ⟨isAbstract, habstract⟩ :=
    exists_written_of_skipWord "abstract".toList (skipWord "default".toList rest)
  have hname : Written [wordToken (c :: cs.takeWhile isClassPart)] (c :: cs) (cs.dropWhile isClassPart) := by
    have htext : c :: cs = (c :: cs.takeWhile isClassPart) ++ cs.dropWhile isClassPart := by
      rw [List.cons_append, List.takeWhile_append_dropWhile]
    conv => arg 2; rw [htext]
    exact .cons (fun _ => takeWhile_stops isClassPart cs) .nil .nil
  exact ⟨isDefault, isAbstract, _,
    written_of_afterWord? hexport (hdefault (habstract (written_of_afterWord? hclass hname)))⟩

theorem lexeme_classHead {name : Text} (h : IsIdentifier name) (isDefault isAbstract : Bool) :
    ∀ k ∈ classHead isDefault isAbstract name, Lexeme k := by
  have hwords : ∀ w ∈ ["export".toList, "default".toList, "abstract".toList, "class".toList],
      w ≠ [] ∧ w.all isIdentChar = true := by decide
  have hword {w : Text} (hw : w ∈ ["export".toList, "default".toList, "abstract".toList, "class".toList]) :
      Lexeme (wordToken w) := lexeme_word ⟨(hwords w hw).1, List.all_eq_true.mp (hwords w hw).2⟩
  have hoptional {w : Text} (b : Bool) (hw : Lexeme (wordToken w)) :
      ∀ k ∈ if b then [wordToken w] else [], Lexeme k := by
    cases b with
    | false => exact List.forall_mem_nil _
    | true => exact List.forall_mem_singleton.mpr hw
  refine List.forall_mem_cons.mpr ⟨hword (by decide), List.forall_mem_append.mpr
    ⟨hoptional isDefault (hword (by decide)), List.forall_mem_append.mpr
      ⟨hoptional isAbstract (hword (by decide)), ?_⟩⟩⟩
  exact List.forall_mem_cons.mpr ⟨hword (by decide), List.forall_mem_singleton.mpr (lexeme_word h)⟩

/-! ### Texts in which nothing is found -/

/-- A text without the word that exports, with white space behind it. -/
def Calm (t : Text) : Prop := ∀ v ∈ t.tails, afterWord? "export".toList v = none

instance (t : Text) : Decidable (Calm t) := List.decidableBAll _ _

theorem calm_of_not_space {t : Text} (h : ∀ c ∈ t, isSpace c = false) : Calm t := by
  intro v hv
  by_contra hne
  obtain ⟨rest, hrest⟩ := Option.ne_none_iff_exists'.mp hne
  obtain ⟨c, cs, rfl, hc, -⟩ := afterWord?_eq_some hrest
  have hmem : c ∈ t := ((List.mem_tails _ _).mp hv).subset (by simp)
  rw [h c hmem] at hc
  cases hc

/-- Behind a calm text and a character that ends no such word, the word stands in what follows. -/
theorem suffix_of_calm {a b v : Text} {q : Char} (ha : Calm a) (hq : q ∉ "export".toList)
    (hspace : isSpace q = true → ¬ "export".toList <:+ a) (h : v <:+ a ++ q :: b)
    (hv : (afterWord? "export".toList v).isSome) : v <:+ b := by
  obtain ⟨rest, hrest⟩ := Option.isSome_iff_exists.mp hv
  obtain ⟨c, cs, rfl, hc, -⟩ := afterWord?_eq_some hrest
  rcases List.suffix_or_suffix_of_suffix h (List.suffix_append a (q :: b)) with hle | ⟨u, hu⟩
  · rcases List.suffix_cons_iff.mp hle with heq | hle
    · obtain rfl : 'e' = q := (List.cons.inj heq).1
      exact absurd (by decide) hq
    · exact hle
  -- Else the word begins in the calm text, and the character stands in it, behind it or farther on.
  rw [← hu, List.suffix_append_self_iff] at h
  rcases List.append_eq_append_iff.mp hu with ⟨_ | ⟨d, w⟩, hw, hcs⟩ | ⟨_ | ⟨d, w⟩, rfl, hcs⟩
  · obtain rfl : q = c := (List.cons.inj hcs).1
    rw [List.append_nil] at hw
    exact absurd (hw ▸ h) (hspace hc)
  · obtain rfl : q = d := (List.cons.inj hcs).1
    exact absurd (hw ▸ List.mem_append_right u List.mem_cons_self) hq
  · obtain rfl : c = q := (List.cons.inj hcs).1
    rw [List.append_nil] at h
    exact absurd h (hspace hc)
  · obtain rfl : c = d := (List.cons.inj hcs).1
    have hnone := ha _ ((List.mem_tails _ _).mpr h)
    rw [afterWord?, Text.after?_append, Option.bind_some, afterSpace?, if_pos hc] at hnone
    cases hnone

/-! ### Places that nothing goes on over -/

/-- A place that no token and no comment goes on over. -/
def Exposed (script : Text) (n : Nat) : Prop :=
  (∀ k ∈ tokens script, ¬ (k.start < n ∧ n < k.stop)) ∧
    ∀ c ∈ comments script, ¬ (c.1 < n ∧ n < c.2)

/-- An exposed place stands between pieces. -/
theorem Exposed.exists_pieces {script : Text} {n : Nat} (h : Exposed script n) (hn : n < script.length) :
    ∃ A B, pieces script = A ++ B ∧ width A = n := by
  have hwithin : n < 0 + width (pieces script) := by rwa [width_pieces, Nat.zero_add]
  obtain ⟨a, p, hp, hle, hlt⟩ := exists_placed (Nat.zero_le n) hwithin
  obtain ⟨before, rest, -, -, hfits⟩ := exists_text_of_placed hp
  -- A piece that begins before the place would go on over it.
  have hstart : a = n := by
    by_contra hne
    have ha : a < n := Nat.lt_of_le_of_ne hle hne
    cases p with
    | token kind x => exact h.1 ⟨kind, a, x⟩ (mem_tokensFrom_iff.mpr hp) ⟨ha, hlt⟩
    | gap x =>
      rcases hfits.gap x rfl with ⟨c, rfl, -⟩ | hcomment
      · exact absurd (Nat.le_of_lt_succ hlt) (Nat.not_le.mpr ha)
      · exact h.2 _ (mem_comments_iff.mpr ⟨_, hp, hcomment.isComment, rfl⟩) ⟨ha, hlt⟩
  obtain ⟨A, B, hpieces, hwidth⟩ := exists_pieces_of_placed hp
  exact ⟨A, p :: B, hpieces, by rw [← hstart, ← hwidth, Nat.zero_add]⟩

/-- Where a token starts nothing goes on over the place. -/
theorem exposed_start {script : Text} {k : Token} (hk : k ∈ tokens script) : Exposed script k.start := by
  have hplaced := mem_tokensFrom_iff.mp hk
  have hnone {a : Nat} {p : Piece} (hp : (a, p) ∈ placed 0 (pieces script)) :
      ¬ (a < k.start ∧ k.start < a + p.text.length) := by
    rintro ⟨hlt, hgt⟩
    have hne : (a, p) ≠ (k.start, Piece.token k.kind k.text) := fun heq =>
      absurd (Prod.mk.inj heq).1 (Nat.ne_of_lt hlt)
    rcases apart_of_mem_placed hp hplaced hne with hle | hle
    · exact absurd hle (Nat.not_le.mpr hgt)
    · exact absurd hle (Nat.not_le.mpr (Nat.lt_add_right _ hlt))
  refine ⟨fun l hl => hnone (mem_tokensFrom_iff.mp hl), ?_⟩
  rintro ⟨a, b⟩ hc
  obtain ⟨p, hp, -, rfl⟩ := mem_comments_iff.mp hc
  exact hnone hp

theorem exists_append_of_written {k : Token} {ts : List Token} {t u : Text} (h : Written (k :: ts) t u) :
    ∃ rest, t = k.text ++ rest := by
  cases h with
  | cons hword hgap h => exact ⟨_, rfl⟩

/-- The first token of what is written. -/
theorem head_of_written {k : Token} {ts : List Token} {t u : Text} (h : Written (k :: ts) t u)
    (hk : Lexeme k) (n : Nat) : ∃ rest, tokensFrom n (pieces t) = ⟨k.kind, n, k.text⟩ :: rest := by
  cases h with
  | cons hword hgap h =>
    rw [hk.reads _ hword]
    exact ⟨_, rfl⟩

/-- A token of a script is written in front of what follows it. -/
theorem written_cons {script v u : Text} {A B : List Piece} {kind : TokenKind} {x : Text} {ts : List Token}
    (h : pieces script = A ++ .token kind x :: B) (hgap : Gap (B.flatMap Piece.text) v)
    (hts : Written ts v u) : Written (⟨kind, 0, x⟩ :: ts) (x ++ B.flatMap Piece.text) u := by
  refine .cons (fun hkind => ?_) hgap hts
  -- A word is as long as it can be.
  obtain rfl : kind = .ident := hkind
  have hfits := fits_of_pieces h
  have hx : x ≠ [] := piece_text_ne_nil (p := .token .ident x) (by rw [h]; simp)
  exact hfits.seam _ (List.getLast?_eq_getLast_of_ne_nil hx) (hfits.ident x rfl _ (List.getLast_mem hx))

/-- Tokens that follow one another are written with gaps between them. -/
theorem exists_written {script : Text} {A B : List Piece} (h : pieces script = A ++ B) {n : Nat}
    {M R : List Token} (hM : tokensFrom n B = M ++ R) :
    ∃ v u, Gap (B.flatMap Piece.text) v ∧ Written (M.map Token.bare) v u := by
  induction B generalizing A n M with
  | nil =>
    obtain ⟨rfl, -⟩ := List.append_eq_nil_iff.mp hM.symm
    exact ⟨[], [], .nil, .nil⟩
  | cons p B ih =>
    have hnext : pieces script = (A ++ [p]) ++ B := by rw [h, List.append_assoc, List.singleton_append]
    rw [List.flatMap_cons]
    cases p with
    | gap x =>
      obtain ⟨v, u, hgap, hwritten⟩ := ih hnext hM
      refine ⟨v, u, ?_, hwritten⟩
      rcases (fits_of_pieces h).gap x rfl with ⟨c, rfl, hc⟩ | hcomment
      · exact .space hc hgap
      · exact .comment hcomment hgap
    | token kind x =>
      cases M with
      | nil => exact ⟨_, _, .nil, .nil⟩
      | cons k M =>
        obtain ⟨rfl, hrest⟩ := List.cons.inj hM
        obtain ⟨v, u, hgap, hwritten⟩ := ih hnext hrest
        exact ⟨_, u, .nil, written_cons h hgap hwritten⟩

/-- **Tokens export a class from an offset on exactly when the place is exposed and the words are written
there.** -/
theorem exportsAt_iff {script name : Text} {n : Nat} (hname : IsIdentifier name) :
    ExportsAt (tokens script) n name ↔ Exposed script n ∧ HeadAt script n name := by
  have hdrop {A B : List Piece} (hpieces : pieces script = A ++ B) (hwidth : width A = n) :
      B.flatMap Piece.text = script.drop n := by
    rw [← text_pieces script, hpieces, List.flatMap_append, ← hwidth, width, List.drop_left]
  constructor
  · rintro ⟨L, _ | ⟨k, M⟩, R, d, a, hts, hM, hn⟩
    · cases hM
    obtain rfl : k.start = n := Option.some.inj hn
    obtain ⟨A, B, hpieces, -, hwidth, hrest⟩ := exists_pieces_of_tokensFrom hts
    rw [Nat.zero_add] at hwidth
    have hnext : pieces script = (A ++ [.token k.kind k.text]) ++ B := by
      rw [hpieces, List.append_assoc, List.singleton_append]
    obtain ⟨v, u, hgap, hwritten⟩ := exists_written hnext hrest
    refine ⟨exposed_start (by rw [hts]; simp), d, a, u, ?_⟩
    rw [← hM, ← hdrop hpieces hwidth]
    exact written_cons hpieces hgap hwritten
  · rintro ⟨hexposed, d, a, u, hwritten⟩
    have hn : n < script.length := by
      obtain ⟨rest, hrest⟩ := exists_append_of_written hwritten
      by_contra hge
      rw [List.drop_eq_nil_of_le (Nat.not_lt.mp hge)] at hrest
      cases hrest
    obtain ⟨A, B, hpieces, hwidth⟩ := hexposed.exists_pieces hn
    have hB : pieces (script.drop n) = B := by
      rw [← hdrop hpieces hwidth]
      exact pieces_flatMap_of_suffix hpieces
    have hlexeme := lexeme_classHead hname d a
    have hbare : (tokensFrom n B).map Token.bare = classHead d a name ++ bareTokens u := by
      rw [bare_tokensFrom n 0, ← hB]
      exact hwritten.bareTokens_eq hlexeme
    obtain ⟨M, R, hMR, hM, -⟩ := List.map_eq_append_iff.mp hbare
    refine ⟨tokensFrom 0 A, M, R, d, a, ?_, hM, ?_⟩
    · rw [tokens, hpieces, tokensFrom_append, hwidth, Nat.zero_add, hMR]
    · obtain ⟨rest, hfirst⟩ := head_of_written hwritten (hlexeme _ List.mem_cons_self) n
      rw [hB, hMR] at hfirst
      cases M with
      | nil => cases hM
      | cons k M => rw [List.head?_cons, (List.cons.inj hfirst).1, Option.map_some]

/-- **Tokens export the class that is found exactly when it is found at an exposed place, or its words are
written at another one, with white space and comments between them.**  No token and no comment goes on over an
exposed place: it is in no comment, in no string, in no template literal, and behind no dollar sign. -/
theorem exports_iff {script name : Text} (h : exported? script = some name) :
    ∃ n, FoundAt script n name ∧ (ExportsAt (tokens script) n name ↔ Exposed script n) ∧
      (Exports (tokens script) name ↔
        Exposed script n ∨ ∃ m ≠ n, Exposed script m ∧ HeadAt script m name) := by
  have hname := isIdentifier_of_exported? h
  obtain ⟨n, hfound⟩ := exists_foundAt h
  have hhere : ExportsAt (tokens script) n name ↔ Exposed script n := by
    rw [exportsAt_iff hname, and_iff_left (headAt_of_exportedHere? hfound.here)]
  refine ⟨n, hfound, hhere, ?_⟩
  rw [exports_iff_exists, ← hhere]
  constructor
  · rintro ⟨m, hm⟩
    rcases eq_or_ne m n with rfl | hne
    · exact .inl hm
    · exact .inr ⟨m, hne, (exportsAt_iff hname).mp hm⟩
  · rintro (hn | ⟨m, -, hm⟩)
    · exact ⟨n, hn⟩
    · exact ⟨m, (exportsAt_iff hname).mpr hm⟩

/-- A script with a comment and two exported classes. -/
def commentedScript : Text :=
  "/* export */ export default abstract\n class A \x7b\x7d export class B \x7b\x7d".toList

/-- The class that is found in it is the first, for its words are exposed. -/
theorem exports_commentedScript : exported? commentedScript = some ['A'] ∧
    ∃ n, FoundAt commentedScript n ['A'] ∧
      (ExportsAt (tokens commentedScript) n ['A'] ↔ Exposed commentedScript n) ∧
      (Exports (tokens commentedScript) ['A'] ↔ Exposed commentedScript n ∨
        ∃ m ≠ n, Exposed commentedScript m ∧ HeadAt commentedScript m ['A']) := by
  have h : exported? commentedScript = some ['A'] := by decide +kernel
  exact ⟨h, exports_iff h⟩

/-- A class that is named in a comment only is found in front of the one that is exported. -/
theorem exported?_in_comment :
    ¬ ∀ script name : Text, exported? script = some name → Exports (tokens script) name := by
  intro h
  have hfound : exported? "// export class Old \x7b\x7d\nexport class New \x7b\x7d".toList =
      some "Old".toList := by
    decide +kernel
  exact absurd (h _ _ hfound) (by decide +kernel)

end Graft.Name
