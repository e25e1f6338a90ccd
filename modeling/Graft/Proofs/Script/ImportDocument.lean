import Graft.Proofs.Registration.Regular
import Graft.Proofs.Script.Coverage
import Graft.Proofs.Script.ImportGrammar

/-
Scripts written by the grammar of import statements, and what is read of them.

* `Gap t u` — white space and comments, and what stands behind them;
* `Written ts t u` — tokens written one after another, with gaps behind them;
* `Code c u` — balanced code that imports nothing outside of brackets, other than by a call;
* `Document t ss` — a script of such code and of import statements;
* `importsFrom_code` — nothing is read of code, and reading goes on behind it;
* `imports_document` — **of a script the import statements are read, in order, and nothing else**.

Design notes: every part is given with the text that stands behind it, since where a comment or a word ends
depends on that text.  Code may be any text that is cut into pieces apart from what follows; what those
pieces are does not matter, but for their brackets.
-/
namespace Graft.Script

open Registration

/-! ### Scripts -/

/-- White space and comments at the beginning of a text, and what stands behind them. -/
inductive Gap : Text → Text → Prop
  | nil {u : Text} : Gap u u
  | space {c : Char} {t u : Text} (hc : isSpace c = true) (h : Gap t u) : Gap (c :: t) u
  | comment {x t u : Text} (hx : Comment x t) (h : Gap t u) : Gap (x ++ t) u

/-- Tokens at the beginning of a text, with gaps behind them, and what stands behind all. -/
inductive Written : List Token → Text → Text → Prop
  | nil {u : Text} : Written [] u u
  -- A word does not run on into what follows it.
  | cons {k : Token} {ts : List Token} {t v u : Text}
    (hword : k.kind = .ident → ∀ d ∈ t.head?, isIdentChar d = false)
    (hgap : Gap t v) (h : Written ts v u) : Written (k :: ts) (k.text ++ t) u

/-- Tokens with a space behind each. -/
def spaced (ts : List Token) : Text := ts.flatMap fun k => k.text ++ [' ']

/-- Tokens can be written. -/
theorem written_spaced (ts : List Token) (u : Text) : Written ts (spaced ts ++ u) u := by
  induction ts with
  | nil => exact .nil
  | cons k ts ih =>
    rw [spaced, List.flatMap_cons, List.append_assoc, List.append_assoc]
    exact .cons (fun _ => head_not_ident (by decide) _) (.space (by decide) .nil) ih

/-- Tokens among which the word `import` stands inside of brackets only, or before `(` or a dot. -/
structure Quiet (ts : List Token) : Prop where
  balanced : Nested ts
  calls : ∀ n < ts.length, ts[n]?.any (Token.isWord "import".toList) = true → Nested (ts.take n) →
    ts[n + 1]?.any (fun f => f.isMark '(' || f.isMark '.') = true

instance (ts : List Token) : Decidable (Nested ts) := inferInstanceAs (Decidable (settle [] ts = some []))

instance (ts : List Token) : Decidable (Quiet ts) :=
  decidable_of_iff (Nested ts ∧ ∀ n < ts.length, ts[n]?.any (Token.isWord "import".toList) = true →
    Nested (ts.take n) → ts[n + 1]?.any (fun f => f.isMark '(' || f.isMark '.') = true)
    ⟨fun ⟨h1, h2⟩ => ⟨h1, h2⟩, fun ⟨h1, h2⟩ => ⟨h1, h2⟩⟩

/-- Code that is cut into pieces apart from what follows it, and imports nothing statically. -/
structure Code (c u : Text) : Prop where
  apart : pieces (c ++ u) = pieces c ++ pieces u
  quiet : Quiet (bareTokens c)

/-- Code that leaves nothing open is cut apart from what it joins. -/
theorem Code.of_closed {c u : Text} (hc : Closed c) (hu : Joins c u) (hquiet : Quiet (bareTokens c)) :
    Code c u where
  apart := pieces_append hc hu
  quiet := hquiet

/-- A script of import statements, in order, and of other code, with gaps between them. -/
inductive Document : Text → List Statement → Prop
  | nil : Document [] []
  | gap {t u : Text} {ss : List Statement} (h : Gap t u) (hu : Document u ss) : Document t ss
  | code {c u : Text} {ss : List Statement} (h : Code c u) (hu : Document u ss) : Document (c ++ u) ss
  | statement {s : Statement} {t u : Text} {ss : List Statement} (h : Written s.run t u)
    (hu : Document u ss) : Document t (s :: ss)

/-! ### Tokens of what is written -/

theorem bareTokens_of_gap {t x u : Text} (h : pieces t = .gap x :: pieces u) :
    bareTokens t = bareTokens u := by
  rw [bareTokens, tokens, h, tokensFrom]
  exact bare_tokensFrom _ 0 _

theorem bareTokens_of_token {t x u : Text} {k : TokenKind} (h : pieces t = .token k x :: pieces u) :
    bareTokens t = ⟨k, 0, x⟩ :: bareTokens u := by
  rw [bareTokens, tokens, h, tokensFrom, List.map_cons, bare_tokensFrom (0 + x.length) 0]
  rfl

theorem closesComment_of_first {body : Text} (h : ¬ ['*', '/'] <:+: body ++ ['*']) :
    closesComment (body ++ ['*', '/']) = true := by
  induction body with
  | nil => rfl
  | cons c cs ih =>
    have hlater : ¬ ['*', '/'] <:+: cs ++ ['*'] := fun hin => h (hin.trans (List.suffix_cons c _).isInfix)
    rw [List.cons_append, closesComment]
    · exact ih hlater
    · rintro ds rfl hds
      cases cs with
      | nil => cases hds
      | cons d more =>
        obtain ⟨rfl, -⟩ := List.cons.inj hds
        exact h ⟨[], more ++ ['*'], rfl⟩

theorem pieces_of_comment {x t : Text} (h : Comment x t) : pieces (x ++ t) = .gap x :: pieces t := by
  have hblock {cs : Text} {r : Text × Text} (hpass : passComment cs = r) :
      pieces ('/' :: '*' :: cs) = .gap ('/' :: '*' :: r.1) :: pieces r.2 := by
    rw [pieces_cons, firstPiece_slash, ← hpass]
    rfl
  cases h with
  | line hbody hrest =>
    refine pieces_comment (fun d hd => ?_) fun d hd => ?_
    · rw [bne_iff_ne]
      rintro rfl
      exact hbody hd
    · rw [hrest d hd]
      rfl
  | block hfirst => exact hblock (passComment_of_closes (closesComment_of_first hfirst) t)
  | @unclosed body hnone =>
    have hpassed := passComment_append body
    have hpass : passComment body = (body, []) := by
      rcases passComment_spec body with ⟨inner, hinner, -⟩ | ⟨hrest, -⟩
      · refine absurd ⟨inner, (passComment body).2, ?_⟩ hnone
        rw [← hinner, hpassed]
      · rw [hrest, List.append_nil] at hpassed
        exact Prod.ext hpassed hrest
    rw [List.append_nil]
    exact hblock hpass

/-- There are no tokens in a gap. -/
theorem Gap.bareTokens_eq {t u : Text} (h : Gap t u) : bareTokens t = bareTokens u := by
  induction h with
  | nil => rfl
  | space hc _ ih => rw [bareTokens_of_gap (pieces_space hc _), ih]
  | comment hx _ ih => rw [bareTokens_of_gap (pieces_of_comment hx), ih]

/-- A token that is read wherever it is written, unless it is a word that runs on. -/
structure Lexeme (k : Token) : Prop where
  start : k.start = 0
  reads : ∀ t : Text, (k.kind = .ident → ∀ d ∈ t.head?, isIdentChar d = false) →
    pieces (k.text ++ t) = .token k.kind k.text :: pieces t

/-- Tokens are read as they are written. -/
theorem Written.bareTokens_eq {ts : List Token} {t u : Text} (h : Written ts t u)
    (hts : ∀ k ∈ ts, Lexeme k) : bareTokens t = ts ++ bareTokens u := by
  induction h with
  | nil => rfl
  | @cons k ts t v u hword hgap h ih =>
    obtain ⟨hk, hts⟩ := List.forall_mem_cons.mp hts
    rw [bareTokens_of_token (hk.reads t hword), hgap.bareTokens_eq, ih hts, ← hk.start]
    rfl

/-! ### Tokens of a statement -/

theorem lexeme_word {w : Text} (h : IsIdentifier w) : Lexeme (wordToken w) where
  start := rfl
  reads _ ht := pieces_word h.nonempty h.chars (ht rfl)

theorem lexeme_keyword {w : Text} (h : w ∈ "import".toList :: clauseWords) : Lexeme (wordToken w) := by
  have hall : ∀ w ∈ "import".toList :: clauseWords, w ≠ [] ∧ w.all isIdentChar = true := by decide
  exact lexeme_word ⟨(hall w h).1, List.all_eq_true.mp (hall w h).2⟩

theorem lexeme_mark {c : Char} (h : isPlainMark c = true) : Lexeme (markToken c) where
  start := rfl
  reads t _ := pieces_mark h t

theorem ImportName.lexeme (n : ImportName) : Lexeme n.token := lexeme_word n.isIdentifier

theorem lexeme_typeRun {typeOnly : Bool} : ∀ k ∈ typeRun typeOnly, Lexeme k := by
  cases typeOnly with
  | false => exact List.forall_mem_nil _
  | true => exact List.forall_mem_singleton.mpr (lexeme_keyword (by decide))

theorem ListEntry.lexeme_run (e : ListEntry) : ∀ k ∈ e.run, Lexeme k := by
  rw [run, List.forall_mem_append, List.forall_mem_cons]
  refine ⟨lexeme_typeRun, e.name.lexeme, ?_⟩
  cases e.renamed with
  | none => exact List.forall_mem_nil _
  | some n =>
    rw [List.forall_mem_cons, List.forall_mem_singleton]
    exact ⟨lexeme_keyword (by decide), n.lexeme⟩

theorem lexeme_entriesRun (trailing : Bool) (es : List ListEntry) :
    ∀ k ∈ entriesRun trailing es, Lexeme k := by
  have hcomma : Lexeme (markToken ',') := lexeme_mark (by decide)
  fun_induction entriesRun trailing es with
  | case1 => exact List.forall_mem_nil _
  | case2 e =>
    refine List.forall_mem_append.mpr ⟨e.lexeme_run, ?_⟩
    cases trailing with
    | false => exact List.forall_mem_nil _
    | true => exact List.forall_mem_singleton.mpr hcomma
  | case3 e es hne ih =>
    exact List.forall_mem_append.mpr ⟨e.lexeme_run, List.forall_mem_cons.mpr ⟨hcomma, ih⟩⟩

theorem Clause.lexeme_run (c : Clause) : ∀ k ∈ c.run, Lexeme k := by
  cases c with
  | everything n =>
    rw [run, List.forall_mem_cons, List.forall_mem_cons, List.forall_mem_singleton]
    exact ⟨lexeme_mark (by decide), lexeme_keyword (by decide), n.lexeme⟩
  | list es trailing =>
    rw [run, List.forall_mem_cons, List.forall_mem_append, List.forall_mem_singleton]
    exact ⟨lexeme_mark (by decide), lexeme_entriesRun trailing es, lexeme_mark (by decide)⟩

theorem Bindings.lexeme_run (b : Bindings) : ∀ k ∈ b.run, Lexeme k := by
  rcases b with ⟨n, _ | c⟩ | c
  · exact List.forall_mem_singleton.mpr n.lexeme
  · rw [run, List.forall_mem_cons, List.forall_mem_cons]
    exact ⟨n.lexeme, lexeme_mark (by decide), c.lexeme_run⟩
  · exact c.lexeme_run

theorem Statement.lexeme_run (s : Statement) : ∀ k ∈ s.run, Lexeme k := by
  have hstring : Lexeme s.string := by
    refine ⟨rfl, fun t _ => ?_⟩
    have hshape : s.string.text ++ t = s.quote :: (s.module ++ s.quote :: t) := by
      rw [string, List.cons_append, List.append_assoc]
      rfl
    rw [hshape, pieces_string s.isQuote s.isSpecifier]
    rfl
  rw [run, rest, List.forall_mem_cons, List.forall_mem_append, List.forall_mem_cons]
  refine ⟨lexeme_keyword (by decide), ?_, hstring, ?_⟩
  · cases s.binder with
    | none => exact List.forall_mem_nil _
    | some b =>
      show ∀ k ∈ b.run, Lexeme k
      rw [Binder.run, List.forall_mem_append, List.forall_mem_append, List.forall_mem_singleton]
      exact ⟨lexeme_typeRun, b.bindings.lexeme_run, lexeme_keyword (by decide)⟩
  · cases s.semicolon with
    | false => exact List.forall_mem_nil _
    | true => exact List.forall_mem_singleton.mpr (lexeme_mark (by decide))

/-! ### Code -/

/-- Behind code that closes the open brackets reading goes on. -/
theorem importsFrom_of_calls {ts : List Token} {s : List Char} (h : settle s ts = some [])
    (hcalls : ∀ n < ts.length, ts[n]?.any (Token.isWord "import".toList) = true →
      settle s (ts.take n) = some [] → ts[n + 1]?.any (fun f => f.isMark '(' || f.isMark '.') = true)
    (rest : List Token) : importsFrom s.length (ts ++ rest) = importsFrom 0 rest := by
  -- The walk is as deep as there are open brackets, since no attempt jumps over any.
  induction ts generalizing s with
  | nil =>
    rw [settle, Option.some.injEq] at h
    rw [h]
    rfl
  | cons t ts ih =>
    rw [settle, Option.bind_eq_some_iff] at h
    obtain ⟨m, hone, hrest⟩ := h
    have hlater := ih hrest fun n hn himport hsettle => by
      refine hcalls (n + 1) (Nat.succ_lt_succ hn) himport ?_
      rw [List.take_succ_cons, settle, hone]
      exact hsettle
    rw [List.cons_append, ← hlater]
    rcases settleOne_cases hone with ⟨c, hc, rfl⟩ | ⟨hc, hcl, c, -, rfl⟩ | ⟨hc, hcl, rfl⟩
    · exact importsFrom_opens (opens_of_closer? hc) _ _
    · exact importsFrom_closes hcl _ _
    · by_cases himport : m.length = 0 ∧ t.isWord "import".toList = true
      · obtain ⟨hm, ht⟩ := himport
        obtain rfl : m = [] := List.length_eq_zero_iff.mp hm
        have hnext := hcalls 0 (Nat.zero_lt_succ _) ht rfl
        cases ts with
        | nil => cases hnext
        | cons f more => exact importsFrom_call ht hnext (more ++ rest)
      · exact importsFrom_plain (not_opens_of_closer? hc) hcl himport _

/-- Nothing is read of code, and reading goes on behind it. -/
theorem importsFrom_code {ts : List Token} (h : Quiet ts) (rest : List Token) :
    importsFrom 0 (ts ++ rest) = importsFrom 0 rest :=
  importsFrom_of_calls (s := []) h.balanced h.calls rest

/-! ### Scripts, read -/

/-- **Of a script the import statements are read, in order, and nothing else.** -/
theorem imports_document {t : Text} {ss : List Statement} (h : Document t ss) :
    (imports (tokens t)).map Import.bare = ss.map Statement.record := by
  rw [imports, ← importsFrom_bare 0 (tokens t)]
  show (importsFrom 0 (bareTokens t)).map Import.bare = _
  induction h with
  | nil =>
    have hnil : bareTokens [] = [] := by
      rw [bareTokens, tokens, pieces_nil]
      rfl
    rw [hnil, importsFrom_nil]
    rfl
  | gap h _ ih => rw [h.bareTokens_eq, ih]
  | code h _ ih => rw [bareTokens_append h.apart, importsFrom_code h.quiet, ih]
  | @statement s _ _ _ h _ ih =>
    rw [h.bareTokens_eq s.lexeme_run, importsFrom_statement, ih, List.map_cons]

/-- A word as a name. -/
def ImportName.ofWord (w : Text) (hne : w ≠ []) (hchars : w.all isIdentChar = true)
    (hfree : w ∉ clauseWords) : ImportName := ⟨w, ⟨hne, List.all_eq_true.mp hchars⟩, hfree⟩

def nameA : ImportName := .ofWord "a".toList (by decide) (by decide) (by decide)

def nameB : ImportName := .ofWord "b".toList (by decide) (by decide) (by decide)

def nameD : ImportName := .ofWord "D".toList (by decide) (by decide) (by decide)

/-- A statement with a default name and a list. -/
def fullStatement : Statement where
  binder := some ⟨true, .default nameD (some (.list [⟨true, nameA, some nameB⟩] true))⟩
  module := "./m".toList
  quote := '\''
  semicolon := false
  isSpecifier := by decide
  isQuote := rfl

/-- A statement for its side effects. -/
def effectStatement : Statement where
  binder := none
  module := "e".toList
  quote := '"'
  semicolon := true
  isSpecifier := by decide
  isQuote := rfl

/-- A statement with a name for everything. -/
def wholeStatement : Statement where
  binder := some ⟨false, .clause (.everything nameA)⟩
  module := "k".toList
  quote := '"'
  semicolon := false
  isSpecifier := by decide
  isQuote := rfl

/-- Code with an import in brackets, a call and a property. -/
def mixedCode : Text := "\x7bimport y from 'z'\x7d import('x').then(f); import.meta\n".toList

def mixedScript : Text :=
  ("import type D , \x7b type a as b , \x7d from './m' // c\nimport \"e\" ; " ++
    "\x7bimport y from 'z'\x7d import('x').then(f); import.meta\nimport * as a from \"k\" ").toList

theorem imports_document_mixed : Document mixedScript [fullStatement, effectStatement, wholeStatement] ∧
    (imports (tokens mixedScript)).map Import.bare =
      [⟨0, 0, ["D".toList, "b".toList], "./m".toList, '\''⟩, ⟨0, 0, [], "e".toList, '"'⟩,
        ⟨0, 0, ["a".toList], "k".toList, '"'⟩] := by
  have hscript : mixedScript = spaced fullStatement.run ++ (('/' :: '/' :: " c".toList) ++ '\n' ::
      (spaced effectStatement.run ++ (mixedCode ++ (spaced wholeStatement.run ++ [])))) := by
    decide +kernel
  have hjoins : Joins mixedCode (spaced wholeStatement.run ++ []) := by
    have hlast : (pieces mixedCode).getLast? = some (.gap ['\n']) := by decide +kernel
    intro p hp d _
    rw [hlast] at hp
    obtain rfl := Option.some.inj hp
    rfl
  have hcode : Code mixedCode (spaced wholeStatement.run ++ []) :=
    .of_closed (by decide +kernel) hjoins (by decide +kernel)
  have h : Document mixedScript [fullStatement, effectStatement, wholeStatement] := by
    rw [hscript]
    refine .statement (written_spaced _ _)
      (.gap (.comment (.line (by decide) ?_) (.space (by decide) .nil)) ?_)
    · rintro d ⟨⟩
      rfl
    · exact .statement (written_spaced _ _) (.code hcode (.statement (written_spaced _ _) .nil))
  exact ⟨h, imports_document h⟩

end Graft.Script
