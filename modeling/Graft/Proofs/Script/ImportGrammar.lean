import Graft.Proofs.Name.Identifier
import Graft.Proofs.Registration.Entry
import Graft.Proofs.Script.Offsetless

/-
The grammar of static import statements, and what is read of one.

* `ImportName`, `ListEntry`, `Clause`, `Bindings`, `Statement` — the parts of a statement;
* `Statement.run` — its tokens, without offsets;
* `Statement.record` — what it says: the names it binds, its module and its quote;
* `readImport_clause` — a clause adds the names that it binds;
* `importsFrom_statement` — **a statement is read for what it says, and reading goes on behind it**.

Design notes: the reader takes names, stars, commas and lists in any order, so a part of a statement needs no
more than its own tokens and the names bound before it.  A semicolon that follows a statement without one
is taken for its end, which changes nothing, since no statement begins with it.
-/
namespace Graft.Script

open Registration

/-! ### The grammar -/

/-- A name that an import statement may bind. -/
structure ImportName where
  text : Text
  isIdentifier : IsIdentifier text
  -- It is none of the words of the statement itself.
  free : text ∉ clauseWords

/-- An entry of a braced list: a name, or another name for it. -/
structure ListEntry where
  typeOnly : Bool
  name : ImportName
  renamed : Option ImportName

/-- What stands beside a default name, or instead of one. -/
inductive Clause where
  | everything (name : ImportName)
  | list (entries : List ListEntry) (trailing : Bool)

/-- The names of an import statement. -/
inductive Bindings where
  | default (name : ImportName) (clause : Option Clause)
  | clause (clause : Clause)

/-- What stands between the word `import` and the module. -/
structure Binder where
  typeOnly : Bool
  bindings : Bindings

/-- A static import statement; without a binder it is there for its side effects only. -/
structure Statement where
  binder : Option Binder
  module : Text
  quote : Char
  semicolon : Bool
  isSpecifier : IsSpecifier module
  isQuote : isQuote quote = true

/-! ### Tokens -/

/-- The word `type`, where it stands. -/
def typeRun (typeOnly : Bool) : List Token := if typeOnly then [wordToken "type".toList] else []

def ImportName.token (n : ImportName) : Token := wordToken n.text

/-- The name that an entry binds. -/
def ListEntry.bound (e : ListEntry) : ImportName := e.renamed.getD e.name

def ListEntry.run (e : ListEntry) : List Token :=
  typeRun e.typeOnly ++ e.name.token :: match e.renamed with
    | none => []
    | some n => [wordToken "as".toList, n.token]

/-- The tokens of entries, with commas between them, and perhaps one behind the last. -/
def entriesRun (trailing : Bool) : List ListEntry → List Token
  | [] => []
  | [e] => e.run ++ if trailing then [markToken ','] else []
  | e :: es => e.run ++ markToken ',' :: entriesRun trailing es

namespace Clause

def run : Clause → List Token
  | everything n => [markToken '*', wordToken "as".toList, n.token]
  | list es trailing => markToken '{' :: (entriesRun trailing es ++ [markToken '}'])

def names : Clause → List Text
  | everything n => [n.text]
  | list es _ => es.map fun e => e.bound.text

end Clause

namespace Bindings

def run : Bindings → List Token
  | default n none => [n.token]
  | default n (some c) => n.token :: markToken ',' :: c.run
  | clause c => c.run

def names : Bindings → List Text
  | default n none => [n.text]
  | default n (some c) => n.text :: c.names
  | clause c => c.names

end Bindings

def Binder.run (b : Binder) : List Token :=
  typeRun b.typeOnly ++ (b.bindings.run ++ [wordToken "from".toList])

namespace Statement

/-- The string that names the module. -/
def string (s : Statement) : Token := ⟨.string, 0, s.quote :: (s.module ++ [s.quote])⟩

/-- The tokens behind the word `import`. -/
def rest (s : Statement) : List Token :=
  (match s.binder with | none => [] | some b => b.run) ++
    s.string :: if s.semicolon then [markToken ';'] else []

def run (s : Statement) : List Token := wordToken "import".toList :: s.rest

/-- What a statement says. -/
def record (s : Statement) : Import where
  start := 0
  stop := 0
  names := match s.binder with | none => [] | some b => b.bindings.names
  module := s.module
  quote := s.quote

end Statement

/-! ### Lists -/

theorem flat_nil : Flat [] where
  nested := nested_nil
  parts_eq d _ := parts_nil d

theorem flat_typeRun (typeOnly : Bool) : Flat (typeRun typeOnly) := by
  cases typeOnly with
  | false => exact flat_nil
  | true => exact flat_wordToken _

theorem ImportName.isSymbol (n : ImportName) : IsSymbol n.text where
  nonempty := n.isIdentifier.nonempty
  chars := n.isIdentifier.chars
  notType h := n.free (by rw [h]; decide)

/-- What tokens bind whose last is a name. -/
theorem entryName?_concat (ts : List Token) (n : ImportName) :
    entryName? (ts ++ [n.token]) = some n.text := by
  have hlast : entryName? [n.token] = some n.text := entryName?_wordToken n.isSymbol
  rw [entryName?_append, hlast]
  rfl

namespace ListEntry

theorem flat (e : ListEntry) : Flat e.run := by
  have hname : Flat [e.name.token] := flat_wordToken _
  rw [run]
  cases e.renamed with
  | none => exact (flat_typeRun _).append hname
  | some n => exact (flat_typeRun _).append (hname.append ((flat_wordToken _).append (flat_wordToken n.text)))

theorem run_ne_nil (e : ListEntry) : e.run ≠ [] :=
  List.append_ne_nil_of_right_ne_nil _ (List.cons_ne_nil _ _)

/-- An entry binds its name, or the other name for it. -/
theorem entryName?_run (e : ListEntry) : entryName? e.run = some e.bound.text := by
  rw [run, bound]
  cases e.renamed with
  | none => exact entryName?_concat _ e.name
  | some n =>
    have hrun : typeRun e.typeOnly ++ [e.name.token, wordToken "as".toList, n.token] =
        (typeRun e.typeOnly ++ [e.name.token, wordToken "as".toList]) ++ [n.token] := by
      rw [List.append_assoc]
      rfl
    exact (congrArg entryName? hrun).trans (entryName?_concat _ n)

end ListEntry

theorem nested_entriesRun (trailing : Bool) (es : List ListEntry) : Nested (entriesRun trailing es) := by
  have hcomma : Nested [markToken ','] := nested_plain (plain_of_isMark (c := ',') rfl (by decide))
  fun_induction entriesRun trailing es with
  | case1 => exact nested_nil
  | case2 e =>
    refine e.flat.nested.append ?_
    cases trailing with
    | false => exact nested_nil
    | true => exact hcomma
  | case3 e es hne ih => exact e.flat.nested.append (hcomma.append ih)

/-- The entries of a list are those that it is written with. -/
theorem entries_entriesRun (trailing : Bool) (es : List ListEntry) :
    entries (entriesRun trailing es) = es.map ListEntry.run := by
  have hcut (e : ListEntry) (ts : List Token) :
      entries (e.run ++ markToken ',' :: ts) = e.run :: entries ts := by
    rw [entries_append_comma (e.flat.nested.depthAfter 0) rfl, entries_flat e.flat e.run_ne_nil]
    rfl
  fun_induction entriesRun trailing es with
  | case1 => rfl
  | case2 e =>
    cases trailing with
    | false => exact (congrArg entries (List.append_nil _)).trans (entries_flat e.flat e.run_ne_nil)
    | true => exact hcut e []
  | case3 e es hne ih => rw [hcut, ih, List.map_cons]

theorem listedNames_entriesRun (trailing : Bool) (es : List ListEntry) :
    listedNames (entriesRun trailing es) = es.map fun e => e.bound.text := by
  rw [listedNames, entries_entriesRun, List.filterMap_map, ← List.filterMap_eq_map]
  congr 1
  funext e
  exact e.entryName?_run

/-! ### What is read of a part -/

/-- The words of a statement bind nothing. -/
theorem readImport_keyword {w : Text} (h : w ∈ clauseWords) (start : Nat) (names : List Text)
    (ts : List Token) : readImport start names (wordToken w :: ts) = readImport start names ts := by
  rw [readImport_ident (t := wordToken w) rfl]
  show readImport start (bindName names w) ts = _
  rw [bindName, if_pos (List.contains_iff_mem.mpr h)]

theorem readImport_name (n : ImportName) (start : Nat) (names : List Text) (ts : List Token) :
    readImport start names (n.token :: ts) = readImport start (names ++ [n.text]) ts := by
  have hfree : ¬ clauseWords.contains n.text = true := fun h => n.free (List.contains_iff_mem.mp h)
  rw [readImport_ident (t := n.token) rfl]
  show readImport start (bindName names n.text) ts = _
  rw [bindName, if_neg hfree]

theorem readImport_between {c : Char} (h : c = '*' ∨ c = ',') (start : Nat) (names : List Text)
    (ts : List Token) : readImport start names (markToken c :: ts) = readImport start names ts := by
  rcases h with rfl | rfl
  · rw [readImport_mark (t := markToken '*') rfl (by decide)]
    rfl
  · rw [readImport_mark (t := markToken ',') rfl (by decide)]
    rfl

theorem readImport_typeRun (typeOnly : Bool) (start : Nat) (names : List Text) (ts : List Token) :
    readImport start names (typeRun typeOnly ++ ts) = readImport start names ts := by
  cases typeOnly with
  | false => rfl
  | true => exact readImport_keyword (by decide) start names ts

/-- A clause adds the names that it binds. -/
theorem readImport_clause (c : Clause) (start : Nat) (names : List Text) (ts : List Token) :
    readImport start names (c.run ++ ts) = readImport start (names ++ c.names) ts := by
  cases c with
  | everything n =>
    show readImport start names (markToken '*' :: wordToken "as".toList :: n.token :: ts) = _
    rw [readImport_between (.inl rfl), readImport_keyword (by decide), readImport_name]
    rfl
  | list es trailing =>
    have hrun : (Clause.list es trailing).run ++ ts =
        markToken '{' :: (entriesRun trailing es ++ markToken '}' :: ts) := by
      rw [Clause.run, List.cons_append, List.append_assoc]
      rfl
    have hgroup : enclosed? (markToken '{' :: (entriesRun trailing es ++ markToken '}' :: ts)) =
        some ⟨entriesRun trailing es, markToken '}', ts⟩ :=
      enclosed?_eq_some_iff.mpr ⟨'}', rfl, rfl, nested_entriesRun trailing es, rfl⟩
    rw [hrun, readImport_group rfl hgroup, listedNames_entriesRun]
    rfl

theorem readImport_bindings (b : Bindings) (start : Nat) (names : List Text) (ts : List Token) :
    readImport start names (b.run ++ ts) = readImport start (names ++ b.names) ts := by
  rcases b with ⟨n, _ | c⟩ | c
  · exact readImport_name n start names ts
  · show readImport start names (n.token :: markToken ',' :: (c.run ++ ts)) = _
    rw [readImport_name, readImport_between (.inr rfl), readImport_clause, List.append_assoc]
    rfl
  · exact readImport_clause c start names ts

/-! ### What is read of a statement -/

/-- A semicolon between statements belongs to none. -/
theorem importsFrom_semicolon {s : Token} (h : s.isMark ';' = true) (ts : List Token) :
    importsFrom 0 (s :: ts) = importsFrom 0 ts := by
  obtain ⟨ho, hcl⟩ := plain_of_isMark h (by decide)
  have hword : ¬ s.isWord "import".toList = true := by
    rw [Token.isWord, (isMark_iff.mp h).1]
    exact Bool.false_ne_true
  exact importsFrom_plain (ne_true_of_eq_false ho) (ne_true_of_eq_false hcl) (fun h => hword h.2) ts

/-- It does not matter whether a semicolon is taken for the end of a statement. -/
theorem importsFrom_closeImport (start : Nat) (names : List Text) (t : Token) (ts : List Token) :
    importsFrom 0 (closeImport start names t ts).2 = importsFrom 0 ts := by
  rcases closeImport_cases start names t ts with ⟨s, rest, rfl, hs, h⟩ | ⟨-, h⟩ <;> rw [h]
  rw [importsFrom_semicolon hs]

namespace Statement

/-- What stands behind the word `import` is no call. -/
theorem exists_rest_eq (s : Statement) :
    ∃ f ts, s.rest = f :: ts ∧ ¬ (f.isMark '(' || f.isMark '.') = true := by
  rw [rest]
  rcases s.binder with _ | ⟨_ | _, b⟩
  · exact ⟨s.string, _, rfl, Bool.false_ne_true⟩
  · rcases b with ⟨n, _ | c⟩ | ⟨n⟩ | ⟨es, trailing⟩
    · exact ⟨n.token, _, rfl, Bool.false_ne_true⟩
    · exact ⟨n.token, _, rfl, Bool.false_ne_true⟩
    · exact ⟨markToken '*', _, rfl, by decide⟩
    · exact ⟨markToken '{', _, rfl, by decide⟩
  · exact ⟨wordToken "type".toList, _, rfl, Bool.false_ne_true⟩

/-- The tokens behind a statement's string: its semicolon, and what follows. -/
def closing (s : Statement) (ts : List Token) : List Token :=
  (if s.semicolon then [markToken ';'] else []) ++ ts

theorem importsFrom_closing (s : Statement) (ts : List Token) :
    importsFrom 0 (s.closing ts) = importsFrom 0 ts := by
  rw [closing]
  cases s.semicolon with
  | false => rfl
  | true => exact importsFrom_semicolon rfl ts

/-- Up to its string a statement binds its names. -/
theorem readImport_rest (s : Statement) (start : Nat) (ts : List Token) :
    readImport start [] (s.rest ++ ts) = readImport start s.record.names (s.string :: s.closing ts) := by
  rw [rest, List.append_assoc, record]
  cases s.binder with
  | none => rfl
  | some b =>
    show readImport start [] ((typeRun b.typeOnly ++ (b.bindings.run ++ [wordToken "from".toList])) ++
      s.string :: s.closing ts) = _
    rw [List.append_assoc, readImport_typeRun, List.append_assoc, readImport_bindings]
    exact readImport_keyword (by decide) start b.bindings.names _

/-- The module stands between the quotes. -/
theorem unquoted_string (s : Statement) : s.string.unquoted = s.module := by
  show (s.module ++ [s.quote]).dropLast = s.module
  exact List.dropLast_concat

end Statement

/-- **A statement is read for what it says, and reading goes on behind it.** -/
theorem importsFrom_statement (s : Statement) (ts : List Token) :
    (importsFrom 0 (s.run ++ ts)).map Import.bare = s.record :: (importsFrom 0 ts).map Import.bare := by
  obtain ⟨f, more, hrest, hcall⟩ := s.exists_rest_eq
  generalize hstart : (wordToken "import".toList).start = start
  have hread := s.readImport_rest start ts
  rw [readImport_string (t := s.string) rfl, hrest, List.cons_append] at hread
  have hrecord : (closeImport start s.record.names s.string (s.closing ts)).1.bare = s.record := by
    rw [closeImport_fst_bare, s.unquoted_string]
    rfl
  have hrun : s.run ++ ts = wordToken "import".toList :: f :: (more ++ ts) := by
    rw [Statement.run, hrest]
    rfl
  rw [hrun, importsFrom_import rfl hcall, hstart, hread]
  show (closeImport start s.record.names s.string (s.closing ts)).1.bare ::
    (importsFrom 0 (closeImport start s.record.names s.string (s.closing ts)).2).map Import.bare = _
  rw [hrecord, importsFrom_closeImport, s.importsFrom_closing]

end Graft.Script
