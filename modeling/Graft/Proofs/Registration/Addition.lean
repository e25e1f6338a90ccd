import Graft.Proofs.Registration.Splice
import Graft.Registration.Plan

/-
What a registration adds to a script: import statements and entries.

* `IsSymbol s`, `IsSpecifier p` — the names and the import paths that stand for themselves;
* `importRun`, `pieces_importLine` — the tokens of an import statement;
* `IsEntry t`, `isEntry_symbol`, `isEntry_list` — what is added to a list, and what that asks for;
* `Separator lead` — what stands before a new entry.
-/
namespace Graft.Registration

open Script

/-! ### Requests -/

/-- A name that may be registered. -/
structure IsSymbol (s : Text) : Prop where
  nonempty : s ≠ []
  -- It holds identifier characters only.
  chars : ∀ c ∈ s, isIdentChar c = true
  -- It is not the word that binds nothing in an import.
  notType : s ≠ "type".toList

/-- An import path without quotes, backslashes and newlines. -/
def IsSpecifier (p : Text) : Prop := ∀ c ∈ p, isQuote c = false ∧ c ≠ '\\' ∧ c ≠ '\n'

instance (p : Text) : Decidable (IsSpecifier p) := List.decidableBAll _ _

/-! ### Pieces of what is written -/

theorem pieces_space {c : Char} (h : isSpace c = true) (rest : Text) :
    pieces (c :: rest) = .gap [c] :: pieces rest := by
  rw [pieces_cons, firstPiece_space h]

theorem pieces_spaces {s : Text} (h : ∀ c ∈ s, isSpace c = true) (rest : Text) :
    pieces (s ++ rest) = s.map (fun c => .gap [c]) ++ pieces rest := by
  induction s with
  | nil => rfl
  | cons c cs ih =>
    obtain ⟨hc, hcs⟩ := List.forall_mem_cons.mp h
    rw [List.cons_append, pieces_space hc, ih hcs]
    rfl

theorem pieces_mark {c : Char} (h : isPlainMark c = true) (rest : Text) :
    pieces (c :: rest) = .token .punct [c] :: pieces rest := by
  rw [pieces_cons, firstPiece_mark h]

theorem head_not_ident {c : Char} (h : isIdentChar c = false) (t : Text) :
    ∀ d ∈ (c :: t).head?, isIdentChar d = false := by
  intro d hd
  rw [← Option.some.inj hd]
  exact h

theorem pieces_word {w rest : Text} (hne : w ≠ []) (h : ∀ c ∈ w, isIdentChar c = true)
    (hrest : ∀ d ∈ rest.head?, isIdentChar d = false) :
    pieces (w ++ rest) = .token .ident w :: pieces rest := by
  cases w with
  | nil => exact absurd rfl hne
  | cons c cs =>
    obtain ⟨hc, hcs⟩ := List.forall_mem_cons.mp h
    rw [List.cons_append, pieces_cons, firstPiece_ident hc, passWhile_append_of hcs hrest]
    rfl

theorem closesString_specifier {q : Char} (hq : isQuote q = true) {p : Text} (hp : IsSpecifier p) :
    closesString q (p ++ [q]) = true := by
  induction p with
  | nil =>
    have hne : q ≠ '\\' := by
      rintro rfl
      cases hq
    rw [List.nil_append, closesString]
    · simp
    · exact fun h => absurd h hne
    · exact fun _ _ h => absurd h hne
  | cons c cs ih =>
    obtain ⟨hc, hcs⟩ := List.forall_mem_cons.mp hp
    have hne : c ≠ q := by
      rintro rfl
      rw [hq] at hc
      cases hc.1
    rw [List.cons_append, closesString]
    · rw [if_neg hne, ih hcs, Bool.and_true, bne_iff_ne]
      exact hc.2.2
    · exact fun h => absurd h hc.2.1
    · exact fun _ _ h => absurd h hc.2.1

theorem pieces_string {q : Char} (hq : isQuote q = true) {p : Text} (hp : IsSpecifier p)
    (rest : Text) : pieces (q :: (p ++ q :: rest)) =
      .token .string (q :: (p ++ [q])) :: pieces rest := by
  have hpass := passString_of_closes (closesString_specifier hq hp) rest
  rw [List.append_assoc, List.singleton_append] at hpass
  rw [pieces_cons, firstPiece_quote hq, hpass]
  rfl

/-! ### Import statements -/

/-- A mark, without an offset. -/
def markToken (c : Char) : Token := ⟨.punct, 0, [c]⟩

/-- A word, without an offset. -/
def wordToken (w : Text) : Token := ⟨.ident, 0, w⟩

/-- The tokens of an import statement for one name. -/
def importRun (symbol path : Text) (quote : Char) : List Token :=
  [wordToken "import".toList, markToken '{', wordToken symbol, markToken '}',
    wordToken "from".toList, ⟨.string, 0, quote :: (path ++ [quote])⟩, markToken ';']

/-- The pieces of an import statement for one name. -/
def importPieces (symbol path : Text) (quote : Char) : List Piece :=
  [.token .ident "import".toList, .gap [' '], .token .punct ['{'], .gap [' '],
    .token .ident symbol, .gap [' '], .token .punct ['}'], .gap [' '],
    .token .ident "from".toList, .gap [' '], .token .string (quote :: (path ++ [quote])),
    .token .punct [';']]

/-- The pieces of an import statement for one name, up to the string. -/
def importHead (symbol : Text) : List Piece :=
  [.token .ident "import".toList, .gap [' '], .token .punct ['{'], .gap [' '],
    .token .ident symbol, .gap [' '], .token .punct ['}'], .gap [' '],
    .token .ident "from".toList, .gap [' ']]

variable {s p : Text} {q : Char}

theorem pieces_importHead (hne : s ≠ []) (hs : ∀ c ∈ s, isIdentChar c = true) (t : Text) :
    pieces ("import \x7b ".toList ++ s ++ " \x7d from ".toList ++ t) = importHead s ++ pieces t := by
  have htext : "import \x7b ".toList ++ s ++ " \x7d from ".toList ++ t = "import".toList ++ ' ' :: '{' :: ' ' ::
      (s ++ ' ' :: '}' :: ' ' :: ("from".toList ++ ' ' :: t)) := by
    -- The literals are kept opaque: reducing them is slow.
    have happend (a b i f : Text) (ha : a = i ++ [' ', '{', ' '])
        (hb : b = [' ', '}', ' '] ++ (f ++ [' '])) :
        a ++ s ++ b ++ t = i ++ ' ' :: '{' :: ' ' :: (s ++ ' ' :: '}' :: ' ' :: (f ++ ' ' :: t)) := by
      rw [ha, hb]
      simp only [List.append_assoc, List.cons_append, List.nil_append]
    exact happend _ _ _ _ rfl rfl
  have hspace {t : Text} := head_not_ident (c := ' ') (by decide) t
  rw [htext, pieces_word (by decide) (List.all_eq_true.mp (by decide)) hspace, pieces_space (by decide),
    pieces_mark (by decide), pieces_space (by decide), pieces_word hne hs hspace,
    pieces_space (by decide), pieces_mark (by decide), pieces_space (by decide),
    pieces_word (by decide) (List.all_eq_true.mp (by decide)) hspace, pieces_space (by decide)]
  rfl

/-- What an import statement says before its string, and the string with what follows. -/
theorem importLine_append (s p : Text) (q : Char) (rest : Text) : importLine s p q ++ rest =
    "import \x7b ".toList ++ s ++ " \x7d from ".toList ++ q :: (p ++ q :: ';' :: rest) := by
  have happend (a b : Text) : a ++ s ++ b ++ q :: p ++ [q, ';'] ++ rest =
      a ++ s ++ b ++ q :: (p ++ q :: ';' :: rest) := by
    simp only [List.append_assoc, List.cons_append, List.nil_append]
  exact happend _ _

theorem pieces_importLine (hs : IsSymbol s) (hp : IsSpecifier p) (hq : isQuote q = true)
    (rest : Text) : pieces (importLine s p q ++ rest) = importPieces s p q ++ pieces rest := by
  rw [importLine_append, pieces_importHead hs.nonempty hs.chars, pieces_string hq hp,
    pieces_mark (by decide)]
  rfl

theorem importPieces_closed (hp : IsSpecifier p) (hq : isQuote q = true) :
    ∀ x ∈ importPieces s p q, x.isClosed = true := by
  have hstring : Piece.isClosed (.token .string (q :: (p ++ [q]))) = true :=
    closesString_specifier hq hp
  intro x hx
  simp only [importPieces, List.mem_cons, List.not_mem_nil, or_false] at hx
  rcases hx with rfl | rfl | rfl | rfl | rfl | rfl | rfl | rfl | rfl | rfl | rfl | rfl
  all_goals first | exact hstring | rfl

/-! ### Entries -/

/-- What may be added to a list: it is closed, begins with an identifier, and reads on at identifier
characters only. -/
structure IsEntry (t : Text) : Prop where
  -- It begins with an identifier character.
  head : ∃ c cs, t = c :: cs ∧ isIdentChar c = true
  closed : Closed t
  -- It reads on at identifier characters only.
  last : ∀ x ∈ (pieces t).getLast?, ∀ d, isIdentChar d = false → x.reads d = false

theorem isEntry_symbol (hs : IsSymbol s) :
    IsEntry s ∧ bareTokens s = [wordToken s] := by
  have hpieces : pieces s = [.token .ident s] := by
    have h : pieces (s ++ []) = _ := pieces_word hs.nonempty hs.chars (by simp)
    rwa [List.append_nil, pieces_nil] at h
  refine ⟨⟨?_, ?_, ?_⟩, ?_⟩
  · obtain ⟨c, cs, rfl⟩ := List.exists_cons_of_ne_nil hs.nonempty
    exact ⟨c, cs, rfl, hs.chars c List.mem_cons_self⟩
  · intro x hx
    rw [hpieces, List.mem_singleton] at hx
    rw [hx]
    rfl
  · intro x hx d hd
    rw [hpieces] at hx
    obtain rfl : Piece.token .ident s = x := Option.some.inj hx
    exact hd
  · rw [bareTokens, tokens, hpieces]
    rfl

/-- A list under a key, with one name. -/
def listText (key symbol : Text) : Text := key ++ ": [".toList ++ symbol ++ [']']

/-- The tokens of a list under a key, with one name. -/
def listRun (key symbol : Text) : List Token :=
  [wordToken key, markToken ':', markToken '[', wordToken symbol, markToken ']']

theorem isEntry_list (hs : IsSymbol s) (r : Role) :
    IsEntry (listText r.property s) ∧ bareTokens (listText r.property s) = listRun r.property s := by
  have hkey : ∀ c ∈ r.property, isIdentChar c = true := by
    cases r <;> exact List.all_eq_true.mp (by decide)
  have hne : r.property ≠ [] := by cases r <;> decide
  generalize r.property = key at hkey hne
  have hpieces : pieces (listText key s) = [.token .ident key, .token .punct [':'], .gap [' '],
      .token .punct ['['], .token .ident s, .token .punct [']']] := by
    have htext : listText key s = key ++ ':' :: ' ' :: '[' :: (s ++ [']']) := by
      have hopen : ": [".toList = [':', ' ', '['] := rfl
      rw [listText, hopen, List.append_assoc, List.append_assoc]
      rfl
    rw [htext, pieces_word hne hkey (head_not_ident (by decide) _), pieces_mark (by decide),
      pieces_space (by decide), pieces_mark (by decide),
      pieces_word hs.nonempty hs.chars (head_not_ident (by decide) _), pieces_mark (by decide),
      pieces_nil]
  refine ⟨⟨?_, ?_, ?_⟩, ?_⟩
  · obtain ⟨c, cs, rfl⟩ := List.exists_cons_of_ne_nil hne
    exact ⟨c, _, rfl, hkey c List.mem_cons_self⟩
  · intro x hx
    rw [hpieces] at hx
    simp only [List.mem_cons, List.not_mem_nil, or_false] at hx
    rcases hx with rfl | rfl | rfl | rfl | rfl | rfl <;> rfl
  · intro x hx d _
    rw [hpieces] at hx
    obtain rfl : Piece.token .punct [']'] = x := Option.some.inj hx
    exact reads_mark (by decide)
  · rw [bareTokens, tokens, hpieces]
    rfl

/-- What stands before a new entry: nothing, or a comma and white space. -/
def Separator (lead : Text) : Prop :=
  lead = [] ∨ ∃ blank, lead = ',' :: blank ∧ ∀ c ∈ blank, isSpace c = true

/-- The tokens of a separator. -/
def separatorRun (lead : Text) : List Token := if lead = [] then [] else [markToken ',']

theorem isClosed_space (c : Char) : Piece.isClosed (.gap [c]) = true := by
  unfold Piece.isClosed
  split <;> simp_all

theorem tokensFrom_spaces (n : Nat) (s : Text) (ps : List Piece) :
    (tokensFrom n (s.map (fun c => .gap [c]) ++ ps)).map Token.bare =
      (tokensFrom 0 ps).map Token.bare := by
  induction s generalizing n with
  | nil => exact bare_tokensFrom n 0 ps
  | cons c cs ih => exact ih _

theorem pieces_separator {lead : Text} (hl : Separator lead) (t : Text) :
    pieces (lead ++ t) = pieces lead ++ pieces t ∧ (∀ x ∈ pieces lead, x.isClosed = true) ∧
      bareTokens (lead ++ t) = separatorRun lead ++ bareTokens t := by
  rcases hl with rfl | ⟨blank, rfl, hblank⟩
  · rw [List.nil_append, pieces_nil]
    exact ⟨rfl, by simp, rfl⟩
  · have hlead : pieces (',' :: blank) =
        .token .punct [','] :: blank.map fun c => .gap [c] := by
      have h := pieces_spaces hblank []
      rw [List.append_nil, pieces_nil, List.append_nil] at h
      rw [pieces_mark (by decide), h]
    have hwhole : pieces (',' :: blank ++ t) =
        .token .punct [','] :: (blank.map (fun c => .gap [c]) ++ pieces t) := by
      rw [List.cons_append, pieces_mark (by decide), pieces_spaces hblank]
    refine ⟨?_, ?_, ?_⟩
    · rw [hwhole, hlead]
      rfl
    · intro x hx
      rw [hlead, List.mem_cons, List.mem_map] at hx
      rcases hx with rfl | ⟨c, -, rfl⟩
      · rfl
      · exact isClosed_space c
    · rw [bareTokens, tokens, hwhole, tokensFrom, List.map_cons, tokensFrom_spaces, separatorRun,
        if_neg (List.cons_ne_nil _ _)]
      rfl

end Graft.Registration
