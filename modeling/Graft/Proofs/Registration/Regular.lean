import Graft.Proofs.Registration.Preservation

/-
Hosts in which nothing but a comment follows the last import on its line.

* `QuietLine source n` — the rest of the line holds only white space, and perhaps a line comment;
* `Regular source` — a closed host whose last import ends on a quiet line;
* `Foothold source n A M` — a place where a statement may be put, and the tokens before and after it;
* `Regular.foothold` — **the end of the line of the last import is one**;
* `Regular.hasRoom` — a regular host has room.
-/
namespace Graft.Registration

open Script

/-- The rest of the line after an offset holds only white space, and perhaps a line comment. -/
def QuietLine (source : Text) (n : Nat) : Prop :=
  let rest := ((source.drop n).takeWhile (· != '\n')).dropWhile isSpace
  rest = [] ∨ rest.take 2 = ['/', '/']

instance (source : Text) (n : Nat) : Decidable (QuietLine source n) :=
  inferInstanceAs (Decidable (_ ∨ _))

/-- A closed host in which nothing but a comment follows the last import on its line. -/
structure Regular (source : Text) : Prop where
  -- Every string, template literal and block comment is closed.
  closed : Closed source
  -- The line of the last import ends quietly.
  quiet : ∀ s ∈ (imports (tokens source)).getLast?, QuietLine source s.stop

/-- A host with an import, a comment behind it, and a list over several lines. -/
def lengthyHost : Text :=
  ("import \x7b A \x7d from './a'; // own\n\n@NgModule(\x7b\n  declarations: [\n    A,\n  ],\n\x7d)\n" ++
    "export class M \x7b\x7d").toList

theorem lengthyHost_regular : Regular lengthyHost := by
  have hlast : (imports (tokens lengthyHost)).getLast?.map Import.stop = some 24 := by decide +kernel
  have hquiet : QuietLine lengthyHost 24 := by decide +kernel
  refine ⟨by decide +kernel, fun s hs => ?_⟩
  rw [Option.mem_def.mp hs] at hlast
  rwa [Option.some.inj hlast]

/-! ### Quiet lines -/

variable {source : Text} {n : Nat}

/-- A piece that is no token. -/
def IsGap (p : Piece) : Prop := ∃ t, p = .gap t

theorem tokensFrom_gaps {ps : List Piece} (h : ∀ p ∈ ps, IsGap p) (n : Nat) :
    tokensFrom n ps = [] := by
  induction ps generalizing n with
  | nil => rfl
  | cons p ps ih =>
    obtain ⟨⟨t, rfl⟩, hps⟩ := List.forall_mem_cons.mp h
    exact ih hps _

theorem pieces_comment {c tail : Text} (hc : ∀ d ∈ c, (d != '\n') = true)
    (htail : ∀ d ∈ tail.head?, (d != '\n') = false) :
    pieces ('/' :: '/' :: (c ++ tail)) = .gap ('/' :: '/' :: c) :: pieces tail := by
  have hslash : firstPiece '/' ('/' :: (c ++ tail)) =
      Piece.ofGap ['/', '/'] (passWhile (· != '\n') (c ++ tail)) := rfl
  rw [pieces_cons, hslash, passWhile_append_of hc htail]
  rfl

/-- On a quiet line there are only gaps. -/
theorem pieces_line {line tail : Text} (hline : ∀ d ∈ line, (d != '\n') = true)
    (htail : ∀ d ∈ tail.head?, (d != '\n') = false)
    (h : line.dropWhile isSpace = [] ∨ (line.dropWhile isSpace).take 2 = ['/', '/']) :
    ∃ gaps, pieces (line ++ tail) = gaps ++ pieces tail ∧ ∀ p ∈ gaps, IsGap p := by
  have hblank : ∀ c ∈ line.takeWhile isSpace, isSpace c = true := fun c hc =>
    List.mem_takeWhile_imp hc
  have hrest : ∀ d ∈ line.dropWhile isSpace, (d != '\n') = true := fun d hd =>
    hline d ((List.dropWhile_sublist _).subset hd)
  have hspaces : ∀ p ∈ (line.takeWhile isSpace).map fun c => Piece.gap [c], IsGap p := by
    intro p hp
    obtain ⟨c, -, rfl⟩ := List.mem_map.mp hp
    exact ⟨_, rfl⟩
  have hsplit : line = line.takeWhile isSpace ++ line.dropWhile isSpace :=
    List.takeWhile_append_dropWhile.symm
  generalize line.takeWhile isSpace = blank at hblank hspaces hsplit
  generalize line.dropWhile isSpace = rest at h hrest hsplit
  rw [hsplit, List.append_assoc, pieces_spaces hblank]
  rcases h with rfl | h
  · exact ⟨_, rfl, hspaces⟩
  · obtain ⟨c, rfl⟩ : ∃ c, rest = '/' :: '/' :: c := by
      match rest, h with
      | a :: b :: c, h =>
        obtain ⟨rfl, hb⟩ := List.cons.inj h
        exact ⟨c, by rw [List.head_eq_of_cons_eq hb]⟩
    have hc : ∀ d ∈ c, (d != '\n') = true := fun d hd =>
      hrest d (List.mem_cons_of_mem _ (List.mem_cons_of_mem _ hd))
    refine ⟨blank.map (fun c => .gap [c]) ++ [.gap ('/' :: '/' :: c)], ?_, fun p hp => ?_⟩
    · rw [List.cons_append, List.cons_append, pieces_comment hc htail, List.append_assoc]
      rfl
    · rcases List.mem_append.mp hp with hp | hp
      · exact hspaces p hp
      · exact ⟨_, List.mem_singleton.mp hp⟩

theorem drop_lineEnd (source : Text) (n : Nat) :
    source.drop (lineEnd source n) = (source.drop n).dropWhile (· != '\n') := by
  have hsplit := List.takeWhile_append_dropWhile (p := (· != '\n')) (l := source.drop n)
  have hdrop := congrArg (List.drop ((source.drop n).takeWhile (· != '\n')).length) hsplit
  rw [List.drop_left] at hdrop
  rw [lineEnd, ← List.drop_drop, ← hdrop]

/-- The end of a quiet line is a place between pieces, and no token stands before it on the line. -/
theorem QuietLine.between (h : QuietLine source n) (hc : Closed source) (hn : n ≤ source.length)
    (hb : Between source n) : Between source (lineEnd source n) ∧
      tokens (source.take (lineEnd source n)) = tokens (source.take n) := by
  have hsplit := List.takeWhile_append_dropWhile (p := (· != '\n')) (l := source.drop n)
  have hline : ∀ d ∈ (source.drop n).takeWhile (· != '\n'), (d != '\n') = true := fun d hd =>
    List.mem_takeWhile_imp (p := (· != '\n')) hd
  obtain ⟨gaps, hgaps, hgap⟩ :=
    pieces_line hline (takeWhile_stops (· != '\n') (source.drop n)) h
  have hpieces : pieces source = (pieces (source.take n) ++ gaps) ++
      pieces (source.drop (lineEnd source n)) := by
    rw [hsplit, ← drop_lineEnd] at hgaps
    rw [List.append_assoc, ← hgaps]
    exact hb
  -- The pieces before the end of the line take as much text as stands before it.
  have hwidth : ((pieces (source.take n) ++ gaps).flatMap Piece.text).length = lineEnd source n := by
    have hall := congrArg (fun ps => (ps.flatMap Piece.text).length) hpieces
    have hle := lineEnd_le hn
    simp only [List.flatMap_append, List.length_append, text_pieces, List.length_drop] at hall ⊢
    omega
  have hbetween := between_of_pieces hc hpieces
  have htake := (pieces_take_of_pieces hc hpieces).1
  rw [hwidth] at hbetween htake
  refine ⟨hbetween, ?_⟩
  rw [tokens, htake, tokensFrom_append, tokensFrom_gaps hgap, List.append_nil]
  rfl

/-! ### Places for statements -/

/-- A place where no group goes on is outside of every bracket pair. -/
theorem outside_of_shut {A M : List Token} (hn : n ≤ source.length) (hb : Between source n)
    (hts : tokens source = A ++ M) (htake : tokens (source.take n) = A) (h : Shut A M) :
    Outside (tokens source) n := by
  have hM : M = tokensFrom n (pieces (source.drop n)) := by
    have := tokens_eq_of_between hn hb
    rw [hts, htake] at this
    exact List.append_cancel_left this
  have hlater {o : Token} (ho : o ∈ M) : n ≤ o.start := le_start_of_mem (by rwa [hM] at ho)
  intro before o rest g heq hg
  rw [hts] at heq
  rcases List.append_eq_append_iff.mp heq with ⟨y, -, hy⟩ | ⟨y, hA, hy⟩
  · exact .inl (hlater (by rw [hy]; simp))
  · cases y with
    | nil => exact .inl (hlater (by rw [List.nil_append] at hy; rw [← hy]; simp))
    | cons u X =>
      obtain ⟨rfl, rfl⟩ := List.cons.inj hy
      obtain ⟨Y, rfl⟩ := h before o X g hA hg
      have hmem : g.closing ∈ tokens (source.take n) := by
        rw [htake, hA]
        simp
      exact .inr ((stop_le_length hmem).trans (List.length_take_le _ _))

/-- A place where a statement may be put, with the tokens before and after it. -/
structure Foothold (source : Text) (n : Nat) (A M : List Token) : Prop where
  -- The place is outside of everything.
  clear : Clear source n
  -- The tokens before the place, and those after it.
  eq : tokens source = A ++ M
  -- The text before the place has the tokens before it.
  take : tokens (source.take n) = A
  -- The place is behind a statement, or at the start.
  seam : Seam A M
  -- No statement stands behind the place.
  later : imports M = []
  -- What stands behind the place instead is read from the start.
  anew : ∀ N, Unclosed A M N → (∀ x ∈ N.head?, x.isMark ';' = false) →
    imports (A ++ N) = imports (tokens source) ++ imports N

theorem foothold_zero (h : imports (tokens source) = []) :
    Foothold source 0 [] (tokens source) where
  clear := ⟨between_zero source, outside_zero _⟩
  eq := rfl
  take := by
    rw [List.take_zero, tokens, pieces_nil]
    rfl
  seam := seam_nil _
  later := h
  anew N _ _ := by
    rw [h]
    rfl

/-- **The end of the line of the last import is a place for a statement.** -/
theorem Regular.foothold (h : Regular source) {s : Import}
    (hs : s ∈ (imports (tokens source)).getLast?) :
    ∃ A M, Foothold source (lineEnd source s.stop) A M := by
  obtain ⟨P, hP⟩ := List.getLast?_eq_some_iff.mp hs
  obtain ⟨A, t, M, hlast⟩ := exists_last_statement hP
  have hn : s.stop ≤ source.length := (isQuote_of_mem_imports (List.mem_of_getLast? hs)).2
  obtain ⟨hb, htake⟩ := tokens_take_stop h.closed hlast.eq
  rw [hlast.stop] at hb htake
  obtain ⟨hb', htake'⟩ := (h.quiet s hs).between h.closed hn hb
  rw [htake] at htake'
  have hts : tokens source = (A ++ [t]) ++ M := by
    rw [hlast.eq]
    simp
  obtain ⟨pre, hpre, hshut⟩ := exists_shut_of_skips hlast.skips
  obtain rfl : A ++ [t] = pre := List.append_cancel_right (hts.symm.trans hpre)
  refine ⟨A ++ [t], M, ⟨hb', outside_of_shut (lineEnd_le hn) hb' hts htake' hshut⟩, hts, htake',
    ⟨hshut, fun u hu => ?_⟩, hlast.later, fun N hN hhead => ?_⟩
  · rw [List.getLast?_concat] at hu
    rw [← Option.some.inj hu]
    exact hlast.kind
  · rw [List.append_assoc]
    exact hlast.anew N hN hhead

theorem Regular.hasRoom (h : Regular source) (symbol : Text) : HasRoom source symbol := by
  intro _ s hs
  obtain ⟨A, M, hfoothold⟩ := h.foothold hs
  exact hfoothold.clear

/-- A regular host stays closed when it is patched. -/
theorem Regular.closed_patched {r : Request} (h : Regular source) (hs : IsSymbol r.symbol)
    (hp : IsSpecifier r.importPath) {u : Text} (hu : patched? source r = .ok u) : Closed u := by
  rw [patched?] at hu
  cases hplan : plan source r with
  | error m =>
    rw [hplan] at hu
    cases hu
  | ok es =>
    rw [hplan] at hu
    obtain ⟨d, list, hd, hlist, hes⟩ := plan_eq_ok hplan
    obtain ⟨hsits, hdistinct⟩ := plan_sits h.closed hs hp (h.hasRoom r.symbol) hd hlist hes
    cases hmade : Insertion.applyAll source es with
    | error e =>
      simp only [hmade] at hu
      cases hu
    | ok t =>
      simp only [hmade] at hu
      obtain rfl := Except.ok.inj hu
      exact closed_of_sits h.closed hsits hdistinct hmade

end Graft.Registration
