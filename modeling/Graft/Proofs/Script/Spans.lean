import Graft.Proofs.Script.Rereading
import Mathlib.Data.List.Basic

/-
Where tokens stand.

* `width ps` — how many characters pieces take;
* `Token.bare` — a token without its offset;
* `exists_pieces_of_tokensFrom` — the pieces before a token and after it;
* `tokens_take_start`, `tokens_take_stop` — **what stands before a token, and with it, is cut into
  the same tokens when it stands alone**;
* `tokens_eq_of_between` — the tokens on both sides of a place between pieces.

Design notes: offsets only ever grow along a script, so that one token stands before another is a
comparison of offsets; all else about tokens is stated without them.
-/
namespace Graft.Script

/-! ### Widths and offsets -/

/-- How many characters pieces take. -/
def width (ps : List Piece) : Nat := (ps.flatMap Piece.text).length

theorem width_append (A B : List Piece) : width (A ++ B) = width A + width B := by
  rw [width, List.flatMap_append, List.length_append]
  rfl

theorem width_cons (p : Piece) (ps : List Piece) : width (p :: ps) = p.text.length + width ps := by
  rw [width, List.flatMap_cons, List.length_append]
  rfl

theorem width_pieces (t : Text) : width (pieces t) = t.length := by
  rw [width, text_pieces]

theorem tokensFrom_append (n : Nat) (A B : List Piece) :
    tokensFrom n (A ++ B) = tokensFrom n A ++ tokensFrom (n + width A) B := by
  induction A generalizing n with
  | nil => rfl
  | cons p ps ih =>
    rw [width_cons, ← Nat.add_assoc]
    cases p with
    | gap t => exact ih _
    | token k t => exact congrArg _ (ih _)

/-- The pieces before a token, and those after it. -/
theorem exists_pieces_of_tokensFrom {n : Nat} {ps : List Piece} {L R : List Token} {t : Token}
    (h : tokensFrom n ps = L ++ t :: R) : ∃ A B, ps = A ++ .token t.kind t.text :: B ∧
      tokensFrom n A = L ∧ n + width A = t.start ∧ tokensFrom t.stop B = R := by
  induction ps generalizing n L with
  | nil => simp [tokensFrom] at h
  | cons p ps ih =>
    cases p with
    | gap x =>
      obtain ⟨A, B, hps, hL, hstart, hR⟩ := ih h
      refine ⟨.gap x :: A, B, ?_, hL, ?_, hR⟩
      · rw [hps]
        rfl
      · rw [width_cons, ← hstart, ← Nat.add_assoc]
        rfl
    | token k x =>
      cases L with
      | nil =>
        rw [tokensFrom, List.nil_append, List.cons.injEq] at h
        obtain ⟨rfl, hR⟩ := h
        exact ⟨[], ps, rfl, rfl, rfl, hR⟩
      | cons l ls =>
        rw [tokensFrom, List.cons_append, List.cons.injEq] at h
        obtain ⟨A, B, hps, hL, hstart, hR⟩ := ih h.2
        refine ⟨.token k x :: A, B, ?_, ?_, ?_, hR⟩
        · rw [hps]
          rfl
        · rw [tokensFrom, hL, h.1]
        · rw [width_cons, ← hstart, ← Nat.add_assoc]
          rfl

theorem le_start_of_mem {n : Nat} {ps : List Piece} {t : Token} (h : t ∈ tokensFrom n ps) :
    n ≤ t.start := by
  obtain ⟨L, R, hsplit⟩ := List.append_of_mem h
  obtain ⟨A, B, -, -, hstart, -⟩ := exists_pieces_of_tokensFrom hsplit
  omega

theorem stop_le_of_mem {n : Nat} {ps : List Piece} {t : Token} (h : t ∈ tokensFrom n ps) :
    t.stop ≤ n + width ps := by
  obtain ⟨L, R, hsplit⟩ := List.append_of_mem h
  obtain ⟨A, B, hps, -, hstart, -⟩ := exists_pieces_of_tokensFrom hsplit
  have hwidth : width ps = width A + (t.text.length + width B) := by
    rw [hps, width_append, width_cons]
    rfl
  rw [Token.stop]
  omega

/-! ### Tokens without offsets -/

/-- A token without its offset. -/
def Token.bare (t : Token) : Token := { t with start := 0 }

theorem bare_tokensFrom (n m : Nat) (ps : List Piece) :
    (tokensFrom n ps).map Token.bare = (tokensFrom m ps).map Token.bare := by
  induction ps generalizing n m with
  | nil => rfl
  | cons p ps ih =>
    cases p with
    | gap t => exact ih _ _
    | token k t =>
      rw [tokensFrom, tokensFrom, List.map_cons, List.map_cons, ih (n + t.length) (m + t.length)]
      rfl

/-- The tokens of a script without their offsets. -/
def bareTokens (t : Text) : List Token := (tokens t).map Token.bare

theorem bareTokens_append {a b : Text} (h : pieces (a ++ b) = pieces a ++ pieces b) :
    bareTokens (a ++ b) = bareTokens a ++ bareTokens b := by
  rw [bareTokens, tokens, h, tokensFrom_append, List.map_append,
    bare_tokensFrom (0 + width (pieces a)) 0]
  rfl

/-! ### The place of a token -/

theorem start_lt_stop {source : Text} {t : Token} (h : t ∈ tokens source) : t.start < t.stop := by
  obtain ⟨L, R, hsplit⟩ := List.append_of_mem h
  obtain ⟨A, B, hps, -, -, -⟩ := exists_pieces_of_tokensFrom hsplit
  have hne : t.text ≠ [] := piece_text_ne_nil (p := .token t.kind t.text) (by rw [hps]; simp)
  have hpos := List.length_pos_iff.mpr hne
  rw [Token.stop]
  omega

variable {source : Text} {L R : List Token} {t : Token}

/-- What stands before a token is cut into the same tokens when it stands alone. -/
theorem tokens_take_start (hc : Closed source) (h : tokens source = L ++ t :: R) :
    Between source t.start ∧ tokens (source.take t.start) = L := by
  obtain ⟨A, B, hps, hL, hstart, hR⟩ := exists_pieces_of_tokensFrom h
  rw [Nat.zero_add] at hstart
  rw [← hstart]
  refine ⟨between_of_pieces hc hps, ?_⟩
  rw [tokens, width, (pieces_take_of_pieces hc hps).1, hL]

/-- Tokens stand in the order of their offsets. -/
theorem stop_le_start {u : Token} {M : List Token} (h : tokens source = L ++ t :: (M ++ u :: R)) :
    t.stop ≤ u.start := by
  obtain ⟨A, B, -, -, -, hR⟩ := exists_pieces_of_tokensFrom h
  have hmem : u ∈ tokensFrom t.stop B := by
    rw [hR]
    simp
  exact le_start_of_mem hmem

theorem stop_le_length (h : t ∈ tokens source) : t.stop ≤ source.length := by
  have := stop_le_of_mem h
  rwa [Nat.zero_add, width_pieces] at this

/-- The text from a token on begins with the token. -/
theorem drop_start (h : tokens source = L ++ t :: R) :
    ∃ rest, source.drop t.start = t.text ++ rest := by
  obtain ⟨A, B, hps, -, hstart, -⟩ := exists_pieces_of_tokensFrom h
  refine ⟨B.flatMap Piece.text, ?_⟩
  have htext : source = A.flatMap Piece.text ++ (t.text ++ B.flatMap Piece.text) := by
    rw [← text_pieces source, hps, List.flatMap_append, List.flatMap_cons]
    rfl
  have hlen : (A.flatMap Piece.text).length = t.start := by
    rw [← hstart, Nat.zero_add]
    rfl
  rw [htext]
  exact List.drop_left' hlen

/-- The pieces on both sides of the end of a token. -/
theorem exists_pieces_of_tokens (hc : Closed source) (h : tokens source = L ++ t :: R) :
    ∃ A B, Between source t.stop ∧ pieces (source.take t.stop) = A ++ [.token t.kind t.text] ∧
      pieces (source.drop t.stop) = B ∧ tokensFrom 0 A = L ∧ width A = t.start ∧
      tokensFrom t.stop B = R := by
  obtain ⟨A, B, hps, hL, hstart, hR⟩ := exists_pieces_of_tokensFrom h
  rw [Nat.zero_add] at hstart
  have hsplit : pieces source = (A ++ [.token t.kind t.text]) ++ B := by
    rw [hps, List.append_assoc]
    rfl
  have hstop : t.stop = ((A ++ [Piece.token t.kind t.text]).flatMap Piece.text).length := by
    rw [Token.stop, ← hstart, ← width, width_append]
    simp [width, Piece.text]
  obtain ⟨hA, hB⟩ := pieces_take_of_pieces hc hsplit
  refine ⟨A, B, ?_, ?_, ?_, hL, hstart, hR⟩
  · rw [hstop]
    exact between_of_pieces hc hsplit
  · rw [hstop, hA]
  · rw [hstop, hB]

/-- What stands before the end of a token is cut into the same tokens when it stands alone. -/
theorem tokens_take_stop (hc : Closed source) (h : tokens source = L ++ t :: R) :
    Between source t.stop ∧ tokens (source.take t.stop) = L ++ [t] := by
  obtain ⟨A, B, hb, hA, -, hL, hstart, -⟩ := exists_pieces_of_tokens hc h
  refine ⟨hb, ?_⟩
  rw [tokens, hA, tokensFrom_append, hL, Nat.zero_add, hstart]
  rfl

/-- The text after a token does not go on with an identifier character when the next token does not
begin with one. -/
theorem head_drop_stop (hc : Closed source) {y : Token}
    (hmark : ∀ d ∈ y.text.head?, isIdentChar d = false) (h : tokens source = L ++ t :: y :: R) :
    ∀ d ∈ (source.drop t.stop).head?, isIdentChar d = false := by
  obtain ⟨A, B, -, -, hB, -, -, hR⟩ := exists_pieces_of_tokens hc h
  intro d hd
  rw [← text_pieces (source.drop t.stop), hB] at hd
  cases B with
  | nil => cases hd
  | cons b bs =>
    have hmem : b ∈ pieces (source.drop t.stop) := by
      rw [hB]
      exact List.mem_cons_self
    rw [List.flatMap_cons] at hd
    cases b with
    | gap x =>
      obtain ⟨c, cs, rfl, hcs⟩ := gap_head hmem
      rw [← Option.some.inj hd]
      exact hcs
    | token k x =>
      rw [tokensFrom, List.cons.injEq] at hR
      have hx : x ≠ [] := piece_text_ne_nil hmem
      rw [Piece.text, List.head?_append_of_ne_nil _ hx] at hd
      exact hmark d (by rw [← hR.1]; exact hd)

/-- The tokens on both sides of a place between pieces. -/
theorem tokens_eq_of_between {n : Nat} (hn : n ≤ source.length) (h : Between source n) :
    tokens source = tokens (source.take n) ++ tokensFrom n (pieces (source.drop n)) := by
  have hwidth : width (pieces (source.take n)) = n := by
    rw [width_pieces, List.length_take, Nat.min_eq_left hn]
  rw [tokens, h, tokensFrom_append, Nat.zero_add, hwidth]
  rfl

end Graft.Script
