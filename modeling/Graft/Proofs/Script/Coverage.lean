import Graft.Proofs.Script.Spans
import Mathlib.Data.List.Pairwise

/-
What tokens leave out of a script, whatever the script.

* `Comment x rest` — a text that is a comment when `rest` follows it;
* `Piece.Fits p rest` — what a piece is when `rest` follows it;
* `firstPiece_fits` — every piece that is read is so;
* `placed n ps` — pieces with the offsets where they start;
* `Covering t ts comments` — tokens and comments that lie side by side and leave out white space only;
* `tokens_cover` — **the tokens of any script, with some comments, cover it**.

Design notes: an identifier has none before it because no piece ends inside a run of identifier
characters.  For a string and a template literal, which may hold anything, this is a matter of how they
end: at their closing mark, before the end of the line, or with the script (`passString_ends`,
`passFrames_ends`).
-/
namespace Graft.Script

/-! ### Comments -/

/-- A text that is a comment when `rest` follows it.  A line comment runs up to a newline or to the end;
a block comment runs through the first closing mark after its opening one, or to the end. -/
inductive Comment : Text → Text → Prop
  | line {body rest : Text} (hbody : '\n' ∉ body) (hrest : ∀ d ∈ rest.head?, d = '\n') :
    Comment ('/' :: '/' :: body) rest
  | block {body rest : Text} (hfirst : ¬ ['*', '/'] <:+: body ++ ['*']) :
    Comment ('/' :: '*' :: (body ++ ['*', '/'])) rest
  | unclosed {body : Text} (hnone : ¬ ['*', '/'] <:+: body) : Comment ('/' :: '*' :: body) []

theorem passComment_spec (t : Text) :
    (∃ body, (passComment t).1 = body ++ ['*', '/'] ∧ ¬ ['*', '/'] <:+: body ++ ['*']) ∨
      ((passComment t).2 = [] ∧ ¬ ['*', '/'] <:+: (passComment t).1) := by
  -- A mark that begins in front of a text ends with the first character of it.
  have hcons {c : Char} {u : Text} (hmark : ∀ v, c = '*' → u = '/' :: v → False)
      (hu : ¬ ['*', '/'] <:+: u) : ¬ ['*', '/'] <:+: c :: u := by
    rw [List.infix_cons_iff]
    rintro (⟨v, hv⟩ | hin)
    · exact hmark v (List.cons.inj hv).1.symm (List.cons.inj hv).2.symm
    · exact hu hin
  fun_induction passComment t with
  | case1 => exact .inr ⟨rfl, by decide⟩
  | case2 cs => exact .inl ⟨[], rfl, by decide⟩
  | case3 c cs hne ih =>
    have hpassed := passComment_append cs
    rcases ih with ⟨body, hbody, hfirst⟩ | ⟨hrest, hnone⟩
    · refine .inl ⟨c :: body, congrArg (c :: ·) hbody, hcons (fun v hc hv => ?_) hfirst⟩
      rcases body with _ | ⟨d, body⟩
      · cases hv
      · rw [hbody] at hpassed
        exact hne _ hc (by rw [← hpassed, (List.cons.inj hv).1]; rfl)
    · refine .inr ⟨hrest, hcons (fun v hc hv => ?_) hnone⟩
      rw [hv] at hpassed
      exact hne _ hc hpassed.symm

/-! ### How pieces end -/

theorem passString_ends (q : Char) (t : Text) :
    (passString q t).2 = [] ∨ (passString q t).2.head? = some '\n' ∨
      (passString q t).1.getLast? = some q := by
  have hlast {c : Char} {r : Text × Text} (h : r.1.getLast? = some q) :
      (passing c r).1.getLast? = some q := by
    show (c :: r.1).getLast? = some q
    rw [List.getLast?_cons, h]
    rfl
  fun_induction passString q t with
  | case1 => exact .inl rfl
  | case2 c cs ih => exact ih.imp_right (Or.imp_right fun h => hlast (hlast h))
  | case3 cs hesc => exact .inr (.inr rfl)
  | case4 cs hesc hq => exact .inr (.inl rfl)
  | case5 c cs hesc hq hnl ih => exact ih.imp_right (Or.imp_right hlast)

/-- Frames the outermost of which is a template end with a backtick, or with the script. -/
theorem passFrames_ends {fs : List Frame} {t : Text} (h : fs.getLast? = some .template) :
    (passFrames fs t).2 = [] ∨ (passFrames fs t).1.getLast? = some backtick := by
  have hlast {c : Char} {r : Text × Text} (h : r.1.getLast? = some backtick) :
      (passing c r).1.getLast? = some backtick := by
    show (c :: r.1).getLast? = some backtick
    rw [List.getLast?_cons, h]
    rfl
  -- A frame inside another leaves the outermost one as it is.
  have hinner {f : Frame} {fs : List Frame} (hfs : fs ≠ []) : (f :: fs).getLast? = fs.getLast? := by
    rw [List.getLast?_cons, List.getLast?_eq_getLast_of_ne_nil hfs]
    rfl
  have hopened {f g : Frame} {fs : List Frame} (h : (g :: fs).getLast? = some .template) :
      (f :: g :: fs).getLast? = some .template := (hinner (List.cons_ne_nil _ _)).trans h
  have hclosed {f : Frame} {fs : List Frame} (hf : f ≠ .template)
      (h : (f :: fs).getLast? = some .template) : fs.getLast? = some .template := by
    rcases fs with _ | ⟨g, fs⟩
    · exact absurd (Option.some.inj h) hf
    · exact (hinner (List.cons_ne_nil _ _)).symm.trans h
  fun_induction passFrames fs t with
  | case1 => cases h
  | case2 => exact .inl rfl
  | case3 fs c cs ih => exact (ih h).imp_right fun h => hlast (hlast h)
  | case4 fs cs ih => exact (ih (hopened h)).imp_right fun h => hlast (hlast h)
  | case5 fs cs hesc hsub ih =>
    rcases fs with _ | ⟨f, fs⟩
    · rw [passFrames]
      exact .inr rfl
    · exact (ih ((hinner (List.cons_ne_nil _ _)).symm.trans h)).imp_right hlast
  | case6 fs c cs hesc hsub hc ih => exact (ih h).imp_right hlast
  | case7 fs c cs hq ih => exact (ih (hopened h)).imp_right hlast
  | case8 fs cs hq ih => exact (ih (hopened h)).imp_right hlast
  | case9 fs cs hq hb ih => exact (ih (hopened h)).imp_right hlast
  | case10 fs cs hq hb ho ih => exact (ih (hclosed (by decide) h)).imp_right hlast
  | case11 fs c cs hq hb ho hc ih => exact (ih h).imp_right hlast
  | case12 q fs c cs ih => exact (ih h).imp_right fun h => hlast (hlast h)
  | case13 q fs c cs hesc hc ih => exact (ih (hclosed Frame.noConfusion h)).imp_right hlast
  | case14 q fs c cs hesc hc ih => exact (ih h).imp_right hlast

/-- What a piece is when `rest` follows it. -/
structure Piece.Fits (p : Piece) (rest : Text) : Prop where
  -- A gap is one white-space character or one comment.
  gap : ∀ x, p = .gap x → (∃ c, x = [c] ∧ isSpace c = true) ∨ Comment x rest
  ident : ∀ x, p = .token .ident x → ∀ c ∈ x, isIdentChar c = true
  -- No run of identifier characters goes on behind the piece.
  seam : ∀ c ∈ p.text.getLast?, isIdentChar c = true → ∀ d ∈ rest.head?, isIdentChar d = false

theorem seam_of_last {x rest : Text} {q : Char} (hq : isIdentChar q = false)
    (h : rest = [] ∨ rest.head? = some '\n' ∨ x.getLast? = some q) :
    ∀ c ∈ x.getLast?, isIdentChar c = true → ∀ d ∈ rest.head?, isIdentChar d = false := by
  intro c hc hident d hd
  rcases h with rfl | h | h
  · cases hd
  · obtain rfl : '\n' = d := Option.some.inj (h.symm.trans hd)
    decide
  · obtain rfl : q = c := Option.some.inj (h.symm.trans hc)
    rw [hq] at hident
    cases hident

theorem passSlash_fits (cs : Text) : (passSlash cs).1.Fits (passSlash cs).2 := by
  fun_cases passSlash cs with
  | case1 cs =>
    have hrest : ∀ d ∈ (cs.dropWhile (· != '\n')).head?, d = '\n' := fun d hd => by
      simpa using takeWhile_stops (· != '\n') cs d hd
    have hbody : '\n' ∉ cs.takeWhile (· != '\n') := fun h => by
      simpa using List.mem_takeWhile_imp h
    refine ⟨fun x hx => ?_, fun x hx => ?_, fun c _ _ d hd => ?_⟩
    · obtain rfl := Piece.gap.inj hx
      exact .inr (.line hbody hrest)
    · cases hx
    · rw [hrest d hd]
      decide
  | case2 cs =>
    rcases passComment_spec cs with ⟨body, hbody, hfirst⟩ | ⟨hrest, hnone⟩
    · have htext : (Piece.ofGap ['/', '*'] (passComment cs)).1 =
          .gap ('/' :: '*' :: (body ++ ['*', '/'])) :=
        congrArg (fun t => Piece.gap ('/' :: '*' :: t)) hbody
      rw [htext]
      refine ⟨fun x hx => ?_, fun x hx => ?_, seam_of_last (q := '/') (by decide) ?_⟩
      · obtain rfl := Piece.gap.inj hx
        exact .inr (.block hfirst)
      · cases hx
      · refine .inr (.inr ?_)
        show (['/', '*'] ++ (body ++ ['*', '/'])).getLast? = some '/'
        rw [List.getLast?_append_of_ne_nil _ (by simp), List.getLast?_append_of_ne_nil _ (by simp)]
        rfl
    · show (Piece.gap ('/' :: '*' :: (passComment cs).1)).Fits (passComment cs).2
      rw [hrest]
      refine ⟨fun x hx => ?_, fun x hx => ?_, seam_of_last (q := '/') (by decide) (.inl rfl)⟩
      · obtain rfl := Piece.gap.inj hx
        exact .inr (.unclosed hnone)
      · cases hx
  | case3 _ hline hblock =>
    refine ⟨fun x hx => ?_, fun x hx => ?_, seam_of_last (q := '/') (by decide) (.inr (.inr rfl))⟩
    · cases hx
    · cases hx

/-- **Every piece that is read is what it is said to be.** -/
theorem firstPiece_fits (c : Char) (cs : Text) : (firstPiece c cs).1.Fits (firstPiece c cs).2 := by
  have hlead {q : Char} {x : Text} (h : x.getLast? = some q) : (c :: x).getLast? = some q := by
    rw [List.getLast?_cons, h]
    rfl
  rcases char_cases c with h | rfl | h | rfl | h | h
  · rw [firstPiece_space h]
    refine ⟨fun x hx => ?_, fun x hx => ?_, seam_of_last (isIdentChar_of_isSpace h) (.inr (.inr rfl))⟩
    · obtain rfl := Piece.gap.inj hx
      exact .inl ⟨c, rfl, h⟩
    · cases hx
  · exact passSlash_fits cs
  · have hident : isIdentChar c = false := by
      rw [isQuote, Bool.or_eq_true, beq_iff_eq, beq_iff_eq] at h
      rcases h with rfl | rfl <;> decide
    rw [firstPiece_quote h]
    refine ⟨fun x hx => ?_, fun x hx => ?_, seam_of_last hident ?_⟩
    · cases hx
    · cases hx
    · exact (passString_ends c cs).imp_right (Or.imp_right hlead)
  · refine ⟨fun x hx => ?_, fun x hx => ?_, seam_of_last (q := backtick) (by decide) ?_⟩
    · cases hx
    · cases hx
    · have houter : [Frame.template].getLast? = some .template := rfl
      exact (passFrames_ends houter).imp_right fun h => .inr (hlead h)
  · rw [firstPiece_ident h]
    refine ⟨fun x hx => ?_, fun x hx => ?_, fun _ _ _ => takeWhile_stops isIdentChar cs⟩
    · cases hx
    · obtain rfl := (Piece.token.inj hx).2
      exact List.forall_mem_cons.mpr ⟨h, fun d => List.mem_takeWhile_imp⟩
  · have hident : isIdentChar c = false := by
      simp only [isPlainMark, Bool.and_eq_true, Bool.not_eq_true'] at h
      exact h.2
    rw [firstPiece_mark h]
    refine ⟨fun x hx => ?_, fun x hx => ?_, seam_of_last hident (.inr (.inr rfl))⟩
    · cases hx
    · cases hx

theorem fits_of_pieces {t : Text} {A B : List Piece} {p : Piece} (h : pieces t = A ++ p :: B) :
    p.Fits (B.flatMap Piece.text) := by
  fun_induction pieces t generalizing A with
  | case1 => simp at h
  | case2 c cs ih =>
    cases A with
    | nil =>
      rw [List.nil_append, List.cons.injEq] at h
      rw [← h.1, ← h.2, text_pieces]
      exact firstPiece_fits c cs
    | cons q qs =>
      rw [List.cons_append, List.cons.injEq] at h
      exact ih h.2

/-! ### Where pieces stand -/

/-- Pieces with the offsets where they start, the first of which is given. -/
def placed (n : Nat) : List Piece → List (Nat × Piece)
  | [] => []
  | p :: ps => (n, p) :: placed (n + p.text.length) ps

/-- Pieces in their places of which none overlaps the other. -/
def Apart (x y : Nat × Piece) : Prop :=
  x.1 + x.2.text.length ≤ y.1 ∨ y.1 + y.2.text.length ≤ x.1

section
variable {n : Nat} {ps : List Piece}

theorem exists_pieces_of_placed {a : Nat} {p : Piece} (h : (a, p) ∈ placed n ps) :
    ∃ A B, ps = A ++ p :: B ∧ n + width A = a := by
  induction ps generalizing n with
  | nil => cases h
  | cons q ps ih =>
    rcases List.mem_cons.mp h with h | h
    · obtain ⟨rfl, rfl⟩ := Prod.mk.inj h
      exact ⟨[], ps, rfl, rfl⟩
    · obtain ⟨A, B, hps, hstart⟩ := ih h
      refine ⟨q :: A, B, congrArg (q :: ·) hps, ?_⟩
      rw [width_cons, ← hstart, Nat.add_assoc]

/-- Pieces stand side by side. -/
theorem placed_pairwise (n : Nat) (ps : List Piece) :
    (placed n ps).Pairwise fun x y => x.1 + x.2.text.length ≤ y.1 := by
  induction ps generalizing n with
  | nil => exact List.Pairwise.nil
  | cons p ps ih =>
    refine List.pairwise_cons.mpr ⟨fun ⟨b, q⟩ hq => ?_, ih _⟩
    obtain ⟨A, B, -, hstart⟩ := exists_pieces_of_placed hq
    exact hstart ▸ Nat.le_add_right _ _

theorem apart_of_mem_placed {x y : Nat × Piece} (hx : x ∈ placed n ps) (hy : y ∈ placed n ps)
    (hne : x ≠ y) : Apart x y := by
  have hsymm : Std.Symm Apart := ⟨fun _ _ h => h.symm⟩
  have hapart : (placed n ps).Pairwise Apart := (placed_pairwise n ps).imp fun h => .inl h
  exact hapart.forall hx hy hne

/-- Nothing lies between pieces. -/
theorem exists_placed {i : Nat} (hn : n ≤ i) (hi : i < n + width ps) :
    ∃ a p, (a, p) ∈ placed n ps ∧ a ≤ i ∧ i < a + p.text.length := by
  induction ps generalizing n with
  | nil => exact absurd hi (Nat.not_lt.mpr hn)
  | cons p ps ih =>
    by_cases hp : i < n + p.text.length
    · exact ⟨n, p, List.mem_cons_self, hn, hp⟩
    · rw [width_cons] at hi
      obtain ⟨a, q, hq, hle⟩ := ih (n := n + p.text.length) (by omega) (by omega)
      exact ⟨a, q, List.mem_cons_of_mem _ hq, hle⟩

theorem mem_tokensFrom_iff {k : Token} :
    k ∈ tokensFrom n ps ↔ (k.start, Piece.token k.kind k.text) ∈ placed n ps := by
  induction ps generalizing n with
  | nil => simp [tokensFrom, placed]
  | cons p ps ih =>
    cases p with
    | gap x =>
      rw [tokensFrom, placed, List.mem_cons, ih, Prod.mk.injEq]
      exact ⟨.inr, fun h => h.resolve_left fun h => by cases h.2⟩
    | token kind x =>
      rw [tokensFrom, placed, List.mem_cons, List.mem_cons, ih, Prod.mk.injEq, Piece.token.injEq]
      refine or_congr_left ?_
      constructor
      · rintro rfl
        exact ⟨rfl, rfl, rfl⟩
      · obtain ⟨kind', start', text'⟩ := k
        rintro ⟨rfl, rfl, rfl⟩
        rfl

theorem tokensFrom_pairwise (n : Nat) (ps : List Piece) :
    (tokensFrom n ps).Pairwise fun k l => k.stop ≤ l.start := by
  induction ps generalizing n with
  | nil => exact List.Pairwise.nil
  | cons p ps ih =>
    cases p with
    | gap x => exact ih _
    | token kind x => exact List.pairwise_cons.mpr ⟨fun l hl => le_start_of_mem hl, ih _⟩

end

/-- A piece of a script in its place: what stands before it, and what follows. -/
theorem exists_text_of_placed {t : Text} {a : Nat} {p : Piece} (h : (a, p) ∈ placed 0 (pieces t)) :
    ∃ before rest, t = before ++ (p.text ++ rest) ∧ before.length = a ∧ p.Fits rest := by
  obtain ⟨A, B, hps, hstart⟩ := exists_pieces_of_placed h
  refine ⟨A.flatMap Piece.text, B.flatMap Piece.text, ?_, ?_, fits_of_pieces hps⟩
  · rw [← List.flatMap_cons, ← List.flatMap_append, ← hps, text_pieces]
  · rw [← hstart, Nat.zero_add, width]

/-- Before an identifier stands no identifier character. -/
theorem last_before_ident {t x : Text} {a : Nat} (h : (a, Piece.token .ident x) ∈ placed 0 (pieces t)) :
    ∀ c ∈ (t.take a).getLast?, isIdentChar c = false := by
  obtain ⟨A, B, hps, hstart⟩ := exists_pieces_of_placed h
  rw [Nat.zero_add] at hstart
  have htake : t.take a = A.flatMap Piece.text := by
    rw [← text_pieces t, hps, List.flatMap_append, ← hstart, width, List.take_left]
  rw [htake]
  intro c hc
  rcases List.eq_nil_or_concat A with rfl | ⟨A, q, rfl⟩
  · cases hc
  · rw [List.concat_eq_append] at hps hc
    have hq : q.text ≠ [] := piece_text_ne_nil (by rw [hps]; simp)
    have hx : x ≠ [] := piece_text_ne_nil (p := .token .ident x) (by rw [hps]; simp)
    rw [List.append_assoc, List.singleton_append] at hps
    rw [List.flatMap_append, List.flatMap_singleton, List.getLast?_append_of_ne_nil _ hq] at hc
    -- Otherwise the piece before would end inside the run of which `x` is a part.
    obtain ⟨d, ds, rfl⟩ := List.exists_cons_of_ne_nil hx
    have hd : isIdentChar d = true :=
      (fits_of_pieces (A := A ++ [q]) (by simpa using hps)).ident _ rfl d List.mem_cons_self
    by_contra hident
    have hfalse := (fits_of_pieces hps).seam c hc (by simpa using hident) d rfl
    rw [hd] at hfalse
    cases hfalse

/-! ### The whole script -/

/-- A comment of a script, from its start to its stop. -/
def CommentAt (t : Text) (start stop : Nat) : Prop :=
  ∃ before x rest, t = before ++ (x ++ rest) ∧ before.length = start ∧ start + x.length = stop ∧
    Comment x rest

/-- Tokens and comments, as starts and stops, that leave out nothing of a script but white space. -/
structure Covering (t : Text) (ts : List Token) (comments : List (Nat × Nat)) : Prop where
  nonempty : ∀ k ∈ ts, k.start < k.stop
  -- The tokens stand side by side, in their order.
  ordered : ts.Pairwise fun k l => k.stop ≤ l.start
  inside : ∀ k ∈ ts, k.stop ≤ t.length
  -- The text of a token is that of the script from its start to its stop.
  text : ∀ k ∈ ts, (t.drop k.start).take (k.stop - k.start) = k.text
  comment : ∀ c ∈ comments, CommentAt t c.1 c.2
  commentsOrdered : comments.Pairwise fun c d => c.2 ≤ d.1
  -- No comment lies in a token, and no token in a comment.
  apart : ∀ k ∈ ts, ∀ c ∈ comments, k.stop ≤ c.1 ∨ c.2 ≤ k.start
  -- What lies in none of them is white space.
  covered : ∀ i c, t[i]? = some c → (∃ k ∈ ts, k.start ≤ i ∧ i < k.stop) ∨
    (∃ d ∈ comments, d.1 ≤ i ∧ i < d.2) ∨ isSpace c = true
  -- Identifiers are maximal runs of identifier characters.
  idents : ∀ k ∈ ts, k.kind = .ident → (∀ c ∈ k.text, isIdentChar c = true) ∧
    (∀ c ∈ (t.take k.start).getLast?, isIdentChar c = false) ∧
    ∀ c ∈ (t.drop k.stop).head?, isIdentChar c = false

def Piece.isComment : Piece → Bool
  | .gap ('/' :: _) => true
  | _ => false

/-- The comments of a script, each from its start to its stop. -/
def comments (t : Text) : List (Nat × Nat) :=
  ((placed 0 (pieces t)).filter fun x => x.2.isComment).map fun x => (x.1, x.1 + x.2.text.length)

theorem mem_comments_iff {t : Text} {a b : Nat} : (a, b) ∈ comments t ↔
    ∃ p, (a, p) ∈ placed 0 (pieces t) ∧ p.isComment = true ∧ b = a + p.text.length := by
  simp only [comments, List.mem_map, List.mem_filter, Prod.mk.injEq]
  constructor
  · rintro ⟨⟨a, p⟩, ⟨hp, hc⟩, rfl, rfl⟩
    exact ⟨p, hp, hc, rfl⟩
  · rintro ⟨p, hp, hc, rfl⟩
    exact ⟨(a, p), ⟨hp, hc⟩, rfl, rfl⟩

theorem comment_of_isComment {p : Piece} {rest : Text} (hfits : p.Fits rest)
    (h : p.isComment = true) : Comment p.text rest := by
  unfold Piece.isComment at h
  split at h
  case h_1 cs =>
    rcases hfits.gap _ rfl with ⟨c, hc, hspace⟩ | hcomment
    · obtain ⟨rfl, -⟩ := List.cons.inj hc
      exact absurd hspace (by decide)
    · exact hcomment
  case h_2 => cases h

theorem Comment.isComment {x rest : Text} (h : Comment x rest) : (Piece.gap x).isComment = true := by
  cases h <;> rfl

/-- Every character lies in a token or in a comment, or is white space. -/
theorem covered_of_getElem? {t : Text} {i : Nat} {c : Char} (hi : t[i]? = some c) :
    (∃ k ∈ tokens t, k.start ≤ i ∧ i < k.stop) ∨ (∃ d ∈ comments t, d.1 ≤ i ∧ i < d.2) ∨
      isSpace c = true := by
  have hlt : i < t.length := (List.getElem?_eq_some_iff.mp hi).1
  have hwidth : i < 0 + width (pieces t) := by rwa [width_pieces, Nat.zero_add]
  obtain ⟨a, p, hp, hle, hi'⟩ := exists_placed (Nat.zero_le i) hwidth
  obtain ⟨before, rest, ht, hlen, hfits⟩ := exists_text_of_placed hp
  cases p with
  | token kind x => exact .inl ⟨⟨kind, a, x⟩, mem_tokensFrom_iff.mpr hp, hle, hi'⟩
  | gap x =>
    rcases hfits.gap x rfl with ⟨d, rfl, hspace⟩ | hcomment
    · -- The only character of the gap is the one at its start.
      obtain rfl : i = a := Nat.le_antisymm (Nat.le_of_lt_succ hi') hle
      rw [ht, ← hlen, List.getElem?_append_right (Nat.le_refl _), Nat.sub_self] at hi
      exact .inr (.inr (Option.some.inj hi ▸ hspace))
    · exact .inr (.inl ⟨_, mem_comments_iff.mpr ⟨_, hp, hcomment.isComment, rfl⟩, hle, hi'⟩)

/-- Behind an identifier stands no identifier character. -/
theorem head_behind_ident {t x : Text} {a : Nat} (h : (a, Piece.token .ident x) ∈ placed 0 (pieces t)) :
    ∀ c ∈ (t.drop (a + x.length)).head?, isIdentChar c = false := by
  obtain ⟨before, rest, ht, hlen, hfits⟩ := exists_text_of_placed h
  have hdrop : t.drop (a + x.length) = rest := by
    rw [ht, ← List.append_assoc]
    exact List.drop_left' (by rw [List.length_append, hlen]; rfl)
  have hne : x ≠ [] := by
    obtain ⟨A, B, hps, -⟩ := exists_pieces_of_placed h
    exact piece_text_ne_nil (p := .token .ident x) (by rw [hps]; simp)
  rw [hdrop]
  exact hfits.seam _ (List.getLast?_eq_getLast_of_ne_nil hne)
    (hfits.ident x rfl _ (List.getLast_mem hne))

/-- **The tokens of any script cover it**: with its comments they lie side by side, and leave out
white space only. -/
theorem tokens_cover (t : Text) : Covering t (tokens t) (comments t) where
  nonempty := fun k hk => start_lt_stop hk
  ordered := tokensFrom_pairwise 0 (pieces t)
  inside := fun k hk => stop_le_length hk
  text := fun k hk => by
    obtain ⟨before, rest, ht, hlen, -⟩ := exists_text_of_placed (mem_tokensFrom_iff.mp hk)
    have hspan : k.stop - k.start = k.text.length := by
      rw [Token.stop]
      omega
    rw [hspan, ht, List.drop_left' hlen]
    exact List.take_left
  comment := by
    rintro ⟨a, b⟩ hc
    obtain ⟨p, hp, hcomment, rfl⟩ := mem_comments_iff.mp hc
    obtain ⟨before, rest, ht, hlen, hfits⟩ := exists_text_of_placed hp
    exact ⟨before, p.text, rest, ht, hlen, rfl, comment_of_isComment hfits hcomment⟩
  commentsOrdered := List.pairwise_map.mpr ((placed_pairwise 0 (pieces t)).filter _)
  apart := by
    rintro k hk ⟨a, b⟩ hc
    obtain ⟨p, hp, hcomment, rfl⟩ := mem_comments_iff.mp hc
    refine apart_of_mem_placed (mem_tokensFrom_iff.mp hk) hp fun heq => ?_
    rw [← (Prod.mk.inj heq).2] at hcomment
    cases hcomment
  covered := fun _ _ hi => covered_of_getElem? hi
  idents := fun k hk hkind => by
    have hp := mem_tokensFrom_iff.mp hk
    rw [hkind] at hp
    obtain ⟨before, rest, -, -, hfits⟩ := exists_text_of_placed hp
    exact ⟨hfits.ident _ rfl, last_before_ident hp, head_behind_ident hp⟩

example : comments "a/*/b*/'//'// d".toList = [(1, 7), (11, 15)] := by decide +kernel

end Graft.Script
