import Graft.Proofs.Registration.Growth
import Graft.Proofs.Registration.Single

/-
What one registration does to a host.

* `Tidy source` — a regular host whose descriptor stands outside of every statement;
* `Inside …`, `fill d D R F k` — a place inside of the object, and the object with tokens put in there;
* `Entered …`, `Tidy.entered` — **a planned entry keeps a host tidy**, pushes its statements apart, and enrols
  the class in its list;
* `Stated …`, `Tidy.stated` — **a planned statement keeps a host tidy**, is its last, and leaves its lists.
-/
namespace Graft.Registration

open Script

/-- A regular host whose descriptor stands outside of every statement. -/
structure Tidy (source : Text) : Prop extends Regular source where
  -- Every statement stops before the object, or starts behind it.
  aside : ∀ d ∈ descriptor? (tokens source), ∀ s ∈ imports (tokens source),
    s.stop ≤ d.opening.start ∨ d.closing.stop ≤ s.start

variable {source : Text} {r : Request}

/-! ### The line of the last statement -/

theorem start_lt_stop_of_mem_imports {s : Import} (h : s ∈ imports (tokens source)) :
    s.start < s.stop := by
  obtain ⟨A, i, M, hts, hstart, hends⟩ := start_of_mem_imports h
  obtain ⟨t, ht, hstop⟩ := hends.stop
  obtain ⟨B, C, rfl⟩ := List.append_of_mem ht
  have hfirst := start_lt_stop (show i ∈ tokens source by rw [hts]; simp)
  have hnext := stop_le_start hts
  have hlast := start_lt_stop (show t ∈ tokens source by rw [hts]; simp)
  omega

/-- Where the line of the last statement ends, and that it holds no more tokens. -/
theorem Regular.line (h : Regular source) {s : Import} (hs : s ∈ (imports (tokens source)).getLast?) :
    Between source (lineEnd source s.stop) ∧
      tokens (source.take (lineEnd source s.stop)) = tokens (source.take s.stop) := by
  have hmem := List.mem_of_getLast? hs
  obtain ⟨t, ht, hstop⟩ := (ends_of_mem_imports hmem).stop
  obtain ⟨L, R, hsplit⟩ := List.append_of_mem ht
  obtain ⟨hb, -⟩ := tokens_take_stop h.closed hsplit
  rw [hstop] at hb
  exact (h.quiet s hs).between h.closed (isQuote_of_mem_imports hmem).2 hb

/-- The line of a statement that stops before a group ends before the group. -/
theorem Regular.lineEnd_le_start (h : Regular source) {s : Import}
    (hs : s ∈ (imports (tokens source)).getLast?) {before inside after : List Token} {o c : Token}
    (hgroup : GroupAt (tokens source) before o inside c after) (hstop : s.stop ≤ o.start) :
    lineEnd source s.stop ≤ o.start := by
  have hroom : Clear source (lineEnd source s.stop) := by
    obtain ⟨A, M, hfoothold⟩ := h.foothold hs
    exact hfoothold.clear
  rcases hroom.2 before o _ _ hgroup.eq hgroup.group with hle | hle
  · exact hle
  · -- The end of the group would stand on the rest of the line, where no token is.
    exfalso
    obtain ⟨hb, hline⟩ := h.line hs
    have hn := lineEnd_le (isQuote_of_mem_imports (List.mem_of_getLast? hs)).2
    have hsides := sides_of_between hn hb (tokens_eq_of_between hn hb) rfl
    have hmem : c ∈ tokens (source.take (lineEnd source s.stop)) := by
      have hc : c ∈ tokens source := by
        rw [hgroup.eq]
        simp
      rw [hsides.eq, List.mem_append] at hc
      refine hc.resolve_right fun hc => ?_
      have hlt := (hsides.after c hc).2
      exact absurd hle (Nat.not_le.mpr hlt)
    rw [hline] at hmem
    have hc := stop_le_length hmem
    rw [List.length_take] at hc
    have ho := stop_le_start hgroup.eq
    have hpos := start_lt_stop (show c ∈ tokens source by rw [hgroup.eq]; simp)
    rw [Token.stop] at ho
    omega

/-! ### Tokens put into the object -/

/-- The object with tokens put in, and what stands behind them `k` further on. -/
def fill (d : Descriptor) (D R F : List Token) (k : Nat) : Descriptor :=
  ⟨d.decorator, d.opening, D ++ (R ++ F.map (Token.shift k)), d.closing.shift k⟩

/-- A place inside of the object of the descriptor, with the tokens on both sides. -/
structure Inside (source : Text) (n : Nat) (d : Descriptor) (L : List Token) (a name p : Token)
    (D F Z : List Token) : Prop where
  decorates : Decorates d a name p
  -- The decorator is the first of a descriptor.
  first : Unheaded L (a :: name :: p :: (d.object ++ Z))
  eq : d.inside = D ++ F
  sides : Sides source n (L ++ a :: name :: p :: d.opening :: D) (F ++ d.closing :: Z)

section
variable {n : Nat} {d : Descriptor} {L D F Z R : List Token} {a name p : Token}

theorem Inside.opening_lt (h : Inside source n d L a name p D F Z) :
    d.opening.start < n := (h.sides.before d.opening (by simp)).1

theorem Inside.le_closing (h : Inside source n d L a name p D F Z) : n ≤ d.closing.start :=
  (h.sides.after d.closing (by simp)).1

theorem Inside.tokens_eq (h : Inside source n d L a name p D F Z) :
    tokens source = L ++ a :: name :: p :: (d.object ++ Z) := by
  rw [h.sides.eq, object_append, h.eq]
  simp

theorem Inside.groupAt (h : Inside source n d L a name p D F Z) :
    GroupAt (tokens source) (L ++ [a, name, p]) d.opening d.inside d.closing Z :=
  h.decorates.groupAt h.tokens_eq

theorem Inside.decorates_fill (h : Inside source n d L a name p D F Z) (hR : Nested R) (k : Nat) :
    Decorates (fill d D R F k) a name p where
  mark := h.decorates.mark
  name := h.decorates.name
  paren := h.decorates.paren
  brace := h.decorates.brace
  nested := by
    have hbare : (D ++ F.map (Token.shift k)).map Token.bare = d.inside.map Token.bare := by
      rw [h.eq, List.map_append, List.map_append, (moves_shift k).map_bare]
    exact (nested_splice hR D _).mpr ((nested_congr hbare).mpr h.decorates.nested)
  closing := h.decorates.closing

/-- Pushed apart, the tokens are those with nothing put in. -/
theorem Inside.map_push (h : Inside source n d L a name p D F Z) (k : Nat) :
    (tokens source).map (Token.push n k) =
      L ++ a :: name :: p :: ((fill d D [] F k).object ++ Z.map (Token.shift k)) := by
  rw [h.sides.map_push, object_append]
  simp [fill]

/-- The descriptor has what is put into its object. -/
theorem Inside.descriptor?_fill (h : Inside source n d L a name p D F Z) (hR : Nested R) (k : Nat) :
    descriptor? (L ++ a :: name :: p :: ((fill d D R F k).object ++ Z.map (Token.shift k))) =
      some (fill d D R F k) := by
  have hempty := h.decorates_fill nested_nil k
  have hfull := h.decorates_fill hR k
  refine descriptor?_eq_some_iff.mpr ⟨L, _, rfl, ⟨a, name, p, _, rfl, hfull⟩, ?_⟩
  refine Unheaded.replace ?_ hempty.flat.nested hfull.flat.nested
  refine h.first.congr rfl ?_
  rw [object_append, object_append, h.eq]
  simp [fill, (moves_shift k).map_bare, Token.bare, Token.shift]

/-- No statement goes on over the object, so that the statements are pushed apart. -/
theorem Inside.imports_fill (h : Inside source n d L a name p D F Z)
    (haside : ∀ s ∈ imports (tokens source), s.stop ≤ d.opening.start ∨ d.closing.stop ≤ s.start)
    (hR : Nested R) (k : Nat) :
    imports (L ++ a :: name :: p :: ((fill d D R F k).object ++ Z.map (Token.shift k))) =
      (imports (tokens source)).map (Import.push n k) := by
  have hshape (ts : List Token) : L ++ a :: name :: p :: ts = (L ++ [a, name]) ++ p :: ts := by simp
  have hpush : imports ((tokens source).map (Token.push n k)) =
      (imports (tokens source)).map (Import.push n k) := importsFrom_push h.sides.parted k 0
  rw [h.map_push, hshape] at hpush
  rw [hshape, ← hpush]
  have hopening := h.opening_lt
  have hclosing := h.le_closing
  refine importsFrom_fill (n := n) h.decorates.paren (h.decorates_fill nested_nil k).flat.nested
    (h.decorates_fill hR k).flat.nested (fun t ht => ?_) (fun t ht => ?_) fun s hs => ?_
  · refine (h.sides.before t ?_).1
    rcases List.mem_append.mp ht with ht | ht
    · exact List.mem_append_left _ ht
    · refine List.mem_append_right _ ?_
      simp only [List.mem_cons, List.not_mem_nil, or_false] at ht ⊢
      rcases ht with rfl | rfl
      · exact .inl rfl
      · exact .inr (.inl rfl)
  · obtain ⟨z, hz, rfl⟩ := List.mem_map.mp ht
    have hstop := (h.sides.after z (by simp [hz])).2
    show n < z.start + k + z.text.length
    rw [Token.stop] at hstop
    omega
  · change s ∈ imports _ at hs
    rw [hpush, List.mem_map] at hs
    obtain ⟨s, hs, rfl⟩ := hs
    rcases haside s hs with hle | hle
    · refine .inl ?_
      show pushStop n k s.stop ≤ n
      rw [pushStop, if_pos (by omega)]
      omega
    · refine .inr ?_
      rw [Token.stop] at hle
      show n ≤ pushStart n k s.start
      rw [pushStart, if_neg (by omega)]
      omega

/-- A statement that stands outside of the object stands outside of it when both are pushed. -/
theorem Inside.aside_fill (h : Inside source n d L a name p D F Z) {s : Import}
    (haside : s.stop ≤ d.opening.start ∨ d.closing.stop ≤ s.start) (k : Nat) :
    (s.push n k).stop ≤ (fill d D R F k).opening.start ∨
      (fill d D R F k).closing.stop ≤ (s.push n k).start := by
  have hopening := h.opening_lt
  have hclosing := h.le_closing
  have hspan : d.closing.stop = d.closing.start + d.closing.text.length := rfl
  have hpos := start_lt_stop (show d.closing ∈ tokens source by
    rw [h.tokens_eq]
    simp [Descriptor.object])
  rcases haside with hle | hle
  · refine .inl ?_
    show pushStop n k s.stop ≤ d.opening.start
    rw [pushStop, if_pos (by omega)]
    exact hle
  · refine .inr ?_
    show d.closing.start + k + d.closing.text.length ≤ pushStart n k s.start
    rw [pushStart, if_neg (by omega)]
    omega

/-- What the lists are with tokens put in: nothing of it depends on where the tokens stand. -/
theorem list?_fill (d : Descriptor) (D R F : List Token) (k : Nat) (key : Text) :
    ((fill d D R F k).list? key).map (List.map (List.map Token.bare)) =
      ({ d with inside := D ++ (R.map Token.bare ++ F) }.list? key).map (List.map (List.map Token.bare)) := by
  have hbare : (fill d D R F k).map Token.bare =
      Descriptor.map Token.bare { d with inside := D ++ (R.map Token.bare ++ F) } := by
    simp only [fill, Descriptor.map, List.map_append, (moves_shift k).map_bare, moves_bare.map_bare]
    rfl
  rw [← list?_map moves_bare, hbare, list?_map moves_bare]

end

/-! ### The entry -/

/-- What a host is like with an entry made. -/
structure Entered (source : Text) (r : Request) (e : Insertion) : Prop where
  tidy : Tidy (e.apply source)
  -- The statements are pushed apart.
  imports_eq : imports (tokens (e.apply source)) =
    (imports (tokens source)).map (Import.push (place e) e.text.length)
  -- The entry is not made on the line of the last of them.
  line : ∀ s ∈ (imports (tokens source)).getLast?,
    lineEnd source s.stop < place e ∨ place e < s.stop
  -- It is not made at the start of the host.
  pos : 0 < place e
  -- The class is enrolled in the list of its role.
  enrolled : ∀ P, roster (tokens source) r.role.property = some P →
    roster (tokens (e.apply source)) r.role.property = some (enroll r.symbol P)
  -- The other lists are as before.
  others : ∀ k, k ≠ r.role.property → roster (tokens (e.apply source)) k = roster (tokens source) k

theorem leads_wordToken_bare {w : Text} {E : List (List Token)} :
    (∃ e ∈ E.map (List.map Token.bare), Leads w e) ↔ ∃ e ∈ E, Leads w e := by
  simp only [List.mem_map, exists_exists_and_eq_and, leads_bare]

theorem enroll_bare (w : Text) (E : List (List Token)) :
    (enroll w E).map (List.map Token.bare) = enroll w (E.map (List.map Token.bare)) := by
  by_cases h : ∃ e ∈ E, Leads w e
  · rw [enroll_of_leads h, enroll_of_leads (leads_wordToken_bare.mpr h)]
  · rw [enroll_of_not_leads h, enroll_of_not_leads fun hb => h (leads_wordToken_bare.mp hb),
      List.map_append]
    rfl

/-- A planned entry stands inside of the object, and the tokens of the host are filled up with its own. -/
theorem Regular.exists_inside (h : Regular source) (hs : IsSymbol r.symbol) {d : Descriptor}
    (hd : descriptor? (tokens source) = some d) {e : Insertion} (hlist : planList source r d = .ok [e]) :
    ∃ (L : List Token) (a name p : Token) (D R F Z : List Token),
      Inside source (place e) d L a name p D F Z ∧ Nested R ∧
      Grown source r d [e] (L ++ [a, name, p]) D (R.map Token.bare) F ∧
      tokens (e.apply source) = L ++ a :: name :: p ::
        ((fill d D R F e.text.length).object ++ Z.map (Token.shift e.text.length)) := by
  have hsits := (entry_sits h.closed hs hd hlist e (List.mem_singleton_self e)).1
  obtain ⟨L, _, hts, ⟨a, name, p, Z, rfl, hdeco⟩, hfirst⟩ := descriptor?_eq_some_iff.mp hd
  obtain ⟨D, E, F, hgrown⟩ := exists_grown h.closed hs (hdeco.groupAt hts) hlist
  have hin : Inside source (place e) d L a name p D F Z := by
    refine ⟨hdeco, hfirst, hgrown.eq, sides_of_between hsits.place_le hsits.between ?_ ?_⟩
    · rw [hts, object_append, hgrown.eq]
      simp
    · rw [hgrown.place e (List.mem_singleton_self e)]
      simp
  -- The tokens of the entry are those that the object has grown by.
  obtain ⟨R, hR, hbare⟩ : ∃ R, tokensFrom (place e) (pieces e.text) = R ∧ R.map Token.bare = E := by
    refine ⟨_, rfl, ?_⟩
    rw [bare_tokensFrom _ 0, ← hgrown.run, List.flatMap_cons, List.flatMap_nil, List.append_nil]
    rfl
  have hnested : Nested R := by
    refine (nested_congr ?_).mpr hgrown.nested
    rw [← hbare, moves_bare.map_bare]
  rw [← hbare] at hgrown
  refine ⟨L, a, name, p, D, R, F, Z, hin, hnested, hgrown, ?_⟩
  rw [hsits.tokens_apply h.closed hin.sides, hR, object_append]
  simp [fill]

/-- **A planned entry keeps a host tidy.** -/
theorem Tidy.entered (h : Tidy source) (hs : IsSymbol r.symbol) {d : Descriptor}
    (hd : descriptor? (tokens source) = some d) {e : Insertion}
    (hlist : planList source r d = .ok [e]) : Entered source r e := by
  have hsits := (entry_sits h.closed hs hd hlist e (List.mem_singleton_self e)).1
  obtain ⟨L, a, name, p, D, R, F, Z, hin, hnested, hgrown, hmade⟩ := h.exists_inside hs hd hlist
  have hd' := hin.descriptor?_fill hnested e.text.length
  have himports := hin.imports_fill (h.aside d hd) hnested e.text.length
  rw [← hmade] at hd' himports
  have hroster (k : Text) : roster (tokens (e.apply source)) k =
      ({ d with inside := D ++ (R.map Token.bare ++ F) }.list? k).map (List.map (List.map Token.bare)) := by
    rw [roster_eq hd', list?_fill]
  have hopening := hin.opening_lt
  have hclosing := hin.le_closing
  have hline : ∀ s ∈ (imports (tokens source)).getLast?,
      lineEnd source s.stop < place e ∨ place e < s.stop := by
    intro s hs
    have hmem := List.mem_of_getLast? hs
    rcases h.aside d hd s hmem with hle | hle
    · exact .inl ((h.lineEnd_le_start hs hin.groupAt hle).trans_lt hopening)
    · have hstop := start_lt_stop_of_mem_imports hmem
      rw [Token.stop] at hle
      omega
  refine ⟨⟨⟨hsits.closed_apply h.closed, fun s hs => ?_⟩, fun d' hdescriptor s hs => ?_⟩, himports, hline,
    by omega, fun P hP => ?_, fun k hk => ?_⟩
  · rw [himports, List.getLast?_map, Option.mem_def, Option.map_eq_some_iff] at hs
    obtain ⟨s, hs, rfl⟩ := hs
    exact (h.quiet s hs).apply hsits.place_le (hline s hs)
  · obtain rfl : fill d D R F e.text.length = d' := Option.some.inj (hd'.symm.trans hdescriptor)
    rw [himports, List.mem_map] at hs
    obtain ⟨s, hs, rfl⟩ := hs
    exact hin.aside_fill (h.aside d hd s hs) e.text.length
  · rw [roster_eq hd, Option.map_eq_some_iff] at hP
    obtain ⟨Q, hQ, rfl⟩ := hP
    rw [hroster, hgrown.enrolled Q hQ, Option.map_some, enroll_bare]
  · rw [hroster, hgrown.others k hk, roster_eq hd]

/-! ### The statement -/

/-- What is read of the tokens of a statement, whatever follows them. -/
theorem imports_importPieces {s p : Text} (hs : IsSymbol s) (q : Char) (m : Nat) (ts : List Token) :
    imports (tokensFrom m (importPieces s p q) ++ ts) =
      ⟨m, m + width (importPieces s p q), [s], p, q⟩ :: importsFrom 0 ts := by
  have hwidth : width (importPieces s p q) = s.length + p.length + 20 := by
    simp [width, importPieces, Piece.text]
    omega
  have htokens : tokensFrom m (importPieces s p q) =
      [⟨.ident, m, "import".toList⟩, ⟨.punct, m + 7, ['{']⟩, ⟨.ident, m + 9, s⟩,
        ⟨.punct, m + s.length + 10, ['}']⟩, ⟨.ident, m + s.length + 12, "from".toList⟩,
        ⟨.string, m + s.length + 17, q :: (p ++ [q])⟩, ⟨.punct, m + s.length + p.length + 19, [';']⟩] := by
    simp [importPieces, tokensFrom]
    omega
  have hlisted : listedNames [(⟨.ident, m + 9, s⟩ : Token)] = [s] := by
    rw [listedNames_ident rfl]
    exact if_neg hs.notType
  rw [htokens, hwidth]
  simp only [List.cons_append, List.nil_append]
  rw [imports_clause (by simp [Token.isWord]) rfl rfl rfl (by simp [Token.isWord]) rfl, hlisted,
    closeImport_semicolon rfl]
  simp only [Token.stop, Token.unquoted, List.length_singleton, List.headD_cons,
    List.drop_one, List.tail_cons, List.dropLast_concat]
  congr 2
  omega

theorem quietLine_of_newline {t : Text} {n : Nat} (h : ∀ d ∈ (t.drop n).head?, d = '\n') :
    QuietLine t n := by
  refine .inl ?_
  cases hdrop : t.drop n with
  | nil => rfl
  | cons d ds =>
    rw [hdrop] at h
    rw [h d rfl]
    rfl

/-- Where a planned statement stands, and what it is: the pieces of a statement from `m` on. -/
structure Placed (source : Text) (r : Request) (f : Insertion) (A M : List Token) (m : Nat) (q : Char) :
    Prop where
  foothold : Foothold source (place f) A M
  le : place f ≤ m
  tokens_eq : tokensFrom (place f) (pieces f.text) =
    tokensFrom m (importPieces r.symbol r.importPath q)
  stop : m + width (importPieces r.symbol r.importPath q) ≤ place f + f.text.length
  -- Nothing stands behind it on its line.
  quiet : QuietLine (f.apply source) (m + width (importPieces r.symbol r.importPath q))

theorem Regular.exists_placed (h : Regular source) (hs : IsSymbol r.symbol) (hp : IsSpecifier r.importPath)
    {f : Insertion} (hplan : planImport source (imports (tokens source)) r = [f]) :
    ∃ A M m q, Placed source r f A M m q := by
  have hline {q : Char} (hq : isQuote q = true) (ts : Text) :
      pieces (importLine r.symbol r.importPath q ++ ts) = importPieces r.symbol r.importPath q ++ pieces ts :=
    pieces_importLine hs hp hq ts
  have hwidth {q : Char} (hq : isQuote q = true) :
      width (importPieces r.symbol r.importPath q) = (importLine r.symbol r.importPath q).length := by
    rw [← width_pieces, ← List.append_nil (importLine _ _ _), hline hq, pieces_nil, List.append_nil]
  rcases planImport_cases source (imports (tokens source)) r with
    ⟨-, hnone⟩ | ⟨-, s, hlast, hafter⟩ | ⟨hnil, hbefore⟩
  · rw [hnone] at hplan
    cases hplan
  · -- The statement goes behind the line of the last, with a newline before it.
    obtain rfl := List.singleton_inj.mp (hafter.symm.trans hplan)
    obtain ⟨A, M, hfoothold⟩ := h.foothold hlast
    obtain ⟨hq, hstop⟩ := isQuote_of_mem_imports (List.mem_of_getLast? hlast)
    refine ⟨A, M, lineEnd source s.stop + 1, s.quote, hfoothold, Nat.le_succ _, ?_, ?_, ?_⟩
    · have hpieces := hline hq []
      rw [pieces_nil, List.append_nil, List.append_nil] at hpieces
      rw [pieces_space (by decide), hpieces]
      rfl
    · rw [hwidth hq, List.length_cons]
      show lineEnd source s.stop + 1 + _ ≤ lineEnd source s.stop + _
      omega
    · refine quietLine_of_newline fun d hd => ?_
      have hend : lineEnd source s.stop + 1 + width (importPieces r.symbol r.importPath s.quote) =
          lineEnd source s.stop + ('\n' :: importLine r.symbol r.importPath s.quote).length := by
        rw [hwidth hq, List.length_cons]
        omega
      have hbehind : (Insertion.apply ⟨lineEnd source s.stop, '\n' ::
          importLine r.symbol r.importPath s.quote⟩ source).drop (lineEnd source s.stop +
            ('\n' :: importLine r.symbol r.importPath s.quote).length) =
          source.drop (lineEnd source s.stop) :=
        drop_apply (e := ⟨lineEnd source s.stop, '\n' :: importLine r.symbol r.importPath s.quote⟩)
          (lineEnd_le hstop)
      rw [hend, hbehind, drop_lineEnd] at hd
      simpa using takeWhile_stops (· != '\n') _ d hd
  · obtain rfl := List.singleton_inj.mp (hbefore.symm.trans hplan)
    have hq : isQuote '\'' = true := rfl
    refine ⟨[], tokens source, 0, '\'', foothold_zero hnil, le_refl _, ?_, ?_, ?_⟩
    · rw [hline hq, pieces_space (by decide), pieces_nil, tokensFrom_append]
      exact List.append_nil _
    · rw [hwidth hq, List.length_append]
      omega
    · refine quietLine_of_newline fun d hd => ?_
      rw [hwidth hq, Nat.zero_add, apply_eq] at hd
      change d ∈ ((importLine r.symbol r.importPath '\'' ++ ['\n'] ++ source).drop _).head? at hd
      rw [List.append_assoc, List.drop_left] at hd
      exact (Option.some.inj hd).symm

/-- What a host is like with a statement made. -/
structure Stated (source : Text) (r : Request) (f : Insertion) : Prop where
  tidy : Tidy (f.apply source)
  -- The statement is the last, and binds the class.
  imports_eq : ∃ s, imports (tokens (f.apply source)) = imports (tokens source) ++ [s] ∧
    s.names = [r.symbol] ∧ s.module = r.importPath
  -- The lists are as before.
  roster_eq : ∀ k, roster (tokens (f.apply source)) k = roster (tokens source) k

theorem nested_importPieces (s p : Text) (q : Char) (m : Nat) :
    Nested (tokensFrom m (importPieces s p q)) :=
  (nested_congr (show _ = (importRun s p q).map Token.bare from rfl)).mpr (nested_importRun s p q)

/-- The statements of a host with a statement put in. -/
theorem Placed.imports_eq {f : Insertion} {A M : List Token} {m : Nat} {q : Char}
    (h : Placed source r f A M m q) (hs : IsSymbol r.symbol) (k : Nat) :
    imports (A ++ (tokensFrom m (importPieces r.symbol r.importPath q) ++ M.map (Token.shift k))) =
      imports (tokens source) ++ [⟨m, m + width (importPieces r.symbol r.importPath q), [r.symbol],
        r.importPath, q⟩] := by
  have hbare := (moves_shift k).map_bare M
  have hunclosed : Unclosed A M
      (tokensFrom m (importPieces r.symbol r.importPath q) ++ M.map (Token.shift k)) := by
    refine (unclosed_splice (nested_importPieces r.symbol r.importPath q m) A M).congr ?_
    rw [List.map_append, List.map_append, hbare]
  have hnone : importsFrom 0 (M.map (Token.shift k)) = [] := importsFrom_eq_nil hbare h.foothold.later
  rw [h.foothold.anew _ hunclosed fun x hx => ?_, imports_importPieces hs, hnone]
  rw [← Option.some.inj hx]
  rfl

theorem Foothold.sides {n : Nat} {A M : List Token} (h : Foothold source n A M) (hn : n ≤ source.length) :
    Sides source n A M :=
  sides_of_between hn h.clear.1 h.eq h.take

/-- The statements that a host has stop before the place of a new one. -/
theorem Foothold.stop_le {n : Nat} {A M : List Token} (h : Foothold source n A M)
    (hn : n ≤ source.length) {s : Import} (hs : s ∈ imports (tokens source)) : s.stop ≤ n := by
  have hread := h.anew [] (unclosed_nil A M) (by simp)
  rw [List.append_nil] at hread
  have hmem : s ∈ imports A := by
    rw [hread]
    exact List.mem_append_left _ hs
  obtain ⟨t, ht, hstop⟩ := (ends_of_mem_imports hmem).stop
  rw [← hstop]
  exact ((h.sides hn).before t ht).2

/-- With a statement put in, the descriptor is the same, or stands behind the statement. -/
theorem Foothold.descriptor?_insert {n : Nat} {A M : List Token} (h : Foothold source n A M)
    (hn : n ≤ source.length) {d : Descriptor} (hd : descriptor? (tokens source) = some d) {R : List Token}
    (hR : Nested R) (hunmarked : ∀ t ∈ R, ¬ t.isMark '@' = true) (k : Nat) :
    (descriptor? (A ++ (R ++ M.map (Token.shift k))) = some d ∧ d.closing.stop ≤ n) ∨
      (descriptor? (A ++ (R ++ M.map (Token.shift k))) = some (d.map (Token.shift k)) ∧
        n ≤ d.opening.start) := by
  obtain ⟨L, _, hts, ⟨a, name, p, Z, rfl, hdeco⟩, hfirst⟩ := descriptor?_eq_some_iff.mp hd
  have hsides := h.sides hn
  have hseam := h.seam
  rcases hdeco.locate hseam (h.eq.symm.trans hts) with ⟨l, rfl, hM⟩ | ⟨z, rfl, hA⟩
  · refine .inr ⟨?_, (hsides.after d.opening (by rw [hM]; simp [Descriptor.object])).1⟩
    rw [hM] at hseam
    refine descriptor?_eq_some_iff.mpr ⟨A ++ (R ++ l.map (Token.shift k)), _, ?_,
      ⟨_, _, _, Z.map (Token.shift k), rfl, hdeco.map (moves_shift k)⟩, ?_⟩
    · rw [hM]
      simp [Descriptor.object, Descriptor.map]
    · refine (hfirst.insert hseam hR hunmarked).congr ?_ ?_
      · simp only [List.map_append, (moves_shift k).map_bare]
      · simp [Descriptor.object, Descriptor.map, (moves_shift k).map_bare, Token.shift, Token.bare]
  · refine .inl ⟨?_, (hsides.before d.closing (by rw [hA]; simp [Descriptor.object])).2⟩
    rw [hA] at hseam
    refine descriptor?_eq_some_iff.mpr ⟨L, _, ?_, ⟨a, name, p, z ++ (R ++ M.map (Token.shift k)), rfl,
      hdeco⟩, ?_⟩
    · rw [hA]
      simp
    · have hsplice : Unheaded L ((a :: name :: p :: (d.object ++ z)) ++ (R ++ M)) :=
        Unheaded.splice (by simpa using hfirst) hseam hR
      refine hsplice.congr rfl ?_
      simp [(moves_shift k).map_bare]

/-- **A planned statement keeps a host tidy.** -/
theorem Tidy.stated (h : Tidy source) (hs : IsSymbol r.symbol) (hp : IsSpecifier r.importPath)
    {d : Descriptor} (hd : descriptor? (tokens source) = some d) {f : Insertion}
    (hplan : planImport source (imports (tokens source)) r = [f]) : Stated source r f := by
  obtain ⟨A, M, m, q, hplaced⟩ := h.exists_placed hs hp hplan
  have hsits := (statement_sits hs hp (h.hasRoom r.symbol) f (by rw [hplan]; simp)).1
  have hn := hsits.place_le
  have hfoothold := hplaced.foothold
  have hmade := hsits.tokens_apply h.closed (hfoothold.sides hn)
  rw [hplaced.tokens_eq] at hmade
  have himports := hplaced.imports_eq hs f.text.length
  have hd' := hfoothold.descriptor?_insert hn hd
    (nested_importPieces r.symbol r.importPath q m) (by simp [importPieces, tokensFrom, Token.isMark])
    f.text.length
  rw [← hmade] at himports hd'
  refine ⟨⟨⟨hsits.closed_apply h.closed, fun s hs => ?_⟩, fun d' hdescriptor s hs => ?_⟩,
    ⟨_, himports, rfl, rfl⟩, fun k => ?_⟩
  · rw [himports, List.getLast?_concat] at hs
    rw [← Option.some.inj hs]
    exact hplaced.quiet
  · have hle := hplaced.le
    have hstop := hplaced.stop
    rw [himports, List.mem_append, List.mem_singleton] at hs
    rcases hd' with ⟨hd', hclosing⟩ | ⟨hd', hopening⟩
    · obtain rfl : d = d' := Option.some.inj (hd'.symm.trans hdescriptor)
      rcases hs with hs | rfl
      · exact h.aside d hd s hs
      · exact .inr (hclosing.trans hle)
    · obtain rfl : d.map _ = d' := Option.some.inj (hd'.symm.trans hdescriptor)
      refine .inl ?_
      show s.stop ≤ d.opening.start + f.text.length
      rcases hs with hs | rfl
      · have hbefore := hfoothold.stop_le hn hs
        omega
      · show m + _ ≤ _
        omega
  · rcases hd' with ⟨hd', -⟩ | ⟨hd', -⟩
    · rw [roster_eq hd', roster_eq hd]
    · have hbare : (d.map (Token.shift f.text.length)).map Token.bare = d.map Token.bare := by
        simp only [Descriptor.map, (moves_shift _).map_bare]
        rfl
      rw [roster_eq hd', roster_eq hd, ← list?_map moves_bare, hbare, list?_map moves_bare]

end Graft.Registration
