import Graft.Proofs.Registration.Entry
import Graft.Proofs.Script.ImportReading

/-
What a registration keeps of a host.

* `Clear source n` — a place between pieces and outside of every bracket pair;
* `HasRoom source symbol` — the line of the last import ends at such a place, if a statement is to
  go there;
* `Preserved source r es patched` — the host's pieces and tokens are only pushed apart, by a
  statement outside of its brackets and by an entry inside of its list;
* `patched_preserved_iff` — **a closed host is preserved exactly when it has room**.

Design notes: the entry sits in every closed host, since its place is found from tokens.  The
statement's place is found from the text alone, as the end of a line, and what stands there may be
inside of a token, a comment or a bracket pair that begins on the line of the import.
-/
namespace Graft.Registration

open Script

/-- A place outside of every bracket pair. -/
def Outside (ts : List Token) (n : Nat) : Prop :=
  ∀ before o rest g, ts = before ++ o :: rest → enclosed? (o :: rest) = some g →
    n ≤ o.start ∨ g.closing.stop ≤ n

/-- A place between pieces and outside of every bracket pair. -/
def Clear (source : Text) (n : Nat) : Prop := Between source n ∧ Outside (tokens source) n

/-- The line of the last import ends outside of everything, if a statement is to go there. -/
def HasRoom (source symbol : Text) : Prop :=
  (∀ s ∈ imports (tokens source), symbol ∉ s.names) →
    ∀ s ∈ (imports (tokens source)).getLast?, Clear source (lineEnd source s.stop)

/-- What a registration keeps of a host, and what it adds. -/
structure Preserved (source : Text) (r : Request) (es : List Insertion) (patched : Text) :
    Prop where
  -- No piece of the host is cut.
  between : ∀ e ∈ es, Between source (place e)
  -- The host's pieces are kept in order, with those of the insertions between them.
  pieces_eq : pieces patched = weave 0 (runs pieces source (Insertion.ordered es)) (pieces source)
  -- The host's tokens are kept in order, with those of the insertions between them.
  tokens_eq : bareTokens patched =
    weave 0 (runs bareTokens source (Insertion.ordered es)) (bareTokens source)
  -- The insertions are those of an import statement and of an entry.
  planned : ∃ d list, descriptor? (tokens source) = some d ∧ planList source r d = .ok list ∧
    es = planImport source (imports (tokens source)) r ++ list
  -- The statement stands outside of the brackets of the host.
  statement : ∀ e ∈ planImport source (imports (tokens source)) r,
    Outside (tokens source) (place e) ∧
      ∃ q, isQuote q = true ∧ bareTokens e.text = importRun r.symbol r.importPath q
  -- The entry stands inside of its list, after a comma when the list has others.
  entry : ∀ d ∈ descriptor? (tokens source), ∀ list, planList source r d = .ok list → ∀ e ∈ list,
    ∃ o inside c text run, Target r d o inside c text run ∧ o.stop ≤ place e ∧
      place e ≤ c.start ∧ bareTokens e.text = if entries inside = [] then run else markToken ',' :: run

/-! ### The import statement -/

variable {source : Text} {r : Request}

theorem nested_importRun (s p : Text) (q : Char) : Nested (importRun s p q) := rfl

theorem outside_zero (ts : List Token) : Outside ts 0 := fun _ _ _ _ _ _ => .inl (Nat.zero_le _)

theorem lineEnd_le {n : Nat} (h : n ≤ source.length) : lineEnd source n ≤ source.length := by
  have hlen : ((source.drop n).takeWhile (· != '\n')).length ≤ (source.drop n).length :=
    (List.takeWhile_sublist _).length_le
  rw [List.length_drop] at hlen
  rw [lineEnd]
  omega

/-- The quote of a statement is a quote. -/
theorem isQuote_of_mem_imports {s : Import} (h : s ∈ imports (tokens source)) :
    isQuote s.quote = true ∧ s.stop ≤ source.length := by
  obtain ⟨⟨t, ht, hstop⟩, u, hu, hkind, hquote⟩ := ends_of_mem_imports h
  refine ⟨?_, ?_⟩
  · obtain ⟨L, R, hsplit⟩ := List.append_of_mem hu
    obtain ⟨A, B, hps, -, -, -⟩ := exists_pieces_of_tokensFrom hsplit
    have hmem : Piece.token .string u.text ∈ pieces source := by
      rw [hps, hkind]
      simp
    obtain ⟨q, cs, htext, hq⟩ := string_head hmem
    rw [hquote, htext]
    exact hq
  · rw [← hstop]
    exact stop_le_length ht

theorem joins_nil (t : Text) : Joins [] t := by
  intro p hp
  rw [pieces_nil] at hp
  cases hp

theorem joins_newline (a t : Text) : Joins a ('\n' :: t) := by
  intro p _ d hd
  obtain rfl : '\n' = d := Option.some.inj hd
  exact reads_newline p

/-- What is known of a planned statement. -/
structure IsStatement (r : Request) (t : Text) : Prop where
  closed : Closed t
  nonempty : t ≠ []
  -- It does not read on.
  last : ∀ b, Joins t b
  -- Its tokens are those of an import statement.
  tokens_eq : ∃ q, isQuote q = true ∧ bareTokens t = importRun r.symbol r.importPath q

theorem isStatement_after {q : Char} (hs : IsSymbol r.symbol) (hp : IsSpecifier r.importPath)
    (hq : isQuote q = true) : IsStatement r ('\n' :: importLine r.symbol r.importPath q) := by
  have hpieces : pieces ('\n' :: importLine r.symbol r.importPath q) =
      .gap ['\n'] :: importPieces r.symbol r.importPath q := by
    have h := pieces_importLine hs hp hq []
    rw [List.append_nil, pieces_nil, List.append_nil] at h
    rw [pieces_space (by decide), h]
  refine ⟨?_, List.cons_ne_nil _ _, ?_, q, hq, ?_⟩
  · intro x hx
    rw [hpieces, List.mem_cons] at hx
    rcases hx with rfl | hx
    · rfl
    · exact importPieces_closed hp hq x hx
  · intro b x hx d _
    rw [hpieces] at hx
    obtain rfl : Piece.token .punct [';'] = x := Option.some.inj hx
    exact reads_mark (by decide)
  · rw [bareTokens, tokens, hpieces]
    rfl

theorem isStatement_before {q : Char} (hs : IsSymbol r.symbol) (hp : IsSpecifier r.importPath)
    (hq : isQuote q = true) : IsStatement r (importLine r.symbol r.importPath q ++ ['\n']) := by
  have hpieces : pieces (importLine r.symbol r.importPath q ++ ['\n']) =
      importPieces r.symbol r.importPath q ++ [.gap ['\n']] := by
    rw [pieces_importLine hs hp hq, pieces_space (by decide), pieces_nil]
  refine ⟨?_, List.append_ne_nil_of_right_ne_nil _ (List.cons_ne_nil _ _), ?_, q, hq, ?_⟩
  · intro x hx
    rw [hpieces, List.mem_append, List.mem_singleton] at hx
    rcases hx with hx | rfl
    · exact importPieces_closed hp hq x hx
    · rfl
  · intro b x hx d _
    rw [hpieces, List.getLast?_concat] at hx
    obtain rfl : Piece.gap ['\n'] = x := Option.some.inj hx
    exact reads_space
  · rw [bareTokens, tokens, hpieces]
    rfl

theorem planImport_after {ss : List Import} {s : Import} (hnew : ∀ s ∈ ss, r.symbol ∉ s.names)
    (hs : s ∈ ss.getLast?) : planImport source ss r =
      [⟨lineEnd source s.stop, '\n' :: importLine r.symbol r.importPath s.quote⟩] := by
  have hany : ¬ (ss.any fun s => s.names.contains r.symbol) = true := by
    simpa using hnew
  rw [planImport, if_neg hany, Option.mem_def.mp hs]

/-- No statement is planned when one binds the name; else one after the last, or one at the start. -/
theorem planImport_cases (source : Text) (ss : List Import) (r : Request) :
    ((∃ s ∈ ss, r.symbol ∈ s.names) ∧ planImport source ss r = []) ∨
      ((∀ s ∈ ss, r.symbol ∉ s.names) ∧ ∃ s ∈ ss.getLast?,
      planImport source ss r =
        [⟨lineEnd source s.stop, '\n' :: importLine r.symbol r.importPath s.quote⟩]) ∨
      (ss = [] ∧ planImport source ss r =
        [⟨0, importLine r.symbol r.importPath '\'' ++ ['\n']⟩]) := by
  by_cases hany : (ss.any fun s => s.names.contains r.symbol) = true
  · exact .inl ⟨by simpa using hany, by rw [planImport, if_pos hany]⟩
  · have hnew : ∀ s ∈ ss, r.symbol ∉ s.names := by simpa using hany
    cases hlast : ss.getLast? with
    | none =>
      rw [List.getLast?_eq_none_iff] at hlast
      subst hlast
      exact .inr (.inr ⟨rfl, rfl⟩)
    | some s => exact .inr (.inl ⟨hnew, s, rfl, planImport_after hnew hlast⟩)

theorem planImport_length_le (source : Text) (ss : List Import) (r : Request) :
    (planImport source ss r).length ≤ 1 := by
  rcases planImport_cases source ss r with ⟨-, h⟩ | ⟨-, s, -, h⟩ | ⟨-, h⟩
  · rw [h]
    exact Nat.zero_le _
  · rw [h]
    exact le_refl _
  · rw [h]
    exact le_refl _

theorem statement_fits : ∀ e ∈ planImport source (imports (tokens source)) r,
    Insertion.fits source.length e = true := by
  intro e he
  rcases planImport_cases source (imports (tokens source)) r with ⟨-, h⟩ | ⟨-, s, hs, h⟩ | ⟨-, h⟩
  · rw [h] at he
    cases he
  · have hle := lineEnd_le (isQuote_of_mem_imports (List.mem_of_getLast? hs)).2
    rw [h, List.mem_singleton] at he
    rw [he]
    exact fits_of_le hle _
  · rw [h, List.mem_singleton] at he
    rw [he]
    exact fits_of_le (Nat.zero_le _) _

/-- Where there is room, a statement sits. -/
theorem statement_sits (hs : IsSymbol r.symbol) (hp : IsSpecifier r.importPath)
    (hroom : HasRoom source r.symbol) :
    ∀ e ∈ planImport source (imports (tokens source)) r, Sits source e ∧
      Outside (tokens source) (place e) ∧
      ∃ q, isQuote q = true ∧ bareTokens e.text = importRun r.symbol r.importPath q := by
  intro e he
  have hfits := statement_fits e he
  rcases planImport_cases source (imports (tokens source)) r with ⟨-, h⟩ | ⟨hnew, s, hlast, h⟩ | ⟨-, h⟩
  · rw [h] at he
    cases he
  · rw [h, List.mem_singleton] at he
    subst he
    obtain ⟨hb, hout⟩ := hroom hnew s hlast
    have htext := isStatement_after hs hp (isQuote_of_mem_imports (List.mem_of_getLast? hlast)).1
    exact ⟨⟨hfits, hb, htext.nonempty, htext.closed, joins_newline _ _, htext.last _⟩, hout,
      htext.tokens_eq⟩
  · rw [h, List.mem_singleton] at he
    subst he
    have htext := isStatement_before (q := '\'') hs hp (by decide)
    exact ⟨⟨hfits, between_zero source, htext.nonempty, htext.closed, joins_nil _, htext.last _⟩,
      outside_zero _, htext.tokens_eq⟩

/-! ### The entry -/

/-- A planned entry sits inside of its list. -/
theorem entry_sits (hc : Closed source) (hs : IsSymbol r.symbol) {d : Descriptor}
    (hd : descriptor? (tokens source) = some d) {list : List Insertion}
    (hlist : planList source r d = .ok list) : ∀ e ∈ list, Sits source e ∧
      ∃ before o inside c after text run, GroupAt (tokens source) before o inside c after ∧
        Target r d o inside c text run ∧ o.stop ≤ place e ∧ place e ≤ c.start ∧
        bareTokens e.text = if entries inside = [] then run else markToken ',' :: run := by
  intro e he
  rcases planList_eq_ok hlist with ⟨rfl, -⟩ | ⟨o, inside, c, text, run, htarget, rfl⟩
  · cases he
  · rw [List.mem_singleton] at he
    subst he
    obtain ⟨hentry, hrun⟩ := htarget.isEntry hs
    obtain ⟨before, after, hobject⟩ := exists_group_of_descriptor? hd
    obtain ⟨E, hE⟩ := planList_isOk_iff.mp ⟨_, hlist⟩
    obtain ⟨before', after', hgroup, -⟩ := htarget.exists_group hE hobject
    have hadd := appendEntry_sits hc hgroup hentry
    obtain ⟨lead, I, J, hlead, htext, hnil, -⟩ := hadd.last
    refine ⟨hadd.sits, before', o, inside, c, after', text, run, hgroup, htarget, hadd.opening,
      hadd.closing, ?_⟩
    rw [htext, (pieces_separator hlead text).2.2, hrun, separatorRun]
    by_cases hl : lead = []
    · rw [if_pos hl, if_pos (hnil.mp hl)]
      rfl
    · rw [if_neg hl, if_neg fun h => hl (hnil.mpr h)]
      rfl

theorem plan_eq_ok {es : List Insertion} (h : plan source r = .ok es) :
    ∃ d list, descriptor? (tokens source) = some d ∧ planList source r d = .ok list ∧
      es = planImport source (imports (tokens source)) r ++ list := by
  rw [plan] at h
  cases hd : descriptor? (tokens source) with
  | none =>
    simp only [hd] at h
    cases h
  | some d =>
    simp only [hd] at h
    cases hlist : planList source r d with
    | error m =>
      rw [hlist] at h
      cases h
    | ok list =>
      rw [hlist] at h
      exact ⟨d, list, rfl, hlist, (Except.ok.inj h).symm⟩

theorem patched?_eq_ok {es : List Insertion} {u : Text} (h : plan source r = .ok es)
    (hmade : Insertion.applyAll source es = .ok u) : patched? source r = .ok u := by
  rw [patched?, h]
  show (Insertion.applyAll source es).mapError Refusal.outOfRange = _
  rw [hmade]
  rfl

/-! ### Preservation -/

/-- Outside of a list is not inside of it. -/
theorem place_ne {before inside after : List Token} {o c : Token} {m n : Nat}
    (hgroup : GroupAt (tokens source) before o inside c after) (hout : Outside (tokens source) m)
    (hle : o.stop ≤ n) (hle' : n ≤ c.start) : m ≠ n := by
  have ho := start_lt_stop (show o ∈ tokens source by rw [hgroup.eq]; simp)
  have hc := start_lt_stop (show c ∈ tokens source by rw [hgroup.eq]; simp)
  rcases hout before o _ _ hgroup.eq hgroup.group with h | h
  · omega
  · have hstop : c.stop ≤ m := h
    omega

/-- Where there is room, what is planned sits, at different places. -/
theorem plan_sits (hc : Closed source) (hs : IsSymbol r.symbol) (hp : IsSpecifier r.importPath)
    (hroom : HasRoom source r.symbol) {d : Descriptor} (hd : descriptor? (tokens source) = some d)
    {list : List Insertion} (hlist : planList source r d = .ok list) {es : List Insertion}
    (hes : es = planImport source (imports (tokens source)) r ++ list) :
    (∀ e ∈ es, Sits source e) ∧ es.Pairwise fun e f => place e ≠ place f := by
  have hstatement := statement_sits hs hp hroom
  have hentry := entry_sits hc hs hd hlist
  subst hes
  constructor
  · intro e he
    rcases List.mem_append.mp he with he | he
    · exact (hstatement e he).1
    · exact (hentry e he).1
  · refine List.pairwise_append.mpr ⟨?_, ?_, ?_⟩
    · exact pairwise_of_length_le_one (planImport_length_le _ _ _)
    · exact pairwise_of_length_le_one (planList_length_le hlist)
    · intro e he f hf
      obtain ⟨-, before, o, inside, c, after, text, run, hgroup, -, hle, hle', -⟩ := hentry f hf
      exact place_ne hgroup (hstatement e he).2.1 hle hle'

/-- **A closed host is preserved exactly when it has room.**  A registration that is planned is made;
it keeps all pieces and tokens of the host, puts the statement outside of all brackets and the entry
inside of its list, unless the line of the last import ends inside of something. -/
theorem patched_preserved_iff (hc : Closed source) (hs : IsSymbol r.symbol)
    (hp : IsSpecifier r.importPath) {es : List Insertion} (h : plan source r = .ok es) :
    ∃ u, patched? source r = .ok u ∧ (Preserved source r es u ↔ HasRoom source r.symbol) := by
  obtain ⟨d, list, hd, hlist, hes⟩ := plan_eq_ok h
  have hfits : ∀ e ∈ es, Insertion.fits source.length e = true := by
    intro e he
    rw [hes, List.mem_append] at he
    rcases he with he | he
    · exact statement_fits e he
    · exact (entry_sits hc hs hd hlist e he).1.fits
  have hmade := applyAll_of_fits hfits
  refine ⟨_, patched?_eq_ok h hmade, ?_, fun hroom => ?_⟩
  · -- The statement after the last import tells where its line ends.
    intro hkept hnew s hlast
    have hmem : ⟨lineEnd source s.stop, '\n' :: importLine r.symbol r.importPath s.quote⟩ ∈
        planImport source (imports (tokens source)) r := by
      rw [planImport_after hnew hlast]
      exact List.mem_singleton_self _
    have hmem' := List.mem_append_left list hmem
    rw [← hes] at hmem'
    exact ⟨hkept.between _ hmem', (hkept.statement _ hmem).1⟩
  · obtain ⟨hsits, hdistinct⟩ := plan_sits hc hs hp hroom hd hlist hes
    refine ⟨fun e he => (hsits e he).between, ?_, ?_, ⟨d, list, hd, hlist, hes⟩, ?_, ?_⟩
    · exact applyAll_of_sits additive_pieces hc hsits hdistinct hmade
    · exact applyAll_of_sits additive_bareTokens hc hsits hdistinct hmade
    · exact fun e he => (statement_sits hs hp hroom e he).2
    · intro d' hd' list' hlist' e he
      obtain ⟨-, before, o, inside, c, after, text, run, -, htarget, hle, hle', htokens⟩ :=
        entry_sits hc hs hd' hlist' e he
      exact ⟨o, inside, c, text, run, htarget, hle, hle', htokens⟩

/-- A class to be declared. -/
def widgetRequest : Request :=
  { target := "src/app/app.module.ts".toList, symbol := "S".toList, importPath := "./x".toList }

theorem widgetRequest_symbol : IsSymbol widgetRequest.symbol :=
  ⟨by decide, List.all_eq_true.mp (by decide), by decide⟩

theorem widgetRequest_specifier : IsSpecifier widgetRequest.importPath := by decide

/-- A host without imports. -/
def plainHost : Text := "@NgModule(\x7b\n  declarations: [A]\n\x7d)\nexport class M \x7b\x7d".toList

theorem patched_preserved_plainHost : Closed plainHost ∧ ∃ es u,
    plan plainHost widgetRequest = .ok es ∧ patched? plainHost widgetRequest = .ok u ∧
      Preserved plainHost widgetRequest es u := by
  have hc : Closed plainHost := by decide +kernel
  have hnone : imports (tokens plainHost) = [] := by decide +kernel
  have hplan : (plan plainHost widgetRequest).toOption.isSome = true := by decide +kernel
  cases h : plan plainHost widgetRequest with
  | error m =>
    rw [h] at hplan
    cases hplan
  | ok es =>
    obtain ⟨u, hu, hiff⟩ := patched_preserved_iff hc widgetRequest_symbol widgetRequest_specifier h
    refine ⟨hc, es, u, rfl, hu, hiff.mpr ?_⟩
    intro _ s hs
    rw [hnone] at hs
    cases hs

/-- A host whose decorator begins on the line of its import. -/
def crowdedHost : Text :=
  ("import \x7b A \x7d from './a'; @NgModule(\x7b\n  declarations: []\n\x7d)\n" ++
    "export class M \x7b\x7d").toList

/-- The statement lands inside of the decorator's argument. -/
theorem crowdedHost_not_preserved :
    ¬ ∀ (source : Text) (r : Request) (es : List Insertion), Closed source → IsSymbol r.symbol →
      IsSpecifier r.importPath → plan source r = .ok es →
        ∃ u, patched? source r = .ok u ∧ Preserved source r es u := by
  intro hall
  have hplan : (plan crowdedHost widgetRequest).toOption.isSome = true := by decide +kernel
  cases h : plan crowdedHost widgetRequest with
  | error m =>
    rw [h] at hplan
    cases hplan
  | ok es =>
    obtain ⟨u, -, hkept⟩ := hall crowdedHost widgetRequest es (by decide +kernel)
      widgetRequest_symbol widgetRequest_specifier h
    have hstatement : (planImport crowdedHost (imports (tokens crowdedHost)) widgetRequest).map
        place = [36] := by decide +kernel
    obtain ⟨e, he, hplace⟩ := List.mem_map.mp (hstatement ▸ List.mem_singleton_self 36)
    have hout := (hkept.statement e he).1
    rw [hplace] at hout
    -- The argument of the decorator is a group from 34 to 58.
    have hsplit := List.take_append_drop 9 (tokens crowdedHost)
    have hopening : ((tokens crowdedHost).drop 9).head?.map Token.start = some 34 := by decide +kernel
    have hclosing : (enclosed? ((tokens crowdedHost).drop 9)).map (fun g => g.closing.stop) =
        some 58 := by decide +kernel
    cases hd : (tokens crowdedHost).drop 9 with
    | nil =>
      rw [hd] at hopening
      cases hopening
    | cons o rest =>
      rw [hd] at hsplit hopening hclosing
      obtain ⟨g, hg, hstop⟩ := Option.map_eq_some_iff.mp hclosing
      have hstart : o.start = 34 := Option.some.inj hopening
      rcases hout _ o rest g hsplit.symm hg with hle | hle <;> omega

end Graft.Registration
