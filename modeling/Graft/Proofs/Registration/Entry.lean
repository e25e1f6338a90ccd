import Graft.Proofs.Registration.Addition
import Graft.Proofs.Script.ImportWalk
import Graft.Proofs.Script.Property

/-
New entries of lists.

* `appendEntry_sits` — **a new entry sits inside of its list**, whatever the list holds, and is its last;
* `Target r d o inside c entry run` — the list that the entry of a request goes into;
* `Target.exists_group` — in the list, the new entry is the last of those under the key of the role;
* `planList_eq_ok`, `planList_of_lists` — at most one entry is planned, in its target, and none when the
  list names the class;
* `planList_isOk_iff` — one is planned, or none, where there is a list.

Design notes: the list is given as a group among all tokens (`GroupAt`).  Without entries there are
only commas inside, and the new one goes before the closing bracket, where a line comment cannot
end; else it goes after a token that a comma or the closing bracket follows.
-/
namespace Graft.Registration

open Script

/-! ### New entries -/

section
variable {source : Text} {before inside after : List Token} {o c : Token}

theorem isMark_closing (h : GroupAt (tokens source) before o inside c after) :
    ∃ d, isCloser d = true ∧ c.text = [d] := by
  obtain ⟨d, hd, -, -, hm⟩ := enclosed?_eq_some_iff.mp h.group
  exact ⟨d, isCloser_of_closer? hd, (isMark_iff.mp hm).2⟩

theorem closer_not_ident {d : Char} (h : isCloser d = true) : isIdentChar d = false := by
  simp only [isCloser, Bool.or_eq_true, decide_eq_true_eq] at h
  rcases h with (rfl | rfl) | rfl <;> decide

theorem opening_punct (h : GroupAt (tokens source) before o inside c after) : o.kind = .punct := by
  obtain ⟨d, hd, -, -, -⟩ := enclosed?_eq_some_iff.mp h.group
  unfold Token.closer? at hd
  split at hd
  next hm => exact (isMark_iff.mp hm).1
  split at hd
  next hm => exact (isMark_iff.mp hm).1
  split at hd
  next hm => exact (isMark_iff.mp hm).1
  next => cases hd

/-- What stands before the end of a list without entries does not read on into an identifier. -/
theorem joins_closing (hc : Closed source) (h : GroupAt (tokens source) before o inside c after)
    (hin : ∀ t ∈ inside, t.isMark ',' = true) {d : Char} (hd : isIdentChar d = true) (t : Text) :
    Joins (source.take c.start) (d :: t) := by
  have htokens : tokens source = (before ++ o :: inside) ++ c :: after := by
    rw [h.eq, List.append_assoc]
    rfl
  obtain ⟨hb, htake⟩ := tokens_take_start hc htokens
  obtain ⟨e, he, htext⟩ := isMark_closing h
  intro x hx d' hd'
  obtain rfl : d = d' := Option.some.inj hd'
  rw [← Bool.not_eq_true]
  intro hreads
  rcases reads_ident hd hreads with ⟨g, rfl⟩ | ⟨w, rfl⟩
  · -- A line comment would have taken the closing bracket with it.
    have hnext : (source.drop c.start).head? = some e := by
      obtain ⟨rest, hrest⟩ := drop_start htokens
      rw [hrest, htext]
      rfl
    have hno : (e != '\n') = false := hb.joins _ hx e hnext
    rw [bne_eq_false_iff_eq] at hno
    rw [hno] at he
    cases he
  · -- The last token is a mark.
    obtain ⟨A, hA⟩ := List.getLast?_eq_some_iff.mp hx
    rw [tokens, hA, tokensFrom_append, tokensFrom, tokensFrom] at htake
    have hlast := congrArg List.getLast? htake
    rw [List.getLast?_concat, List.getLast?_append_of_ne_nil _ (List.cons_ne_nil _ _)] at hlast
    rcases List.mem_cons.mp (List.mem_of_getLast? hlast.symm) with ho | hm
    · have := opening_punct h
      rw [← ho] at this
      cases this
    · have := (isMark_iff.mp (hin _ hm)).1
      cases this

/-- A list without entries is given one before its end. -/
theorem sits_first (hc : Closed source) (h : GroupAt (tokens source) before o inside c after)
    (hin : ∀ t ∈ inside, t.isMark ',' = true) {entry : Text} (he : IsEntry entry) :
    Sits source ⟨c.start, entry⟩ := by
  have htokens : tokens source = (before ++ o :: inside) ++ c :: after := by
    rw [h.eq, List.append_assoc]
    rfl
  have hmem : c ∈ tokens source := by
    rw [htokens]
    simp
  have hle := (start_lt_stop hmem).le.trans (stop_le_length hmem)
  obtain ⟨hb, -⟩ := tokens_take_start hc htokens
  obtain ⟨e, hcl, htext⟩ := isMark_closing h
  obtain ⟨d, ds, hentry, hd⟩ := he.head
  refine ⟨fits_of_le hle entry, hb, ?_, he.closed, ?_, ?_⟩
  · rw [hentry]
    exact List.cons_ne_nil _ _
  · show Joins _ entry
    rw [hentry]
    exact joins_closing hc h hin hd ds
  · intro x hx e' he'
    refine he.last x hx e' ?_
    obtain ⟨rest, hrest⟩ := drop_start htokens
    have hnext : (source.drop c.start).head? = some e := by
      rw [hrest, htext]
      rfl
    obtain rfl : e = e' := Option.some.inj (hnext.symm.trans he')
    exact closer_not_ident hcl

theorem reads_comma (k : TokenKind) (x : Text) : (Piece.token k x).reads ',' = false := by
  unfold Piece.reads
  split
  next h => cases h
  · decide
  · rfl
  · rfl

/-- A list with entries is given one after the last of them. -/
theorem sits_next (hc : Closed source) {L R : List Token} {t y : Token}
    (h : tokens source = L ++ t :: y :: R) (hy : ∀ d ∈ y.text.head?, isIdentChar d = false)
    {lead entry : Text} (hl : Separator lead) (hne : lead ≠ []) (he : IsEntry entry) :
    Sits source ⟨t.stop, lead ++ entry⟩ := by
  have hle : t.stop ≤ source.length := stop_le_length (by rw [h]; simp)
  obtain ⟨A, B, hb, hA, -, -, -, -⟩ := exists_pieces_of_tokens hc h
  obtain ⟨hpieces, hclosed, -⟩ := pieces_separator hl entry
  obtain ⟨d, ds, hentry, hd⟩ := he.head
  refine ⟨fits_of_le hle _, hb, ?_, ?_, ?_, ?_⟩
  · exact List.append_ne_nil_of_left_ne_nil hne _
  · intro x hx
    rw [show pieces (lead ++ entry) = _ from hpieces, List.mem_append] at hx
    rcases hx with hx | hx
    · exact hclosed x hx
    · exact he.closed x hx
  · intro x hx e' he'
    have hlast : (pieces (source.take t.stop)).getLast? = some (.token t.kind t.text) := by
      rw [hA, List.getLast?_concat]
    obtain rfl : Piece.token t.kind t.text = x := Option.some.inj (hlast.symm.trans hx)
    rcases hl with rfl | ⟨blank, rfl, -⟩
    · exact absurd rfl hne
    · obtain rfl : ',' = e' := Option.some.inj he'
      exact reads_comma _ _
  · intro x hx e' he'
    have hpne : pieces entry ≠ [] := by
      rw [Ne, pieces_eq_nil, hentry]
      exact List.cons_ne_nil _ _
    rw [show pieces (lead ++ entry) = _ from hpieces,
      List.getLast?_append_of_ne_nil _ hpne] at hx
    exact he.last x hx e' (head_drop_stop hc hy h e' he')

theorem appendEntry_nil (h : entries inside = []) (o c : Token) (entry : Text) :
    appendEntry source o inside c entry = ⟨c.start, entry⟩ := by
  rw [appendEntry, h]
  rfl

theorem isSpace_indentation (n : Nat) : ∀ c ∈ indentation source n, isSpace c = true := by
  intro c hc
  have hblank := List.mem_takeWhile_imp hc
  rw [Bool.or_eq_true, decide_eq_true_eq, decide_eq_true_eq] at hblank
  rcases hblank with rfl | rfl <;> decide

/-- A new entry after others goes to the end of the last token of the last of them. -/
theorem appendEntry_concat {last : Token} {E : List (List Token)} {e : List Token}
    (h : entries inside = E ++ [e ++ [last]]) (o c : Token) (entry : Text) :
    ∃ lead, Separator lead ∧ lead ≠ [] ∧
      appendEntry source o inside c entry = ⟨last.stop, lead ++ entry⟩ := by
  obtain ⟨first, rest, hfirst⟩ := List.exists_cons_of_ne_nil (List.concat_ne_nil last e)
  have hlast : (first :: rest).getLast (List.cons_ne_nil _ _) = last := by
    simp only [← hfirst, List.getLast_concat]
  rw [hfirst] at h
  rw [appendEntry, h, List.getLast?_concat]
  simp only [hlast]
  refine ⟨_, ?_, ?_, rfl⟩
  · split
    · refine .inr ⟨'\n' :: indentation source first.start, rfl, ?_⟩
      exact List.forall_mem_cons.mpr ⟨by decide, isSpace_indentation _⟩
    · exact .inr ⟨[' '], rfl, List.all_eq_true.mp (by decide)⟩
  · split <;> exact List.cons_ne_nil _ _

/-- Behind the last entry of a list stand commas and the closing bracket, which go on with no identifier. -/
theorem exists_behind_commas (h : GroupAt (tokens source) before o inside c after) {commas : List Token}
    (hcommas : ∀ t ∈ commas, t.isMark ',' = true) : ∃ y R, commas ++ c :: after = y :: R ∧
      ∀ d ∈ y.text.head?, isIdentChar d = false := by
  cases commas with
  | nil =>
    obtain ⟨d, hd, htext⟩ := isMark_closing h
    refine ⟨c, after, rfl, ?_⟩
    rw [htext]
    exact head_not_ident (closer_not_ident hd) []
  | cons y ys =>
    refine ⟨y, _, rfl, ?_⟩
    rw [(isMark_iff.mp (hcommas y List.mem_cons_self)).2]
    exact head_not_ident (by decide) []

/-- A new entry in its list. -/
structure Appended (source : Text) (before : List Token) (o : Token) (inside : List Token)
    (c : Token) (entry : Text) (e : Insertion) : Prop where
  sits : Sits source e
  -- It stands after the opening bracket.
  opening : o.stop ≤ place e
  -- It stands before the closing bracket.
  closing : place e ≤ c.start
  -- A comma stands before it when there are others, and it is the last.
  last : ∃ lead I J, Separator lead ∧ e.text = lead ++ entry ∧
    (lead = [] ↔ entries inside = []) ∧ inside = I ++ J ∧
    tokens (source.take (place e)) = before ++ o :: I ∧
    ∀ G, Flat G → G ≠ [] → entries (I ++ ((separatorRun lead ++ G) ++ J)) = entries inside ++ [G]

/-- **A new entry sits inside of its list**, before the closing bracket or after the last entry. -/
theorem appendEntry_sits (hc : Closed source)
    (h : GroupAt (tokens source) before o inside c after) {entry : Text} (he : IsEntry entry) :
    Appended source before o inside c entry (appendEntry source o inside c entry) := by
  obtain ⟨k, -, -, hnested, -⟩ := enclosed?_eq_some_iff.mp h.group
  rcases List.eq_nil_or_concat (entries inside) with hnil | ⟨E, e, hconcat⟩
  · have hcommas := entries_eq_nil_iff.mp hnil
    have htokens : tokens source = (before ++ o :: inside) ++ c :: after := by
      rw [h.eq, List.append_assoc]
      rfl
    rw [appendEntry_nil hnil]
    refine ⟨sits_first hc h hcommas he, stop_le_start h.eq, le_refl _, [], inside, [], .inl rfl, rfl,
      iff_of_true rfl hnil, (List.append_nil _).symm, (tokens_take_start hc htokens).2,
      fun G hG hne => ?_⟩
    rw [hnil]
    exact entries_single hcommas (by simp) hG hne
  · rw [List.concat_eq_append] at hconcat
    obtain ⟨hne, X, Y, rfl, hY, hXe⟩ := exists_last_entry hconcat
    have hdepth : depthAfter 0 (X ++ e) = 0 := by
      have hall := hnested.depthAfter 0
      rwa [← List.append_assoc, depthAfter_append, depthAfter_of_isMark hY] at hall
    obtain ⟨e', last, rfl⟩ : ∃ e' last, e = e' ++ [last] :=
      ⟨_, _, (List.dropLast_concat_getLast hne).symm⟩
    obtain ⟨lead, hl, hlne, hmade⟩ := appendEntry_concat hconcat o c entry
    obtain ⟨y, R, hyR, hy⟩ := exists_behind_commas h hY
    have htokens : tokens source = (before ++ o :: (X ++ e')) ++ last :: y :: R := by
      rw [h.eq, ← hyR]
      simp only [List.append_assoc, List.cons_append, List.nil_append]
    rw [hmade]
    refine ⟨sits_next hc htokens hy hl hlne he, ?_, ?_, lead, X ++ (e' ++ [last]), Y, hl, rfl, ?_,
      (List.append_assoc _ _ _).symm, ?_, fun G hG hGne => ?_⟩
    · have hle : o.stop ≤ last.start := stop_le_start (L := before) (M := X ++ e') (R := y :: R)
        (by rw [htokens, List.append_assoc]; rfl)
      exact hle.trans (Nat.le_add_right _ _)
    · exact stop_le_start (L := before ++ o :: (X ++ e')) (M := Y) (R := after)
        (by rw [htokens, ← hyR])
    · refine iff_of_false hlne ?_
      rw [hconcat]
      simp
    · have htake := (tokens_take_stop hc htokens).2
      show tokens (source.take last.stop) = _
      rw [htake]
      simp
    · have hcomma : separatorRun lead = [markToken ','] := if_neg hlne
      rw [hcomma, hconcat, ← hXe, ← entries_single (X := []) (by simp) hY hG hGne]
      exact entries_append_comma hdepth rfl _

end

/-! ### What is planned -/

/-- The list that a new entry goes into, with its brackets, and what is added to it: the name, or
the list that the object lacks. -/
inductive Target (r : Request) (d : Descriptor) :
    Token → List Token → Token → Text → List Token → Prop
  -- The list under the key of the role.
  | list {e rest : List Token} {o : Token} {g : Group}
      (property : d.property? r.role.property = some e) (value : e.drop 2 = o :: rest)
      (mark : o.isMark '[' = true) (group : enclosed? (o :: rest) = some g) :
      Target r d o g.inside g.closing r.symbol [wordToken r.symbol]
  -- The object itself, which has no such key.
  | object (property : d.property? r.role.property = none) :
      Target r d d.opening d.inside d.closing (listText r.role.property r.symbol)
        (listRun r.role.property r.symbol)

variable {source entry : Text} {r : Request} {d : Descriptor} {o c : Token} {inside run : List Token}

theorem Target.isEntry (h : Target r d o inside c entry run) (hs : IsSymbol r.symbol) :
    IsEntry entry ∧ bareTokens entry = run := by
  cases h with
  | list => exact isEntry_symbol hs
  | object => exact isEntry_list hs r.role

theorem plain_wordToken (w : Text) : Plain (wordToken w) := plain_of_kind TokenKind.noConfusion

theorem flat_wordToken (w : Text) : Flat [wordToken w] :=
  flat_plain (plain_wordToken w) fun h => TokenKind.noConfusion (isMark_iff.mp h).1

theorem entryName?_wordToken {s : Text} (hs : IsSymbol s) : entryName? [wordToken s] = some s := by
  have hkeep : ((wordToken s).kind == .ident && (wordToken s).text != "type".toList) = true := by
    rw [Bool.and_eq_true, bne_iff_ne]
    exact ⟨rfl, hs.notType⟩
  have hall : [wordToken s].filter (fun t => t.kind == .ident && t.text != "type".toList) =
      [wordToken s] := List.filter_cons_of_pos hkeep
  rw [entryName?, hall]
  rfl

theorem enclosed?_listRun (s : Text) : enclosed? [markToken '[', wordToken s, markToken ']'] =
    some ⟨[wordToken s], markToken ']', []⟩ :=
  enclosed?_eq_some_iff.mpr ⟨']', rfl, rfl, nested_plain (plain_wordToken s), rfl⟩

theorem flat_listRun (key s : Text) : Flat (listRun key s) := by
  have hcolon : Flat [markToken ':'] := flat_plain (plain_of_isMark (c := ':') rfl rfl) (by decide)
  have hlist : Flat [markToken '[', wordToken s, markToken ']'] :=
    flat_group (o := markToken '[') (k := ']') rfl (nested_plain (plain_wordToken s)) rfl
  exact (flat_wordToken key).append (hcolon.append hlist)

theorem entryName?_listRun (key : Text) {s : Text} (hs : IsSymbol s) :
    entryName? (listRun key s) = some s := by
  have hsplit : listRun key s = [wordToken key, markToken ':', markToken '['] ++
      ([wordToken s] ++ [markToken ']']) := rfl
  have hclosing : entryName? [markToken ']'] = none := rfl
  rw [hsplit, entryName?_append, entryName?_append, entryName?_wordToken hs, hclosing]
  rfl

/-- What is added is one entry, and the last name in it is the one that is registered. -/
theorem Target.run_spec (h : Target r d o inside c entry run) (hs : IsSymbol r.symbol) :
    Flat run ∧ run ≠ [] ∧ entryName? run = some r.symbol := by
  cases h with
  | list =>
    exact ⟨flat_wordToken _, List.cons_ne_nil _ _, entryName?_wordToken hs⟩
  | object =>
    exact ⟨flat_listRun _ _, List.cons_ne_nil _ _, entryName?_listRun _ hs⟩

/-- The list as a group among all tokens.  When something is put into it that makes the new entry its
last, the list under the key of the role has the name as a new last entry, and the others are as before. -/
theorem Target.exists_group (h : Target r d o inside c entry run) {E : List (List Token)}
    (hlist : d.list? r.role.property = some E) {ts before after : List Token}
    (hobject : GroupAt ts before d.opening d.inside d.closing after) :
    ∃ before' after', GroupAt ts before' o inside c after' ∧
      ∀ I J R, inside = I ++ J → Nested R → entries (I ++ (R ++ J)) = entries inside ++ [run] →
        ∃ D F, d.inside = D ++ F ∧ before' ++ o :: I = before ++ d.opening :: D ∧
          { d with inside := D ++ (R ++ F) }.list? r.role.property =
            some (E ++ [[wordToken r.symbol]]) ∧
          ∀ k, k ≠ r.role.property → { d with inside := D ++ (R ++ F) }.list? k = d.list? k := by
  cases h with
  | @list e rest o g property value mark group =>
    obtain ⟨X, Y, hvalue⟩ := exists_valueAt property value group
    obtain ⟨k, -, -, hnested, -⟩ := enclosed?_eq_some_iff.mp group
    obtain rfl : entries g.inside = E :=
      Option.some.inj ((list?_of_group property value mark group).symm.trans hlist)
    have hin : GroupAt d.inside X o g.inside g.closing Y :=
      ⟨by rw [hvalue.eq]; simp, enclosed?_change_after group Y⟩
    have hall := hin.extend (before ++ [d.opening]) (d.closing :: after)
    have htokens : ts = before ++ [d.opening] ++ (d.inside ++ d.closing :: after) := by
      rw [hobject.eq, List.append_assoc]
      rfl
    rw [← htokens] at hall
    refine ⟨_, _, hall, ?_⟩
    rintro I J R hIJ hR hentries
    have hJ : Nested (I ++ (R ++ J)) := by
      rw [hIJ] at hnested
      exact (nested_splice hR I J).mpr hnested
    obtain ⟨e', rest', after', hproperty, hdrop, hgroup⟩ := hvalue.replace _ hJ
    have hshape : (X ++ o :: I) ++ (R ++ (J ++ g.closing :: Y)) =
        X ++ (o :: ((I ++ (R ++ J)) ++ [g.closing]) ++ Y) := by simp
    refine ⟨X ++ o :: I, J ++ g.closing :: Y, ?_, ?_, ?_, fun k hk => ?_⟩
    · rw [hvalue.eq, hIJ]
      simp
    · simp
    · rw [hshape, ← hentries]
      exact list?_of_group hproperty hdrop mark hgroup
    · rw [hshape]
      exact list?_congr (hvalue.other _ hJ k hk)
  | object property =>
    obtain rfl : E = [] := by
      rcases list?_eq_some hlist with ⟨e, -, -, -, hproperty, -⟩ | ⟨-, -, hnil⟩
      · rw [property] at hproperty
        cases hproperty
      · exact hnil
    refine ⟨before, after, hobject, ?_⟩
    rintro I J R hIJ - hentries
    refine ⟨I, J, hIJ, rfl, ?_, fun k hk => ?_⟩
    · have hlist := list?_of_group (property?_of_concat (d := { d with inside := I ++ (R ++ J) })
        hentries rfl) rfl rfl (enclosed?_listRun r.symbol)
      rwa [entries_flat (flat_wordToken r.symbol) (List.cons_ne_nil _ _)] at hlist
    · refine list?_congr ?_
      have hother := property?_of_ne (d := { d with inside := I ++ (R ++ J) }) hentries rfl hk
      rwa [List.append_nil] at hother

/-- No entry is planned when the list names the class; else one, in its target. -/
theorem planList_eq_ok {list : List Insertion} (h : planList source r d = .ok list) :
    (list = [] ∧ d.Lists r.role.property r.symbol) ∨ ∃ o inside c entry run,
      Target r d o inside c entry run ∧ list = [appendEntry source o inside c entry] := by
  rw [planList] at h
  split at h
  next e hproperty =>
    unfold planEntry at h
    split at h
    next => cases h
    next o rest hvalue =>
      split at h
      next hmark =>
        split at h
        next => cases h
        next g hg =>
          split at h
          next hany =>
            obtain ⟨f, hf, hhead⟩ := List.any_eq_true.mp hany
            obtain ⟨t, ht, hw⟩ := (Option.any_eq_true _ _).mp hhead
            exact .inl ⟨(Except.ok.inj h).symm, e, o, rest, g, hproperty, hvalue, hmark, hg, f, hf,
              t, ht, hw⟩
          next =>
            exact .inr ⟨o, g.inside, g.closing, r.symbol, _, .list hproperty hvalue hmark hg,
              (Except.ok.inj h).symm⟩
      next => cases h
  next hproperty =>
    split at h
    next => exact .inr ⟨_, _, _, _, _, .object hproperty, (Except.ok.inj h).symm⟩
    next => cases h

theorem planList_length_le {list : List Insertion} (h : planList source r d = .ok list) :
    list.length ≤ 1 := by
  rcases planList_eq_ok h with ⟨rfl, -⟩ | ⟨o, inside, c, entry, run, -, rfl⟩
  · exact Nat.zero_le _
  · exact le_refl _

/-- An entry is planned where there is a list, or may be one. -/
theorem planList_isOk_iff : (∃ list, planList source r d = .ok list) ↔
    ∃ E, d.list? r.role.property = some E := by
  constructor
  · rintro ⟨list, h⟩
    rcases planList_eq_ok h with ⟨-, hlists⟩ | ⟨o, inside, c, entry, run, htarget, -⟩
    · obtain ⟨E, hE, -⟩ := Descriptor.lists_iff.mp hlists
      exact ⟨E, hE⟩
    · cases htarget with
      | list property value mark group => exact ⟨_, list?_of_group property value mark group⟩
      | object property =>
        refine ⟨[], list?_of_none property ?_⟩
        rw [planList, property] at h
        cases hdeco : d.decorator with
        | ngModule => rfl
        | component =>
          rw [hdeco] at h
          cases h
  · rintro ⟨E, hE⟩
    rcases list?_eq_some hE with ⟨e, o, rest, g, hproperty, he, ho, hg, -⟩ | ⟨hproperty, hdeco, -⟩
    · rw [planList, hproperty]
      show ∃ list, planEntry source r (e.drop 2) = .ok list
      unfold planEntry
      simp only [he, ho, if_true, hg]
      split
      · exact ⟨_, rfl⟩
      · exact ⟨_, rfl⟩
    · rw [planList, hproperty]
      simp only [hdeco]
      exact ⟨_, rfl⟩

/-- Where the list names the class nothing is added. -/
theorem planList_of_lists (h : d.Lists r.role.property r.symbol) : planList source r d = .ok [] := by
  obtain ⟨e, o, rest, g, hproperty, hvalue, hmark, hg, f, hf, t, ht, hw⟩ := h
  have hany : ((entries g.inside).any fun e => e.head?.any fun t => t.isWord r.symbol) = true :=
    List.any_eq_true.mpr ⟨f, hf, (Option.any_eq_true _ _).mpr ⟨t, ht, hw⟩⟩
  rw [planList, hproperty]
  show planEntry source r (e.drop 2) = _
  unfold planEntry
  simp only [hvalue, hmark, if_true, hg, hany]

end Graft.Registration
