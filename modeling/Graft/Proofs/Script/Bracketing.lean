import Graft.Proofs.Script.Indexed

/-
Lists in brackets, written and read again.

* `Balanced ts` — tokens in which brackets of the three shapes are properly nested;
* `balanced_iff_nested` — they are those that close every bracket they open, and no other;
* `closingAt_eq_some_iff` — **the closing bracket ends the shortest balanced run** from the opening one on;
* `IsItem e`, `Listing es ts` — what may be listed, and a list of it with commas;
* `places i es` — where the items of a list begin and end;
* `Listing.spansAt`, `Listing.entries_eq` — **the entries that are read are the items that were written**.

Design notes: brackets are matched with a stack and entries are told apart with a count, and neither is in
the grammar.  For an item both come down to `Flat`: no bracket is left open behind it, and no comma in it
stands where the count is nought.
-/
namespace Graft.Script

/-! ### Balanced tokens -/

/-- Tokens in which every bracket is closed by one of its shape, with balanced tokens between them. -/
inductive Balanced : List Token → Prop
  | nil : Balanced []
  | plain {t : Token} {ts : List Token} : Plain t → Balanced ts → Balanced (t :: ts)
  | group {o c : Token} {k : Char} {ts us : List Token} : o.closer? = some k → Balanced ts →
      c.isMark k = true → Balanced us → Balanced (o :: (ts ++ c :: us))

section
variable {o c t : Token} {k : Char} {ts us : List Token}

theorem append_group (o c : Token) (ts us : List Token) :
    o :: (ts ++ c :: us) = (o :: (ts ++ [c])) ++ us := by
  simp

theorem Balanced.nested (h : Balanced ts) : Nested ts := by
  induction h with
  | nil => exact nested_nil
  | plain ht _ ih => exact (nested_plain ht).append ih
  | @group o c k ts us ho _ hc _ ih ihu =>
    rw [append_group]
    exact (flat_group ho ih hc).nested.append ihu

/-- A bracket that opens nested tokens begins a group, and nested tokens follow it. -/
theorem exists_group_of_nested_cons (h : Nested (o :: ts)) (ho : o.closer? = some k) :
    ∃ I c us, ts = I ++ c :: us ∧ Nested I ∧ c.isMark k = true ∧ Nested us := by
  obtain ⟨I, c, us, rfl, hI, hc⟩ := exists_group_of_nested (A := []) h ho
  rw [append_group] at h
  exact ⟨I, c, us, rfl, hI, hc, (nested_splice (flat_group ho hI hc).nested [] us).mp h⟩

/-- Nested tokens do not begin with a closing bracket. -/
theorem plain_of_nested_cons (h : Nested (t :: ts)) (ht : t.closer? = none) : Plain t ∧ Nested ts := by
  obtain ⟨s, hone, hrest⟩ := Option.bind_eq_some_iff.mp (show (settleOne t []).bind _ = _ from h)
  rcases settleOne_cases hone with ⟨k, hk, -⟩ | ⟨-, -, k, -, hs⟩ | ⟨-, hcl, rfl⟩
  · rw [ht] at hk
    cases hk
  · cases hs
  · exact ⟨⟨Bool.eq_false_iff.mpr (not_opens_of_closer? ht), Bool.eq_false_iff.mpr hcl⟩, hrest⟩

theorem Nested.balanced (h : Nested ts) : Balanced ts := by
  induction hn : ts.length using Nat.strong_induction_on generalizing ts with
  | h n ih =>
    cases ts with
    | nil => exact .nil
    | cons t ts =>
      rw [List.length_cons] at hn
      cases ht : t.closer? with
      | none =>
        obtain ⟨hplain, hts⟩ := plain_of_nested_cons h ht
        exact .plain hplain (ih ts.length (by omega) hts rfl)
      | some k =>
        obtain ⟨I, c, us, rfl, hI, hc, hus⟩ := exists_group_of_nested_cons h ht
        rw [List.length_append, List.length_cons] at hn
        exact .group ht (ih I.length (by omega) hI rfl) hc (ih us.length (by omega) hus rfl)

theorem balanced_iff_nested : Balanced ts ↔ Nested ts := ⟨Balanced.nested, Nested.balanced⟩

end

instance (ts : List Token) : Decidable (Balanced ts) :=
  decidable_of_iff (settle [] ts = some []) balanced_iff_nested.symm

/-! ### The closing bracket -/

section
variable {ts rest : List Token} {o : Token} {i j : Nat}

theorem cut_eq_take (h : ts.drop i = o :: rest) (hj : i ≤ j) :
    cut ts (i, j) = o :: rest.take (j - i) := by
  rw [cut, List.drop_take, h, show j + 1 - i = j - i + 1 by omega, List.take_succ_cons]

/-- A balanced run from an opening bracket on reaches to the end of a group at least. -/
theorem exists_enclosed?_of_balanced {n : Nat} (ho : o.opens = true)
    (h : Balanced (o :: rest.take n)) :
    ∃ g, enclosed? (o :: rest) = some g ∧ g.inside.length + 1 ≤ n := by
  obtain ⟨k, hk⟩ := Option.isSome_iff_exists.mp ho
  obtain ⟨I, c, us, hrest, hI, hc, -⟩ := exists_group_of_nested_cons h.nested hk
  have hwhole : rest = I ++ c :: (us ++ rest.drop n) := by
    conv_lhs => rw [← List.take_append_drop n rest, hrest]
    simp
  have hlen := congrArg List.length hrest
  rw [List.length_take, List.length_append, List.length_cons] at hlen
  exact ⟨⟨I, c, us ++ rest.drop n⟩, enclosed?_eq_some_iff.mpr ⟨k, hk, hwhole, hI, hc⟩, by
    show I.length + 1 ≤ n
    omega⟩

/-- A group is a balanced run. -/
theorem balanced_of_enclosed? {g : Group} (h : enclosed? (o :: rest) = some g) :
    Balanced (o :: rest.take (g.inside.length + 1)) := by
  obtain ⟨k, hk, hrest, hI, hc⟩ := enclosed?_eq_some_iff.mp h
  have htake : rest.take (g.inside.length + 1) = g.inside ++ [g.closing] := by
    conv_lhs => rw [hrest, List.append_cons]
    exact List.take_left' (by simp)
  rw [htake]
  exact .group hk hI.balanced hc .nil

/-- **The bracket that closes the one at an index ends the shortest balanced run from there on.** -/
theorem closingAt_eq_some_iff (hi : ts[i]? = some o) (ho : o.opens = true) :
    closingAt ts i = .ok (some j) ↔
      i ≤ j ∧ j < ts.length ∧ Balanced (cut ts (i, j)) ∧
        ∀ m, i ≤ m → m < j → ¬ Balanced (cut ts (i, m)) := by
  obtain ⟨hlt, rfl⟩ := List.getElem?_eq_some_iff.mp hi
  have hdrop := List.drop_eq_getElem_cons hlt
  obtain ⟨k, hk⟩ := Option.isSome_iff_exists.mp ho
  rw [closingAt_eq hdrop hk, Except.ok.injEq, Option.map_eq_some_iff]
  constructor
  · rintro ⟨g, hg, rfl⟩
    have hlen := congrArg List.length (eq_of_enclosed? hg)
    rw [List.length_drop, List.length_append, List.length_cons] at hlen
    refine ⟨by omega, by omega, ?_, fun m hm hshort hbalanced => ?_⟩
    · rw [cut_eq_take hdrop (by omega), show i + 1 + g.inside.length - i = g.inside.length + 1 by omega]
      exact balanced_of_enclosed? hg
    · rw [cut_eq_take hdrop hm] at hbalanced
      obtain ⟨g', hg', hend⟩ := exists_enclosed?_of_balanced ho hbalanced
      obtain rfl := Option.some.inj (hg.symm.trans hg')
      omega
  · rintro ⟨hle, hj, hbalanced, hshortest⟩
    rw [cut_eq_take hdrop hle] at hbalanced
    obtain ⟨g, hg, hend⟩ := exists_enclosed?_of_balanced ho hbalanced
    refine ⟨g, hg, ?_⟩
    by_contra hne
    refine hshortest (i + 1 + g.inside.length) (by omega) (by omega) ?_
    rw [cut_eq_take hdrop (by omega), show i + 1 + g.inside.length - i = g.inside.length + 1 by omega]
    exact balanced_of_enclosed? hg

end

/-! ### Lists -/

/-- Tokens that may stand in a list as one item. -/
structure IsItem (e : List Token) : Prop where
  nonempty : e ≠ []
  balanced : Balanced e
  -- What is before a comma has a bracket that is still open.
  unseparated : ∀ X k Y, e = X ++ k :: Y → k.isMark ',' = true → ¬ Balanced X

/-- The tokens of a list: items with commas between them, and perhaps one behind the last. -/
inductive Listing : List (List Token) → List Token → Prop
  | empty : Listing [] []
  | last (e : List Token) : Listing [e] e
  | comma {e : List Token} {es : List (List Token)} {k : Token} {ts : List Token} :
      k.isMark ',' = true → Listing es ts → Listing (e :: es) (e ++ k :: ts)

/-- The indices of the first and the last token of each item, in a list from an index on. -/
def places (i : Nat) : List (List Token) → List (Nat × Nat)
  | [] => []
  | e :: es => (i, i + e.length - 1) :: places (i + e.length + 1) es

theorem Balanced.flat {e : List Token} (h : Balanced e)
    (hcomma : ∀ X k Y, e = X ++ k :: Y → k.isMark ',' = true → ¬ Balanced X) : Flat e := by
  induction h with
  | nil => exact ⟨nested_nil, fun d _ => parts_nil d⟩
  | @plain t ts ht _ ih =>
    have hrest := ih fun X k Y hts hk hX => hcomma (t :: X) k Y (by rw [hts]; rfl) hk (.plain ht hX)
    exact (flat_plain ht fun hk => hcomma [] t ts rfl hk .nil).append hrest
  | @group o c k ts us ho hts hc _ _ ih =>
    -- Commas within the group do not matter; those behind it have the whole group before them.
    have hrest := ih fun X k Y hus hk hX =>
      hcomma (o :: (ts ++ c :: X)) k Y (by rw [hus]; simp) hk (.group ho hts hc hX)
    rw [append_group]
    exact (flat_group ho hts.nested hc).append hrest

/-- An item is told by its brackets and by each of its commas. -/
theorem isItem_iff {e : List Token} : IsItem e ↔ e ≠ [] ∧ Balanced e ∧
    ∀ n : Fin e.length, e[n].isMark ',' = true → ¬ Balanced (e.take n) := by
  constructor
  · rintro ⟨hne, hbalanced, hcomma⟩
    refine ⟨hne, hbalanced, fun n hn => hcomma (e.take n) e[n] (e.drop (n + 1)) ?_ hn⟩
    conv_lhs => rw [← List.take_append_drop n e, List.drop_eq_getElem_cons n.isLt]
    rfl
  · rintro ⟨hne, hbalanced, hcomma⟩
    refine ⟨hne, hbalanced, ?_⟩
    rintro X k Y rfl hk
    have h := hcomma ⟨X.length, by simp⟩ (by simpa using hk)
    rwa [List.take_left] at h

instance (e : List Token) : Decidable (IsItem e) := decidable_of_iff _ isItem_iff.symm

theorem IsItem.flat {e : List Token} (h : IsItem e) : Flat e := h.balanced.flat h.unseparated

section
variable {es : List (List Token)} {ts : List Token}

theorem Listing.nested (h : Listing es ts) (hes : ∀ e ∈ es, IsItem e) : Nested ts := by
  induction h with
  | empty => exact nested_nil
  | last e => exact (hes e (List.mem_singleton_self e)).flat.nested
  | @comma e es k ts hk _ ih =>
    obtain ⟨he, hes⟩ := List.forall_mem_cons.mp hes
    exact he.flat.nested.append ((nested_plain (plain_of_isMark hk (by decide))).append (ih hes))

/-- **The entries of a list are its items.** -/
theorem Listing.entries_eq (h : Listing es ts) (hes : ∀ e ∈ es, IsItem e) : entries ts = es := by
  induction h with
  | empty => rfl
  | last e =>
    have he := hes e (List.mem_singleton_self e)
    exact entries_flat he.flat he.nonempty
  | @comma e es k ts hk _ ih =>
    obtain ⟨he, hes⟩ := List.forall_mem_cons.mp hes
    rw [entries_append_comma (he.flat.nested.depthAfter 0) hk, entries_flat he.flat he.nonempty, ih hes]
    rfl

end

/-! ### Items by their indices -/

section
variable {ts rest : List Token} {close i : Nat}

theorem parts_cons_eq_singleton {d : Int} {t : Token} {e : List Token} (h : parts d (t :: e) = [t :: e]) :
    ¬ (d = 0 ∧ t.isMark ',' = true) ∧ parts (shift d t) e = [e] := by
  by_cases hk : d = 0 ∧ t.isMark ',' = true
  · rw [hk.1, parts_comma hk.2] at h
    exact absurd (List.cons.inj h).1.symm (List.cons_ne_nil t e)
  · rw [parts_cons hk rfl] at h
    obtain ⟨hfirst, hothers⟩ := List.cons.inj h
    exact ⟨hk, List.cons_eq_cons.mpr ⟨(List.cons.inj hfirst).2, hothers⟩⟩

/-- Tokens that are one part belong to the entry that has begun. -/
theorem spansFrom_part {d : Int} {e : List Token} (h : ts.drop i = e ++ rest)
    (hclose : i + e.length ≤ close) (hpart : parts d e = [e]) (a : Nat) :
    spansFrom ts close d (some a) i = spansFrom ts close (depthAfter d e) (some a) (i + e.length) := by
  induction e generalizing d i with
  | nil => rfl
  | cons t e ih =>
    -- No token of the part is a comma that counts, so each leaves the entry as it has begun.
    obtain ⟨hk, hrest⟩ := parts_cons_eq_singleton hpart
    rw [List.length_cons] at hclose ⊢
    rw [spansFrom_cons h (by omega), if_neg hk, Option.getD_some,
      ih (drop_succ_of_drop h) (by omega) hrest, show i + 1 + e.length = i + (e.length + 1) by omega]
    rfl

/-- An item begins an entry. -/
theorem spansFrom_item {e : List Token} (he : IsItem e) (h : ts.drop i = e ++ rest)
    (hclose : i + e.length ≤ close) :
    spansFrom ts close 0 none i = spansFrom ts close 0 (some i) (i + e.length) := by
  obtain ⟨t, e, rfl⟩ := List.exists_cons_of_ne_nil he.nonempty
  have hpart := he.flat.parts_eq 0 (Int.le_refl 0)
  have hfirst : spansFrom ts close 0 none i = spansFrom ts close 0 (some i) i := by
    obtain ⟨hk, -⟩ := parts_cons_eq_singleton hpart
    rw [List.length_cons] at hclose
    rw [spansFrom_cons h (by omega), if_neg hk, spansFrom_cons h (by omega), if_neg hk]
    rfl
  rw [hfirst, spansFrom_part h hclose hpart, he.flat.nested.depthAfter]

theorem spansFrom_listing {es : List (List Token)} {inside : List Token} (hlist : Listing es inside)
    (hes : ∀ e ∈ es, IsItem e) (h : ts.drop i = inside ++ rest) :
    spansFrom ts (i + inside.length) 0 none i = .ok (places i es) := by
  induction hlist generalizing i with
  | empty =>
    rw [spansFrom, dif_neg (by simp)]
    rfl
  | last e =>
    have he := hes e (List.mem_singleton_self e)
    rw [spansFrom_item he h (Nat.le_refl _), spansFrom, dif_neg (Nat.lt_irrefl _)]
    rfl
  | @comma e es k inside hk _ ih =>
    obtain ⟨he, hes⟩ := List.forall_mem_cons.mp hes
    rw [List.append_assoc] at h
    have hcomma := drop_append_of_drop h
    rw [List.length_append, List.length_cons, spansFrom_item he h (by omega),
      spansFrom_cons hcomma (by omega), if_pos ⟨rfl, hk⟩,
      show i + (e.length + (inside.length + 1)) = i + e.length + 1 + inside.length by omega,
      ih hes (drop_succ_of_drop hcomma)]
    rfl

end

/-! ### Lists among other tokens -/

/-- A list in brackets is read again, whatever stands before and behind it. -/
theorem Listing.reread {es : List (List Token)} {inside : List Token} (h : Listing es inside)
    (hes : ∀ e ∈ es, IsItem e) {o c : Token} {k : Char} (ho : o.closer? = some k)
    (hc : c.isMark k = true) (before after : List Token) :
    closingAt (before ++ o :: (inside ++ c :: after)) before.length =
        .ok (some (before.length + 1 + inside.length)) ∧
      spansAt (before ++ o :: (inside ++ c :: after)) before.length
          (before.length + 1 + inside.length) = .ok (places (before.length + 1) es) := by
  have hdrop : (before ++ o :: (inside ++ c :: after)).drop before.length =
      o :: (inside ++ c :: after) := List.drop_left
  have hgroup : enclosed? (o :: (inside ++ c :: after)) = some ⟨inside, c, after⟩ :=
    enclosed?_eq_some_iff.mpr ⟨k, ho, rfl, h.nested hes, hc⟩
  constructor
  · rw [closingAt_eq hdrop ho, hgroup]
    rfl
  · exact spansFrom_listing h hes (drop_succ_of_drop hdrop)

/-- **Matching brackets and telling entries apart undo the writing of lists**, and the bracket that closes
another ends the shortest balanced run from there on. -/
theorem brackets_reread :
    (∀ (es : List (List Token)) (inside before after : List Token) (o c : Token) (k : Char),
      Listing es inside → (∀ e ∈ es, IsItem e) → o.closer? = some k → c.isMark k = true →
      closingAt (before ++ o :: (inside ++ c :: after)) before.length =
          .ok (some (before.length + 1 + inside.length)) ∧
        spansAt (before ++ o :: (inside ++ c :: after)) before.length
            (before.length + 1 + inside.length) = .ok (places (before.length + 1) es) ∧
        enclosed? (o :: (inside ++ c :: after)) = some ⟨inside, c, after⟩ ∧ entries inside = es) ∧
    ∀ (ts : List Token) (i : Nat) (o : Token), ts[i]? = some o → o.opens = true →
      closingAt ts i = .ok ((enclosed? (ts.drop i)).map fun g => i + 1 + g.inside.length) ∧
        ∀ j, closingAt ts i = .ok (some j) ↔ i ≤ j ∧ j < ts.length ∧ Balanced (cut ts (i, j)) ∧
          ∀ m, i ≤ m → m < j → ¬ Balanced (cut ts (i, m)) := by
  constructor
  · intro es inside before after o c k hlist hes ho hc
    obtain ⟨hclosing, hspans⟩ := hlist.reread hes ho hc before after
    exact ⟨hclosing, hspans, enclosed?_eq_some_iff.mpr ⟨k, ho, rfl, hlist.nested hes, hc⟩,
      hlist.entries_eq hes⟩
  · intro ts i o hi ho
    refine ⟨?_, fun j => closingAt_eq_some_iff hi ho⟩
    obtain ⟨hlt, rfl⟩ := List.getElem?_eq_some_iff.mp hi
    obtain ⟨k, hk⟩ := Option.isSome_iff_exists.mp ho
    rw [closingAt_eq (List.drop_eq_getElem_cons hlt) hk, List.drop_eq_getElem_cons hlt]

/-- Tokens of one character each, one behind the other, from an offset on. -/
def singles (offset : Nat) (t : Text) : List Token :=
  (t.zipIdx offset).map fun c => ⟨if isIdentChar c.1 then .ident else .punct, c.2, [c.1]⟩

/-- A list of three items with a comma behind the last, after a bracket that closes nothing and before one
that is never closed. -/
def crowded : List Token := singles 0 "f)[a,g(b,{c}),[],](".toList

/-- The items of the list, and what stands in its brackets. -/
def crowdedItems : List (List Token) :=
  [singles 3 "a".toList, singles 5 "g(b,{c})".toList, singles 14 "[]".toList]

def crowdedInside : List Token := singles 3 "a,g(b,{c}),[],".toList

theorem brackets_reread_crowded :
    Listing crowdedItems crowdedInside ∧ (∀ e ∈ crowdedItems, IsItem e) ∧
      closingAt crowded 2 = .ok (some 17) ∧ spansAt crowded 2 17 = .ok [(3, 3), (5, 12), (14, 15)] ∧
      Balanced (cut crowded (2, 17)) ∧ ∀ m, 2 ≤ m → m < 17 → ¬ Balanced (cut crowded (2, m)) := by
  obtain ⟨hread, hrun⟩ := brackets_reread
  have hlist : Listing crowdedItems crowdedInside :=
    .comma (k := ⟨.punct, 4, [',']⟩) rfl (.comma (k := ⟨.punct, 13, [',']⟩) rfl
      (.comma (k := ⟨.punct, 16, [',']⟩) rfl .empty))
  have hitems : ∀ e ∈ crowdedItems, IsItem e := by decide +kernel
  obtain ⟨hclosing, hspans, -, -⟩ := hread crowdedItems crowdedInside (singles 0 "f)".toList)
    (singles 18 "(".toList) ⟨.punct, 2, ['[']⟩ ⟨.punct, 17, [']']⟩ ']' hlist hitems rfl rfl
  obtain ⟨-, -, hbalanced, hshortest⟩ := ((hrun crowded 2 ⟨.punct, 2, ['[']⟩ rfl rfl).2 17).mp hclosing
  exact ⟨hlist, hitems, hclosing, hspans, hbalanced, hshortest⟩

end Graft.Script
