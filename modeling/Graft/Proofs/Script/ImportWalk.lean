import Graft.Proofs.Script.ImportReading
import Graft.Proofs.Script.Listing

/-
The statements among tokens.

* `Binds ts name` — a statement among the tokens binds the name;
* `exists_last_statement` — **behind the last statement reading starts anew**, whatever stands there;
* `imports_clause` — what is read of a statement with one name in braces.

Design notes: the walk only counts open brackets, and an attempt may jump over some, so the count says
little about what is open.  It does say that nothing is read inside of a group that no attempt jumps
over, and this is all that is used.
-/
namespace Graft.Script

/-- A statement among the tokens binds the name. -/
def Binds (ts : List Token) (name : Text) : Prop := ∃ s ∈ imports ts, name ∈ s.names

/-! ### One token -/

theorem importsFrom_nil (d : Nat) : importsFrom d [] = [] := by
  rw [importsFrom]

theorem importsFrom_opens {t : Token} (h : t.opens = true) (d : Nat) (ts : List Token) :
    importsFrom d (t :: ts) = importsFrom (d + 1) ts := by
  rw [importsFrom.eq_def]
  exact if_pos h

theorem importsFrom_closes {t : Token} (h : t.closes = true) (d : Nat) (ts : List Token) :
    importsFrom d (t :: ts) = importsFrom (d - 1) ts := by
  rw [importsFrom.eq_def]
  exact (if_neg (opens_of_closes h)).trans (if_pos h)

theorem importsFrom_plain {t : Token} {d : Nat} (ho : ¬ t.opens = true) (hcl : ¬ t.closes = true)
    (h : ¬ (d = 0 ∧ t.isWord "import".toList = true)) (ts : List Token) :
    importsFrom d (t :: ts) = importsFrom d ts := by
  have hcond : ¬ (decide (d = 0) && t.isWord "import".toList) = true := by
    rwa [Bool.and_eq_true, decide_eq_true_eq]
  rw [importsFrom.eq_def]
  exact (if_neg ho).trans ((if_neg hcl).trans (if_neg hcond))

theorem importsFrom_singleton (d : Nat) (t : Token) : importsFrom d [t] = [] := by
  rw [importsFrom.eq_def]
  dsimp only
  split
  · exact importsFrom_nil _
  split
  · exact importsFrom_nil _
  split
  · rfl
  · exact importsFrom_nil _

theorem importsFrom_call {t f : Token} (ht : t.isWord "import".toList = true)
    (hf : (f.isMark '(' || f.isMark '.') = true) (ts : List Token) :
    importsFrom 0 (t :: f :: ts) = importsFrom 0 (f :: ts) := by
  obtain ⟨ho, hcl⟩ := plain_of_isWord ht
  rw [importsFrom, if_neg (ne_true_of_eq_false ho), if_neg (ne_true_of_eq_false hcl), if_pos (by rw [ht]; rfl)]
  rw [if_pos hf]

theorem importsFrom_import {t f : Token} (ht : t.isWord "import".toList = true)
    (hf : ¬ (f.isMark '(' || f.isMark '.') = true) (ts : List Token) :
    importsFrom 0 (t :: f :: ts) = (readImport t.start [] (f :: ts)).1.toList ++
      importsFrom 0 (readImport t.start [] (f :: ts)).2 := by
  obtain ⟨ho, hcl⟩ := plain_of_isWord ht
  rw [importsFrom, if_neg (ne_true_of_eq_false ho), if_neg (ne_true_of_eq_false hcl), if_pos (by rw [ht]; rfl)]
  rw [if_neg hf]

/-! ### Groups -/

theorem importsFrom_of_settle {ts : List Token} {s s' : List Char} (h : settle s ts = some s')
    (d : Nat) (rest : List Token) :
    importsFrom (d + 1 + s.length) (ts ++ rest) = importsFrom (d + 1 + s'.length) rest := by
  induction ts generalizing s with
  | nil =>
    rw [settle, Option.some.injEq] at h
    rw [h]
    rfl
  | cons t ts ih =>
    rw [settle, Option.bind_eq_some_iff] at h
    obtain ⟨m, hone, hrest⟩ := h
    rw [← ih hrest, List.cons_append]
    rcases settleOne_cases hone with ⟨c, hc, rfl⟩ | ⟨hc, hcl, c, -, rfl⟩ | ⟨hc, hcl, rfl⟩
    · rw [importsFrom_opens (opens_of_closer? hc)]
      rfl
    · rw [importsFrom_closes hcl]
      rfl
    · rw [importsFrom_plain (not_opens_of_closer? hc) hcl (by omega)]

/-- Inside of brackets nested tokens hold no statements. -/
theorem importsFrom_nested {ts : List Token} (h : Nested ts) (d : Nat) (rest : List Token) :
    importsFrom (d + 1) (ts ++ rest) = importsFrom (d + 1) rest :=
  importsFrom_of_settle h d rest

/-- A group that no attempt jumps over holds no statements. -/
theorem importsFrom_group {o : Token} {ts : List Token} {g : Group} (h : enclosed? (o :: ts) = some g)
    (d : Nat) : importsFrom d (o :: ts) = importsFrom d g.after := by
  obtain ⟨c, hc, hts, hin, hm⟩ := enclosed?_eq_some_iff.mp h
  rw [importsFrom_opens (opens_of_closer? hc), hts, importsFrom_nested hin,
    importsFrom_closes (closes_of_isMark (isCloser_of_closer? hc) hm)]
  rfl

/-! ### The last statement -/

/-- What is known of the end of the last statement: the token `t` ends it, and behind that token
other tokens are read from the start. -/
structure LastEnd (d : Nat) (ts : List Token) (s : Import) (A : List Token) (t : Token)
    (M : List Token) : Prop where
  -- The tokens up to the end of the statement, and those after it.
  eq : ts = A ++ t :: M
  -- The statement ends with the token.
  stop : t.stop = s.stop
  -- A statement ends with a string or a semicolon.
  kind : t.kind = .string ∨ t.isMark ';' = true
  -- No group begins before the end of the statement and ends after it.
  skips : Skips ts M
  -- There is no statement after it.
  later : importsFrom 0 M = []
  -- What stands behind the statement instead is read from the start.
  anew : ∀ N, Unclosed (A ++ [t]) M N → (∀ x ∈ N.head?, x.isMark ';' = false) →
    importsFrom d (A ++ t :: N) = importsFrom d ts ++ importsFrom 0 N

/-- A token that is passed alone stands before the last statement. -/
theorem LastEnd.cons {d d' : Nat} {ts A M : List Token} {s : Import} {t u : Token}
    (h : LastEnd d' ts s A t M)
    (hwalk : ∀ xs, xs.head? = ts.head? → importsFrom d (u :: xs) = importsFrom d' xs)
    (hskip : ∀ rest, Skips ts rest → Skips (u :: ts) rest) :
    LastEnd d (u :: ts) s (u :: A) t M where
  eq := by
    rw [h.eq]
    rfl
  stop := h.stop
  kind := h.kind
  skips := hskip M h.skips
  later := h.later
  anew N hN hhead := by
    rw [List.cons_append, hwalk, h.anew N hN.of_cons hhead, hwalk ts rfl]
    rw [h.eq]
    cases A <;> rfl

/-- A group that is passed stands before the last statement. -/
theorem LastEnd.group {d : Nat} {ts A M : List Token} {s : Import} {o t : Token} {g : Group}
    (hg : enclosed? (o :: ts) = some g) (h : LastEnd d g.after s A t M) :
    LastEnd d (o :: ts) s (o :: (g.inside ++ g.closing :: A)) t M where
  eq := by
    rw [eq_of_enclosed? hg, h.eq]
    simp only [List.cons_append, List.append_assoc]
  stop := h.stop
  kind := h.kind
  skips := .group hg h.skips
  later := h.later
  anew N hN hhead := by
    have hgroup := importsFrom_group (enclosed?_change_after hg (A ++ t :: N)) d
    have hrest := h.anew N
      (Unclosed.of_append (A := o :: (g.inside ++ [g.closing])) (by simpa using hN)) hhead
    rw [importsFrom_group hg, ← hrest, ← hgroup]
    simp only [List.cons_append, List.append_assoc]

/-- Other tokens behind what an attempt passes, and behind what is read after it. -/
theorem importsFrom_attempt {i f : Token} {ts y z M N : List Token}
    (hi : i.isWord "import".toList = true) (hf : ¬ (f.isMark '(' || f.isMark '.') = true)
    (hts : f :: ts = (y ++ z) ++ M) (hne : y ++ z ≠ [])
    (hleft : (readImport i.start [] (f :: ts)).2 = z ++ M) (hN : Unclosed (y ++ z) M N)
    (hend : z ≠ [] ∨ ((readImport i.start [] (f :: ts)).1.isSome = true ∧
      ∀ x ∈ N.head?, x.isMark ';' = false)) :
    importsFrom 0 (i :: ((y ++ z) ++ N)) =
      (readImport i.start [] (f :: ts)).1.toList ++ importsFrom 0 (z ++ N) := by
  have hread : readImport i.start [] ((y ++ z) ++ N) =
      ((readImport i.start [] (f :: ts)).1, z ++ N) := by
    rw [hts] at hleft hend ⊢
    exact readImport_change hN hleft hend
  -- The token behind `import` is the same.
  obtain ⟨f', rest, hrest⟩ := List.exists_cons_of_ne_nil hne
  obtain rfl : f' = f := by
    rw [hrest] at hts
    exact (List.cons.inj hts).1.symm
  rw [hrest, List.cons_append] at hread ⊢
  rw [importsFrom_import hi hf, hread]

/-- An attempt that is over stands before the last statement. -/
theorem LastEnd.attempt {ts A M : List Token} {s : Import} {i f t : Token}
    (hi : i.isWord "import".toList = true) (hf : ¬ (f.isMark '(' || f.isMark '.') = true)
    (h : LastEnd 0 (readImport i.start [] (f :: ts)).2 s A t M) :
    ∃ y, LastEnd 0 (i :: f :: ts) s (i :: (y ++ A)) t M := by
  obtain ⟨y, hy⟩ := readImport_suffix i.start [] (f :: ts)
  have hleft : (readImport i.start [] (f :: ts)).2 = (A ++ [t]) ++ M := by
    rw [h.eq]
    simp
  have hts : f :: ts = (y ++ (A ++ [t])) ++ M := by
    rw [← hy, hleft]
    simp
  refine ⟨y, ?_, h.stop, h.kind, ?_, h.later, fun N hN hhead => ?_⟩
  · rw [hts]
    simp
  · exact .plain (plain_of_isWord hi).1
      ((skips_readImport i.start [] (f :: ts)).trans h.skips)
  · have hbehind : Unclosed (y ++ (A ++ [t])) M N :=
      Unclosed.of_append (A := [i]) (by simpa using hN)
    have hmore := importsFrom_attempt hi hf hts (by simp) hleft hbehind (.inl (by simp))
    have hshape : (i :: (y ++ A)) ++ t :: N = i :: ((y ++ (A ++ [t])) ++ N) := by simp
    have hshape' : (A ++ [t]) ++ N = A ++ t :: N := by simp
    rw [hshape, hmore, hshape', h.anew N hbehind.of_append hhead, importsFrom_import hi hf,
      List.append_assoc]

/-- The statement that an attempt reads, with none after it, is the last. -/
theorem lastEnd_of_readImport {ts : List Token} {s : Import} {i f : Token}
    (hi : i.isWord "import".toList = true) (hf : ¬ (f.isMark '(' || f.isMark '.') = true)
    (h : (readImport i.start [] (f :: ts)).1 = some s)
    (hnil : importsFrom 0 (readImport i.start [] (f :: ts)).2 = []) :
    ∃ A t, LastEnd 0 (i :: f :: ts) s A t (readImport i.start [] (f :: ts)).2 := by
  obtain ⟨L, t, hL, hstop, hkind⟩ := end_readImport h
  have hall := importsFrom_import hi hf ts
  rw [hnil, List.append_nil] at hall
  generalize hM : (readImport i.start [] (f :: ts)).2 = M at hL hnil
  have hts : f :: ts = ((L ++ [t]) ++ []) ++ M := by
    rw [hL]
    simp
  refine ⟨i :: L, t, ?_, hstop, hkind, ?_, hnil, fun N hN hhead => ?_⟩
  · rw [hL]
    rfl
  · have hskips := skips_readImport i.start [] (f :: ts)
    rw [hM] at hskips
    exact .plain (plain_of_isWord hi).1 hskips
  · have hbehind : Unclosed ((L ++ [t]) ++ []) M N :=
      Unclosed.of_append (A := [i]) (by simpa using hN)
    have hmore := importsFrom_attempt hi hf hts (by simp) hM hbehind
      (.inr ⟨by rw [h]; rfl, hhead⟩)
    rw [hall]
    simpa using hmore

/-- **Behind the last statement reading starts anew.** -/
theorem exists_last_statement {d : Nat} {ts : List Token} {s : Import} {P : List Import}
    (h : importsFrom d ts = P ++ [s]) : ∃ A t M, LastEnd d ts s A t M := by
  induction hlen : ts.length using Nat.strong_induction_on generalizing d ts P with
  | _ n ih =>
  subst hlen
  cases ts with
  | nil =>
    rw [importsFrom_nil] at h
    exact absurd h.symm (by simp)
  | cons u ts =>
    by_cases ho : u.opens = true
    · cases hg : enclosed? (u :: ts) with
      | some g =>
        rw [importsFrom_group hg] at h
        obtain ⟨A, t, M, hlast⟩ := ih _ (Nat.lt_succ_of_lt (enclosed?_length hg)) h rfl
        exact ⟨_, t, M, hlast.group hg⟩
      | none =>
        rw [importsFrom_opens ho] at h
        obtain ⟨A, t, M, hlast⟩ := ih _ (Nat.lt_succ_self _) h rfl
        exact ⟨_, t, M, hlast.cons (fun xs _ => importsFrom_opens ho d xs) fun _ => .lone hg⟩
    have hplain (rest : List Token) : Skips ts rest → Skips (u :: ts) rest :=
      .plain (Bool.eq_false_iff.mpr ho)
    by_cases hcl : u.closes = true
    · rw [importsFrom_closes hcl] at h
      obtain ⟨A, t, M, hlast⟩ := ih _ (Nat.lt_succ_self _) h rfl
      exact ⟨_, t, M, hlast.cons (fun xs _ => importsFrom_closes hcl d xs) hplain⟩
    by_cases hi : d = 0 ∧ u.isWord "import".toList = true
    · obtain ⟨rfl, hi⟩ := hi
      cases ts with
      | nil =>
        rw [importsFrom_singleton] at h
        exact absurd h.symm (by simp)
      | cons f ts =>
        by_cases hf : (f.isMark '(' || f.isMark '.') = true
        · rw [importsFrom_call hi hf] at h
          obtain ⟨A, t, M, hlast⟩ := ih _ (Nat.lt_succ_self _) h rfl
          refine ⟨_, t, M, hlast.cons (fun xs hxs => ?_) hplain⟩
          cases xs with
          | nil => cases hxs
          | cons x xs =>
            obtain rfl : x = f := Option.some.inj hxs
            exact importsFrom_call hi hf xs
        · rw [importsFrom_import hi hf] at h
          have hlt := Nat.lt_succ_of_le (readImport_length u.start [] (f :: ts))
          rcases List.eq_nil_or_concat (importsFrom 0 (readImport u.start [] (f :: ts)).2) with
            hnil | ⟨Q, q, hQ⟩
          · rw [hnil, List.append_nil] at h
            cases hr : (readImport u.start [] (f :: ts)).1 with
            | none =>
              rw [hr] at h
              exact absurd h.symm (by simp)
            | some s' =>
              rw [hr] at h
              obtain rfl : s' = s := by
                have := congrArg List.getLast? h
                rw [List.getLast?_concat] at this
                exact Option.some.inj this
              obtain ⟨A, t, hlast⟩ := lastEnd_of_readImport hi hf hr hnil
              exact ⟨A, t, _, hlast⟩
          · rw [List.concat_eq_append] at hQ
            obtain rfl : q = s := by
              have := congrArg List.getLast? h
              rw [hQ, ← List.append_assoc, List.getLast?_concat, List.getLast?_concat] at this
              exact Option.some.inj this
            obtain ⟨A, t, M, hlast⟩ := ih _ hlt hQ rfl
            obtain ⟨y, hy⟩ := hlast.attempt hi hf
            exact ⟨_, t, M, hy⟩
    · rw [importsFrom_plain ho hcl hi] at h
      obtain ⟨A, t, M, hlast⟩ := ih _ (Nat.lt_succ_self _) h rfl
      exact ⟨_, t, M, hlast.cons (fun xs _ => importsFrom_plain ho hcl hi xs) hplain⟩

/-! ### A statement with one name -/

theorem entryName?_append (a b : List Token) :
    entryName? (a ++ b) = (entryName? b).or (entryName? a) := by
  rw [entryName?, List.filter_append, List.map_append, List.getLast?_append]
  rfl

theorem closeImport_names (start : Nat) (names : List Text) (t : Token) (ts : List Token) :
    (closeImport start names t ts).1.names = names := by
  obtain ⟨stop, h⟩ := exists_closeImport_eq start names t ts
  rw [h]

theorem closeImport_module (start : Nat) (names : List Text) (t : Token) (ts : List Token) :
    (closeImport start names t ts).1.module = t.unquoted := by
  obtain ⟨stop, h⟩ := exists_closeImport_eq start names t ts
  rw [h]

theorem listedNames_ident {n : Token} (hn : n.kind = .ident) :
    listedNames [n] = if n.text = "type".toList then [] else [n.text] := by
  have hcomma : ¬ n.isMark ',' = true := fun h =>
    TokenKind.noConfusion (hn.symm.trans (isMark_iff.mp h).1)
  have hflat : Flat [n] := flat_plain (plain_of_kind (by rw [hn]; decide)) hcomma
  rw [listedNames, entries_flat hflat (List.cons_ne_nil _ _), List.filterMap_cons, List.filterMap_nil,
    entryName?]
  by_cases htype : n.text = "type".toList
  · have hdrop : ¬ (n.kind == .ident && n.text != "type".toList) = true := by
      rw [htype]
      simp
    have hnone : [n].filter (fun t => t.kind == .ident && t.text != "type".toList) = [] :=
      List.filter_cons_of_neg hdrop
    rw [if_pos htype, hnone]
    rfl
  · have hkeep : (n.kind == .ident && n.text != "type".toList) = true := by
      rw [hn, Bool.and_eq_true, bne_iff_ne]
      exact ⟨rfl, htype⟩
    have hall : [n].filter (fun t => t.kind == .ident && t.text != "type".toList) = [n] :=
      List.filter_cons_of_pos hkeep
    rw [if_neg htype, hall]
    rfl

/-- What is read of a statement with one name in braces, whatever follows its string. -/
theorem imports_clause {i o n c f t : Token} (hi : i.isWord "import".toList = true)
    (ho : o.isMark '{' = true) (hn : n.kind = .ident) (hc : c.isMark '}' = true)
    (hf : f.isWord "from".toList = true) (ht : t.kind = .string) (ts : List Token) :
    imports (i :: o :: n :: c :: f :: t :: ts) =
      (closeImport i.start (listedNames [n]) t ts).1 ::
        importsFrom 0 (closeImport i.start (listedNames [n]) t ts).2 := by
  have hround : ¬ o.isMark '(' = true := not_isMark_of_isMark ho (by decide)
  have hdot : ¬ o.isMark '.' = true := not_isMark_of_isMark ho (by decide)
  have hcall : ¬ (o.isMark '(' || o.isMark '.') = true := by
    rw [Bool.or_eq_true, not_or]
    exact ⟨hround, hdot⟩
  have hcloser : o.closer? = some '}' := by
    rw [Token.closer?, if_neg hround, if_neg (not_isMark_of_isMark ho (by decide)), if_pos ho]
  have hgroup : enclosed? (o :: n :: c :: f :: t :: ts) = some ⟨[n], c, f :: t :: ts⟩ :=
    enclosed?_eq_some_iff.mpr
      ⟨'}', hcloser, rfl, nested_plain (plain_of_kind (by rw [hn]; decide)), hc⟩
  obtain ⟨hfkind, hftext⟩ : f.kind = .ident ∧ f.text = "from".toList := by
    simpa [Token.isWord] using hf
  have hfrom : bindName (listedNames [n]) f.text = listedNames [n] := by
    rw [bindName, if_pos (by rw [hftext]; decide)]
  rw [imports, importsFrom_import hi hcall, readImport_group ho hgroup, List.nil_append,
    readImport_ident hfkind, hfrom, readImport_string ht]
  rfl

end Graft.Script
