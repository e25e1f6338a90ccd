import Graft.Proofs.Script.ImportWalk

/-
Statements where the inside of a group is replaced.

* `readImport_around`, `Attempt` — an attempt stops before the group, or jumps over it in a braced list;
* `importsFrom_around`, `Walk` — **the same statements are read, or one attempt jumps over the group**;
* `Replaces name p G G'` — after the parenthesis `p` these tokens keep in braced lists what those listed;
* `binds_replace` — a name stays bound when nested tokens after a parenthesis are so replaced.

Design notes: of the replaced tokens it is only known that they are nested, so that whether an attempt jumps
over them, and where it lands, has to be the same for all such tokens.
-/
namespace Graft.Script

/-! ### One attempt -/

/-- What has been bound before does not matter to where an attempt ends, nor to what is left. -/
theorem readImport_names (start : Nat) (names names' : List Text) (ts : List Token) :
    (readImport start names ts).1.isSome = (readImport start names' ts).1.isSome ∧
      (readImport start names ts).2 = (readImport start names' ts).2 := by
  fun_induction readImport start names ts generalizing names' with
  | case1 => exact ⟨by rw [readImport], by rw [readImport]⟩
  | case2 names t ts hk =>
    rw [readImport_string hk]
    refine ⟨rfl, ?_⟩
    rcases closeImport_cases start names t ts with ⟨s, rest, rfl, hs, h⟩ | ⟨hother, h⟩
    · rw [h, closeImport_semicolon hs]
    · rw [h, closeImport_other hother]
  | case3 names t ts hk ih =>
    rw [readImport_ident hk]
    exact ih _
  | case4 names t ts hk =>
    rw [readImport_template hk]
    exact ⟨rfl, rfl⟩
  | case5 names t ts hk hm hg =>
    rw [readImport_lone hm hg]
    exact ⟨rfl, rfl⟩
  | case6 names t ts hk hm g hg ih =>
    rw [readImport_group hm hg]
    exact ih _
  | case7 names t ts hk hm hs ih =>
    rw [readImport_mark hk hm, if_pos hs]
    exact ih _
  | case8 names t ts hk hm hs =>
    rw [readImport_mark hk hm, if_neg hs]
    exact ⟨rfl, rfl⟩

theorem opens_of_paren {t : Token} (h : t.isMark '(' = true) : t.opens = true := by
  rw [Token.opens, Token.closer?, if_pos h]
  rfl

theorem closes_not_paren {t : Token} (h : t.isMark '(' = true) : ¬ t.closes = true :=
  fun hcl => opens_of_closes hcl (opens_of_paren h)

section
variable {p : Token}

/-- A statement that is closed before a parenthesis is closed before whatever follows it. -/
theorem closeImport_paren (hp : p.isMark '(' = true) (start : Nat) (names : List Text) (t : Token)
    (K : List Token) : ∃ i y, y.length ≤ K.length ∧
      ∀ ts, closeImport start names t (K ++ p :: ts) = (i, y ++ p :: ts) := by
  rcases closeImport_cases start names t (K ++ [p]) with ⟨s, rest, hK, hs, -⟩ | ⟨hother, -⟩
  · cases K with
    | nil =>
      obtain rfl : p = s := (List.cons.inj hK).1
      exact absurd hs (not_isMark_of_isMark hp (by decide))
    | cons u K =>
      obtain rfl : u = s := (List.cons.inj hK).1
      exact ⟨_, K, Nat.le_succ _, fun ts => closeImport_semicolon hs start names t (K ++ p :: ts)⟩
  · refine ⟨_, K, le_refl _, fun ts => closeImport_other (fun s hs => hother s ?_) start names t⟩
    cases K with
    | nil => exact hs
    | cons u K => exact hs

/-- How an attempt goes, whatever nested tokens stand between the parenthesis `p` and `Z`: it stops before
the parenthesis, with at most `n` tokens left in front of it, or jumps over them in a braced list. -/
inductive Attempt (p : Token) (Z : List Token) (n start : Nat)
    (attempt : List Token → Option Import × List Token) : Prop
  | stops (o : Option Import) (y : List Token) (short : y.length ≤ n)
      (eq : ∀ r, Nested r → attempt r = (o, y ++ p :: (r ++ Z)))
  | jumps (names : List Text) (a b z : List Token) (left : z <:+ Z)
      (eq : ∀ r, Nested r → Nested (a ++ (r ++ b)) ∧
        attempt r = readImport start (names ++ listedNames (a ++ (r ++ b))) z)

/-- An attempt that goes on as another does. -/
theorem Attempt.step {Z : List Token} {m n start : Nat}
    {attempt attempt' : List Token → Option Import × List Token}
    (h : Attempt p Z m start attempt) (hmn : m < n) (heq : ∀ r, Nested r → attempt' r = attempt r) :
    Attempt p Z n start attempt' := by
  cases h with
  | stops o y short eq => exact .stops o y (short.trans hmn.le) fun r hr => (heq r hr).trans (eq r hr)
  | jumps names a b z left eq =>
    exact .jumps names a b z left fun r hr => ⟨(eq r hr).1, (heq r hr).trans (eq r hr).2⟩

theorem readImport_around (hp : p.isMark '(' = true) (start : Nat) (names : List Text)
    (K Z : List Token) :
    Attempt p Z K.length start fun r => readImport start names (K ++ p :: (r ++ Z)) := by
  have hpno {c : Char} (hc : '(' ≠ c) : ¬ p.isMark c = true := not_isMark_of_isMark hp hc
  induction hlen : K.length using Nat.strong_induction_on generalizing names K with
  | _ n ih =>
  subst hlen
  cases K with
  | nil =>
    refine .stops none [] (le_refl _) fun r _ => ?_
    show readImport start names (p :: (r ++ Z)) = _
    rw [readImport_mark (isMark_iff.mp hp).1 (hpno (by decide)), if_neg]
    · rfl
    · simp [hpno (c := '*') (by decide), hpno (c := ',') (by decide)]
  | cons t K =>
    have hshort : K.length < (t :: K).length := Nat.lt_succ_self _
    cases hk : t.kind with
    | ident =>
      exact (ih _ hshort (bindName names t.text) K rfl).step hshort fun r _ =>
        readImport_ident hk start names _
    | string =>
      obtain ⟨i, y, hy, hclose⟩ := closeImport_paren hp start names t K
      refine .stops (some i) y (hy.trans hshort.le) fun r _ => ?_
      rw [List.cons_append, readImport_string hk, hclose]
    | template =>
      exact .stops none (t :: K) (le_refl _) fun r _ => readImport_template hk _ _ _
    | punct =>
      by_cases hm : t.isMark '{' = true
      · have hshape (r : List Token) : t :: K ++ p :: (r ++ Z) = t :: ((K ++ [p]) ++ (r ++ Z)) := by
          simp
        rcases enclosed?_around t (K ++ [p]) Z with
          hg | ⟨I, c, y, hy, hc, hg⟩ | ⟨y, c, z, hZ, hg⟩
        · refine .stops none K hshort.le fun r hr => ?_
          rw [hshape, readImport_lone hm (hg r hr), List.append_assoc]
          rfl
        · -- The braces are closed before the parenthesis.
          rcases List.eq_nil_or_concat y with rfl | ⟨y, q, rfl⟩
          · have hlast := congrArg List.getLast? hy
            rw [List.getLast?_concat, List.getLast?_concat] at hlast
            exact absurd hc (Option.some.inj hlast ▸ closes_not_paren hp)
          · rw [List.concat_eq_append, ← List.cons_append, ← List.append_assoc] at hy
            obtain ⟨hK, hq⟩ := List.append_inj' hy rfl
            obtain rfl : p = q := List.head_eq_of_cons_eq hq
            have hlen : y.length < (t :: K).length := by
              rw [hK]
              simp only [List.length_cons, List.length_append]
              omega
            refine (ih _ hlen (names ++ listedNames I) y rfl).step hlen fun r hr => ?_
            rw [hshape, readImport_group hm (hg r hr), List.concat_eq_append, List.append_assoc]
            rfl
        · -- The parenthesis stands inside of the braces.
          refine .jumps names (K ++ [p]) y z ⟨y ++ [c], by rw [hZ]; simp⟩ fun r hr => ?_
          obtain ⟨hin, hgroup⟩ := hg r hr
          exact ⟨hin, by rw [hshape, readImport_group hm hgroup]⟩
      · by_cases hs : (t.isMark '*' || t.isMark ',') = true
        · refine (ih _ hshort names K rfl).step hshort fun r _ => ?_
          rw [List.cons_append, readImport_mark hk hm, if_pos hs]
        · refine .stops none (t :: K) (le_refl _) fun r _ => ?_
          rw [List.cons_append, readImport_mark hk hm, if_neg hs]

/-! ### The walk -/

/-- How the walk goes, whatever nested tokens stand between a parenthesis and `Z`, with `K` before it: the
same statements are read, or one attempt jumps over them. -/
inductive Walk (K Z : List Token) (walk : List Token → List Import) : Prop
  | passes (ss : List Import) (eq : ∀ r, Nested r → walk r = ss)
  | jumps (ss : List Import) (i : Token) (names : List Text) (a b z : List Token) (mem : i ∈ K)
      (left : z <:+ Z) (eq : ∀ r, Nested r → Nested (a ++ (r ++ b)) ∧ walk r =
        ss ++ ((readImport i.start (names ++ listedNames (a ++ (r ++ b))) z).1.toList ++
          importsFrom 0 (readImport i.start (names ++ listedNames (a ++ (r ++ b))) z).2))

/-- A walk that reads some statements and goes on as another does. -/
theorem Walk.step {K K' Z : List Token} {walk walk' : List Token → List Import}
    (h : Walk K Z walk) (hsub : ∀ i ∈ K, i ∈ K') (first : List Import)
    (heq : ∀ r, Nested r → walk' r = first ++ walk r) : Walk K' Z walk' := by
  cases h with
  | passes ss eq => exact .passes (first ++ ss) fun r hr => by rw [heq r hr, eq r hr]
  | jumps ss i names a b z mem left eq =>
    refine .jumps (first ++ ss) i names a b z (hsub i mem) left fun r hr => ⟨(eq r hr).1, ?_⟩
    rw [heq r hr, (eq r hr).2, List.append_assoc]

theorem importsFrom_around (hp : p.isMark '(' = true) (d : Nat) (K Z : List Token) :
    Walk K Z fun r => importsFrom d (K ++ p :: (r ++ Z)) := by
  induction hlen : K.length using Nat.strong_induction_on generalizing d K with
  | _ n ih =>
  subst hlen
  cases K with
  | nil =>
    refine .passes (importsFrom (d + 1) Z) fun r hr => ?_
    show importsFrom d (p :: (r ++ Z)) = _
    rw [importsFrom_opens (opens_of_paren hp), importsFrom_nested hr]
  | cons t K =>
    have hnext (d' : Nat) (hwalk : ∀ r, Nested r →
        importsFrom d (t :: (K ++ p :: (r ++ Z))) = importsFrom d' (K ++ p :: (r ++ Z))) :
        Walk (t :: K) Z fun r => importsFrom d (t :: K ++ p :: (r ++ Z)) :=
      (ih _ (Nat.lt_succ_self _) d' K rfl).step (fun _ => List.mem_cons_of_mem t) [] hwalk
    by_cases ho : t.opens = true
    · exact hnext _ fun r _ => importsFrom_opens ho d _
    by_cases hcl : t.closes = true
    · exact hnext _ fun r _ => importsFrom_closes hcl d _
    by_cases hi : d = 0 ∧ t.isWord "import".toList = true
    · obtain ⟨rfl, hi⟩ := hi
      -- The token behind `import` is the same.
      obtain ⟨f, hf⟩ : ∃ f, ∀ ts, ∃ rest, K ++ p :: ts = f :: rest := by
        cases K with
        | nil => exact ⟨p, fun ts => ⟨ts, rfl⟩⟩
        | cons u us => exact ⟨u, fun ts => ⟨_, rfl⟩⟩
      by_cases hcall : (f.isMark '(' || f.isMark '.') = true
      · refine hnext 0 fun r _ => ?_
        obtain ⟨rest, hrest⟩ := hf (r ++ Z)
        rw [hrest, importsFrom_call hi hcall]
      · have hread (r : List Token) : importsFrom 0 (t :: K ++ p :: (r ++ Z)) =
            (readImport t.start [] (K ++ p :: (r ++ Z))).1.toList ++
              importsFrom 0 (readImport t.start [] (K ++ p :: (r ++ Z))).2 := by
          obtain ⟨rest, hrest⟩ := hf (r ++ Z)
          rw [List.cons_append, hrest, importsFrom_import hi hcall]
        cases readImport_around hp t.start [] K Z with
        | stops o y short eq =>
          -- Not all tokens before the parenthesis are left, but all that are were there.
          have hsub : ∀ i ∈ y, i ∈ t :: K := by
            intro i hiy
            obtain ⟨w, hw⟩ := readImport_suffix t.start [] (K ++ p :: ([] ++ Z))
            rw [eq [] nested_nil] at hw
            have hK : w ++ y = K := by
              have hw' : (w ++ y) ++ p :: ([] ++ Z) = K ++ p :: ([] ++ Z) := by
                rw [List.append_assoc]
                exact hw
              exact List.append_cancel_right hw'
            exact List.mem_cons_of_mem t (hK ▸ List.mem_append_right w hiy)
          refine (ih _ (Nat.lt_succ_of_le short) 0 y rfl).step hsub o.toList fun r hr => ?_
          rw [hread, eq r hr]
        | jumps names a b z left eq =>
          refine .jumps [] t names a b z List.mem_cons_self left fun r hr => ⟨(eq r hr).1, ?_⟩
          rw [hread, (eq r hr).2]
          rfl
    · exact hnext d fun r _ => importsFrom_plain ho hcl hi _

end

/-! ### Names that stay bound -/

section
variable {name : Text}

/-- One reading binds the name if the other does. -/
def Keeps (name : Text) (r r' : Option Import) : Prop :=
  ∀ s, r = some s → name ∈ s.names → ∃ s', r' = some s' ∧ name ∈ s'.names

theorem keeps_none (r : Option Import) : Keeps name none r := by
  intro s hs
  cases hs

theorem mem_bindName {names : List Text} {w : Text} :
    name ∈ bindName names w ↔ name ∈ names ∨ (¬ clauseWords.contains w = true ∧ name = w) := by
  unfold bindName
  split
  next h => exact ⟨.inl, fun hm => hm.resolve_right fun hw => hw.1 h⟩
  next h =>
    rw [List.mem_append, List.mem_singleton]
    exact or_congr_right (and_iff_right h).symm

theorem keeps_some {s s' : Import} (h : name ∈ s.names → name ∈ s'.names) :
    Keeps name (some s) (some s') := by
  intro u hu hmem
  rw [← Option.some.inj hu] at hmem
  exact ⟨s', rfl, h hmem⟩

theorem closeImport_keeps {names names' : List Text} (h : name ∈ names → name ∈ names')
    (start : Nat) (t : Token) (ts ts' : List Token) :
    Keeps name (some (closeImport start names t ts).1) (some (closeImport start names' t ts').1) := by
  refine keeps_some ?_
  rwa [closeImport_names, closeImport_names]

/-- What has been bound before stays bound. -/
theorem readImport_keeps {names names' : List Text} (h : name ∈ names → name ∈ names')
    (start : Nat) (ts : List Token) :
    Keeps name (readImport start names ts).1 (readImport start names' ts).1 := by
  fun_induction readImport start names ts generalizing names' with
  | case1 => exact keeps_none _
  | case2 names t ts hk =>
    rw [readImport_string hk]
    exact closeImport_keeps h start t ts ts
  | case3 names t ts hk ih =>
    rw [readImport_ident hk]
    exact ih fun hmem => mem_bindName.mpr ((mem_bindName.mp hmem).imp_left h)
  | case4 => exact keeps_none _
  | case5 => exact keeps_none _
  | case6 names t ts hk hm g hg ih =>
    rw [readImport_group hm hg]
    refine ih fun hmem => ?_
    rw [List.mem_append] at hmem ⊢
    exact hmem.imp_left h
  | case7 names t ts hk hm hs ih =>
    rw [readImport_mark hk hm, if_pos hs]
    exact ih h
  | case8 => exact keeps_none _

/-- Nested tokens `G'` in the place of `G`, after a parenthesis, keep the name in braced lists. -/
structure Replaces (name : Text) (p : Token) (G G' : List Token) : Prop where
  mark : p.isMark '(' = true
  -- What is replaced is nested.
  before : Nested G
  -- What it is replaced by is nested.
  after : Nested G'
  -- A list that binds the name still does.
  listed : ∀ a b, Nested (a ++ (G ++ b)) → name ∈ listedNames (a ++ (G ++ b)) →
    name ∈ listedNames (a ++ (G' ++ b))

variable {p : Token} {G G' : List Token}

/-- A name stays bound when nested tokens after a parenthesis are replaced. -/
theorem binds_replace (h : Replaces name p G G') {d : Nat} {K Z : List Token}
    (hb : ∃ s ∈ importsFrom d (K ++ p :: (G ++ Z)), name ∈ s.names) :
    ∃ s ∈ importsFrom d (K ++ p :: (G' ++ Z)), name ∈ s.names := by
  cases importsFrom_around h.mark d K Z with
  | passes ss eq =>
    rw [eq G h.before] at hb
    rwa [eq G' h.after]
  | jumps ss i names a b z mem left eq =>
    obtain ⟨hin, hG⟩ := eq G h.before
    obtain ⟨-, hG'⟩ := eq G' h.after
    rw [hG] at hb
    rw [hG']
    obtain ⟨s, hs, hmem⟩ := hb
    rw [List.mem_append, List.mem_append, Option.mem_toList] at hs
    have hlisted : name ∈ names ++ listedNames (a ++ (G ++ b)) →
        name ∈ names ++ listedNames (a ++ (G' ++ b)) := by
      rw [List.mem_append, List.mem_append]
      exact Or.imp_right (h.listed a b hin)
    rcases hs with hs | hs | hs
    · exact ⟨s, List.mem_append_left _ hs, hmem⟩
    · obtain ⟨s', hs', hmem'⟩ := readImport_keeps hlisted i.start z s hs hmem
      refine ⟨s', List.mem_append_right _ (List.mem_append_left _ ?_), hmem'⟩
      exact Option.mem_toList.mpr hs'
    · rw [(readImport_names i.start _ _ z).2] at hs
      exact ⟨s, List.mem_append_right _ (List.mem_append_right _ hs), hmem⟩

theorem mem_listedNames {ts : List Token} :
    name ∈ listedNames ts ↔ ∃ e ∈ entries ts, entryName? e = some name := List.mem_filterMap

/-- Tokens whose last name is the one in question may be put into a group. -/
theorem replaces_group {o c : Token} {k : Char} {I J R : List Token} (hp : p.isMark '(' = true)
    (ho : o.closer? = some k) (hc : c.isMark k = true) (hIJ : Nested (I ++ J)) (hR : Nested R)
    (hname : entryName? R = some name) :
    Replaces name p (o :: ((I ++ J) ++ [c])) (o :: ((I ++ (R ++ J)) ++ [c])) := by
  have hflat := flat_group ho hIJ hc
  have hflat' := flat_group ho ((nested_splice hR I J).mpr hIJ) hc
  refine ⟨hp, hflat.nested, hflat'.nested, fun a b hab hmem => ?_⟩
  obtain ⟨E, x, y, F, hentries⟩ := exists_entries_flat (depthAfter_nonneg hab) b
  rw [mem_listedNames, hentries _ hflat (List.cons_ne_nil _ _)] at hmem
  rw [mem_listedNames, hentries _ hflat' (List.cons_ne_nil _ _)]
  obtain ⟨e, he, hlast⟩ := hmem
  rw [List.mem_append, List.mem_cons] at he
  rcases he with he | rfl | he
  · exact ⟨e, List.mem_append_left _ he, hlast⟩
  · refine ⟨_, List.mem_append_right _ List.mem_cons_self, ?_⟩
    -- The last name stands behind the new tokens, or is theirs.
    have hbefore : x ++ (o :: ((I ++ J) ++ [c]) ++ y) = (x ++ o :: I) ++ (J ++ c :: y) := by simp
    have hafter : x ++ (o :: ((I ++ (R ++ J)) ++ [c]) ++ y) =
        (x ++ o :: I) ++ (R ++ (J ++ c :: y)) := by simp
    rw [hbefore, entryName?_append] at hlast
    rw [hafter, entryName?_append, entryName?_append, hname]
    cases hrest : entryName? (J ++ c :: y) with
    | none => rfl
    | some w =>
      rw [hrest] at hlast
      exact hlast
  · exact ⟨e, List.mem_append_right _ (List.mem_cons_of_mem _ he), hlast⟩

end

end Graft.Script
