import Graft.Proofs.Registration.Growth
import Graft.Proofs.Registration.Regular
import Graft.Proofs.Script.Refilling

/-
Registering a class twice.

* `binds_importRun` — a new statement binds the class;
* `Planted source r A M R` — the planned statement among the host's tokens;
* `bareTokens_of_pair` — the tokens of a host with two insertions made;
* `patched_idempotent` — **a registered class is bound and listed, and is registered no second time**.

Design notes: everything about the patched host is read from its tokens, which are those of the host with
two runs put in.  The statement is put in first, since it stands outside of the object; then the entry
replaces one group, the object, by another.
-/
namespace Graft.Registration

open Script

variable {source : Text} {r : Request}

/-! ### The statement -/

theorem binds_importRun {s : Text} (hs : IsSymbol s) (p : Text) (q : Char) (M : List Token) :
    Binds (importRun s p q ++ M) s := by
  have hshape : importRun s p q ++ M = wordToken "import".toList :: markToken '{' :: wordToken s ::
      markToken '}' :: wordToken "from".toList :: ⟨.string, 0, q :: (p ++ [q])⟩ ::
      markToken ';' :: M := rfl
  have hlisted : listedNames [wordToken s] = [s] := by
    rw [listedNames_ident rfl]
    exact if_neg hs.notType
  rw [Binds, hshape, imports_clause (by simp [Token.isWord, wordToken]) rfl rfl rfl
    (by simp [Token.isWord, wordToken]) rfl, hlisted]
  refine ⟨_, List.mem_cons_self, ?_⟩
  rw [closeImport_names]
  exact List.mem_singleton_self s

/-- The planned statement among the host's tokens: it stands between `A` and `M`, and its tokens are `R`,
of which there are none when no statement is planned. -/
structure Planted (source : Text) (r : Request) (A M R : List Token) : Prop where
  -- The tokens before the place of the statement, and those after it.
  eq : tokens source = A ++ M
  -- The place is behind a statement, or at the start.
  seam : Seam A M
  nested : Nested R
  unmarked : ∀ t ∈ R, ¬ t.isMark '@' = true
  -- With it the class is bound.
  binds : Binds (A ++ (R ++ M)) r.symbol
  -- The place is that of the insertion.
  place : ∀ e ∈ planImport source (imports (tokens source)) r,
    tokens (source.take (place e)) = A
  -- The tokens are those of the insertion.
  run : (planImport source (imports (tokens source)) r).flatMap (fun e => bareTokens e.text) = R

theorem Foothold.planted {A M : List Token} {e : Insertion}
    (h : Foothold source (Registration.place e) A M) (hs : IsSymbol r.symbol) {q : Char}
    (hplan : planImport source (imports (tokens source)) r = [e])
    (htext : bareTokens e.text = importRun r.symbol r.importPath q) :
    Planted source r A M (importRun r.symbol r.importPath q) where
  eq := h.eq
  seam := h.seam
  nested := nested_importRun _ _ _
  unmarked := by simp [importRun, wordToken, markToken, Token.isMark]
  binds := by
    have hnested := nested_importRun r.symbol r.importPath q
    have hread := h.anew (importRun r.symbol r.importPath q ++ M) (unclosed_splice hnested A M) (by
      intro x hx
      rw [← Option.some.inj hx]
      rfl)
    obtain ⟨s, hmem, hname⟩ := binds_importRun hs r.importPath q M
    refine ⟨s, ?_, hname⟩
    rw [hread]
    exact List.mem_append_right _ hmem
  place f hf := by
    rw [hplan, List.mem_singleton] at hf
    rw [hf]
    exact h.take
  run := by
    rw [hplan, List.flatMap_cons, List.flatMap_nil, List.append_nil]
    exact htext

/-- In a regular host a place is found for the statement. -/
theorem Regular.exists_planted (h : Regular source) (hs : IsSymbol r.symbol)
    (hp : IsSpecifier r.importPath) : ∃ A M R, Planted source r A M R := by
  have hsits := statement_sits hs hp (h.hasRoom r.symbol)
  rcases planImport_cases source (imports (tokens source)) r with
    ⟨hbound, hnone⟩ | ⟨-, s, hlast, hplan⟩ | ⟨hnil, hplan⟩
  · refine ⟨[], tokens source, [], rfl, seam_nil _, nested_nil, by simp, hbound, ?_, ?_⟩
    · simp [hnone]
    · rw [hnone]
      rfl
  · obtain ⟨-, -, q, -, htext⟩ := hsits _ (by rw [hplan]; exact List.mem_singleton_self _)
    obtain ⟨A, M, hfoothold⟩ := h.foothold hlast
    exact ⟨A, M, _, Foothold.planted hfoothold hs hplan htext⟩
  · obtain ⟨-, -, q, -, htext⟩ := hsits _ (by rw [hplan]; exact List.mem_singleton_self _)
    exact ⟨[], _, _, Foothold.planted (foothold_zero hnil) hs hplan htext⟩

/-! ### Both together -/

/-- Later places have more tokens before them. -/
theorem tokens_take_length_le {m n : Nat} (hmn : m ≤ n) (hn : n ≤ source.length)
    (hm : Between source m) (h : Between source n) :
    (tokens (source.take m)).length ≤ (tokens (source.take n)).length := by
  rw [tokens, tokens, (between_slice hmn hn hm h).1, tokensFrom_append, List.length_append]
  exact Nat.le_add_right _ _

/-- The tokens of a host with insertions made at two places. -/
theorem bareTokens_of_pair (hc : Closed source) {es first second : List Insertion}
    (hs : ∀ e ∈ es, Sits source e) (hdistinct : es.Pairwise fun e f => place e ≠ place f)
    (hperm : es.Perm (first ++ second)) (hfirst : first.length ≤ 1) (hsecond : second.length ≤ 1)
    {A K B : List Token} (hts : tokens source = A ++ (K ++ B)) (hK : K ≠ [])
    (h : ∀ e ∈ first, tokens (source.take (place e)) = A)
    (h' : ∀ e ∈ second, tokens (source.take (place e)) = A ++ K) {u : Text}
    (hu : Insertion.applyAll source es = .ok u) :
    bareTokens u = A.map Token.bare ++ (first.flatMap (fun e => bareTokens e.text) ++
      (K.map Token.bare ++ (second.flatMap (fun e => bareTokens e.text) ++ B.map Token.bare))) := by
  have hlt : (first ++ second).Pairwise fun e f => place e < place f := by
    refine List.pairwise_append.mpr ⟨pairwise_of_length_le_one hfirst,
      pairwise_of_length_le_one hsecond, fun e he f hf => ?_⟩
    have hse := hs e (hperm.mem_iff.mpr (List.mem_append_left _ he))
    have hsf := hs f (hperm.mem_iff.mpr (List.mem_append_right _ hf))
    rw [← Nat.not_le]
    intro hle
    have hlen := tokens_take_length_le hle hse.place_le hsf.between hse.between
    have hpos := List.length_pos_iff.mpr hK
    rw [h e he, h' f hf, List.length_append] at hlen
    omega
  have hmade := applyAll_of_sits additive_bareTokens hc hs hdistinct hu
  have htokens : bareTokens source = A.map Token.bare ++ (K.map Token.bare ++ B.map Token.bare) := by
    rw [bareTokens, hts, List.map_append, List.map_append]
  rw [hmade, ordered_eq hperm hlt, runs, List.map_append, htokens, weave_pair]
  · simp only [List.flatMap_map]
  · intro x hx
    obtain ⟨e, he, rfl⟩ := List.mem_map.mp hx
    rw [bareTokens, h e he]
  · intro x hx
    obtain ⟨e, he, rfl⟩ := List.mem_map.mp hx
    rw [bareTokens, h' e he, List.map_append]

/-- What is read where the object has grown. -/
theorem Grown.reading {d : Descriptor} {list : List Insertion} {L L' D E F Z : List Token}
    {a name p : Token} (h : Grown source r d list L D E F) (hlist : planList source r d = .ok list)
    (hdeco : Decorates d a name p)
    (hfirst : Unheaded L' (a :: name :: p :: (d.object ++ Z)))
    (hb : Binds (L' ++ a :: name :: p :: (d.object ++ Z)) r.symbol) :
    Binds (L' ++ a :: name :: p :: (d.opening :: ((D ++ (E ++ F)) ++ [d.closing]) ++ Z)) r.symbol ∧
      Lists (L' ++ a :: name :: p :: (d.opening :: ((D ++ (E ++ F)) ++ [d.closing]) ++ Z))
        r.role.property r.symbol := by
  have hgrown := hdeco.grow h.eq h.nested
  have hobject : d.object = d.opening :: ((D ++ F) ++ [d.closing]) := by
    rw [Descriptor.object, h.eq]
  constructor
  · rcases h.name with rfl | hname
    · rwa [List.nil_append, ← hobject]
    · -- The name of the entry is that of the class, so braced lists around it keep the class.
      have hnested := hdeco.nested
      rw [h.eq] at hnested
      have hreplaces := replaces_group hdeco.paren (closer?_of_brace hdeco.brace) hdeco.closing
        hnested h.nested hname
      have hshape (ts : List Token) : L' ++ a :: name :: p :: ts = (L' ++ [a, name]) ++ p :: ts := by
        simp
      rw [hobject, hshape] at hb
      rw [hshape]
      exact binds_replace hreplaces hb
  · refine ⟨_, descriptor?_eq_some_iff.mpr ⟨L', _, rfl, ⟨a, name, p, Z, rfl, hgrown⟩, ?_⟩, h.lists hlist⟩
    exact hfirst.replace hdeco.flat.nested hgrown.flat.nested

theorem bareTokens_bare (t : Text) : (bareTokens t).map Token.bare = bareTokens t := by
  rw [bareTokens, List.map_map]
  rfl

theorem flatMap_bare (es : List Insertion) : (es.flatMap fun e => bareTokens e.text).map Token.bare =
    es.flatMap fun e => bareTokens e.text := by
  rw [List.map_flatMap]
  congr 1
  exact funext fun e => bareTokens_bare e.text

/-- The tokens of a patched host, up to their offsets: the class is bound and listed. -/
theorem exists_reading (h : Regular source) (hs : IsSymbol r.symbol) (hp : IsSpecifier r.importPath)
    {d : Descriptor} (hd : descriptor? (tokens source) = some d) {list : List Insertion}
    (hlist : planList source r d = .ok list) {es : List Insertion}
    (hes : es = planImport source (imports (tokens source)) r ++ list) {u : Text}
    (hu : Insertion.applyAll source es = .ok u) :
    ∃ T, bareTokens u = T.map Token.bare ∧ Binds T r.symbol ∧
      Lists T r.role.property r.symbol := by
  obtain ⟨hsits, hdistinct⟩ := plan_sits h.closed hs hp (h.hasRoom r.symbol) hd hlist hes
  have hone := planImport_length_le source (imports (tokens source)) r
  have hone' := planList_length_le hlist
  obtain ⟨A, M, R, hplanted⟩ := h.exists_planted hs hp
  obtain ⟨L, _, hts, ⟨a, name, p, Z, rfl, hdeco⟩, hfirst⟩ := descriptor?_eq_some_iff.mp hd
  obtain ⟨D, E, F, hgrown⟩ := exists_grown h.closed hs (hdeco.groupAt hts) hlist
  have hRbare := flatMap_bare (planImport source (imports (tokens source)) r)
  have hEbare := flatMap_bare list
  rw [hplanted.run] at hRbare
  rw [hgrown.run] at hEbare
  rcases hdeco.locate hplanted.seam (hplanted.eq.symm.trans hts) with ⟨k, rfl, hM⟩ | ⟨z, rfl, hA⟩
  · -- The statement stands before the decorator.
    have hseam := hplanted.seam
    have hbinds := hplanted.binds
    rw [hM] at hseam hbinds
    have hreading := hgrown.reading hlist hdeco (hfirst.insert hseam hplanted.nested hplanted.unmarked)
      (by simpa using hbinds)
    refine ⟨_, ?_, hreading⟩
    have hmade := bareTokens_of_pair (A := A) (K := k ++ a :: name :: p :: d.opening :: D)
      (B := F ++ d.closing :: Z) h.closed hsits hdistinct (hes ▸ List.Perm.refl _) hone hone'
      (by rw [hts, object_append, hgrown.eq]; simp) (by simp) hplanted.place
      (fun e he => by rw [hgrown.place e he]; simp) hu
    rw [hmade, hplanted.run, hgrown.run]
    simp [hRbare, hEbare]
  · -- The statement stands behind the object.
    have hseam := hplanted.seam
    have hbinds := hplanted.binds
    rw [hA] at hseam hbinds
    have hfirst' : Unheaded L (a :: name :: p :: (d.object ++ (z ++ (R ++ M)))) := by
      have hsplice : Unheaded L ((a :: name :: p :: (d.object ++ z)) ++ (R ++ M)) :=
        Unheaded.splice (by simpa using hfirst) hseam hplanted.nested
      simpa using hsplice
    have hreading := hgrown.reading hlist hdeco hfirst' (by simpa using hbinds)
    refine ⟨_, ?_, hreading⟩
    have hperm : es.Perm (list ++ planImport source (imports (tokens source)) r) :=
      hes ▸ List.perm_append_comm
    have hmade := bareTokens_of_pair (A := L ++ a :: name :: p :: d.opening :: D)
      (K := F ++ d.closing :: z) (B := M) h.closed hsits hdistinct hperm hone' hone
      (by rw [hts, object_append, hgrown.eq]; simp) (by simp)
      (fun e he => by rw [hgrown.place e he]; simp)
      (fun e he => by rw [hplanted.place e he, hA, object_append, hgrown.eq]; simp) hu
    rw [hmade, hplanted.run, hgrown.run]
    simp [hRbare, hEbare]

/-! ### The second time -/

/-- Nothing is planned where the class is bound and listed. -/
theorem plan_eq_nil (hb : Binds (tokens source) r.symbol)
    (hl : Lists (tokens source) r.role.property r.symbol) : plan source r = .ok [] := by
  obtain ⟨d, hd, hlists⟩ := hl
  have hany : ((imports (tokens source)).any fun s => s.names.contains r.symbol) = true := by
    simpa [Binds] using hb
  have hnone : planImport source (imports (tokens source)) r = [] := by
    rw [planImport, if_pos hany]
  rw [plan]
  simp only [hd, planList_of_lists hlists, hnone]
  rfl

theorem patched?_eq_self (h : plan source r = .ok []) : patched? source r = .ok source :=
  patched?_eq_ok h (applyAll_nil source)

/-- **A registered class is bound and listed, and is registered no second time.** -/
theorem patched_idempotent (h : Regular source) (hs : IsSymbol r.symbol)
    (hp : IsSpecifier r.importPath) {es : List Insertion} (hplan : plan source r = .ok es) :
    ∃ u, patched? source r = .ok u ∧ Binds (tokens u) r.symbol ∧
      Lists (tokens u) r.role.property r.symbol ∧ plan u r = .ok [] ∧ patched? u r = .ok u := by
  obtain ⟨d, list, hd, hlist, hes⟩ := plan_eq_ok hplan
  obtain ⟨hsits, -⟩ := plan_sits h.closed hs hp (h.hasRoom r.symbol) hd hlist hes
  have hmade := applyAll_of_fits fun e he => (hsits e he).fits
  obtain ⟨T, hT, hbinds, hlists⟩ := exists_reading h hs hp hd hlist hes hmade
  generalize (Insertion.ordered es).foldr Insertion.apply source = u at hmade hT
  have hu : Binds (tokens u) r.symbol := by
    rw [← binds_bare, ← bareTokens, hT, binds_bare]
    exact hbinds
  have hu' : Lists (tokens u) r.role.property r.symbol := by
    rw [← lists_bare, ← bareTokens, hT, lists_bare]
    exact hlists
  have hnil := plan_eq_nil hu hu'
  exact ⟨u, patched?_eq_ok hplan hmade, hu, hu', hnil, patched?_eq_self hnil⟩

/-- The host gets a statement and an entry, and nothing more the second time. -/
theorem patched_idempotent_lengthyHost : Regular lengthyHost ∧ ∃ es u,
    plan lengthyHost widgetRequest = .ok es ∧ es.length = 2 ∧
      patched? lengthyHost widgetRequest = .ok u ∧ Binds (tokens u) widgetRequest.symbol ∧
      Lists (tokens u) widgetRequest.role.property widgetRequest.symbol ∧
      plan u widgetRequest = .ok [] ∧ patched? u widgetRequest = .ok u := by
  have hplan : (plan lengthyHost widgetRequest).toOption.map List.length = some 2 := by decide +kernel
  cases h : plan lengthyHost widgetRequest with
  | error m =>
    rw [h] at hplan
    cases hplan
  | ok es =>
    rw [h] at hplan
    obtain ⟨u, hu⟩ := patched_idempotent lengthyHost_regular widgetRequest_symbol
      widgetRequest_specifier h
    exact ⟨lengthyHost_regular, es, u, rfl, Option.some.inj hplan, hu⟩

end Graft.Registration
