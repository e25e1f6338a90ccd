import Graft.Proofs.Script.Spans
import Graft.Registration.Insertion
import Mathlib.Data.List.Basic

/-
Insertions into a script, seen from its pieces and tokens.

* `weave n runs xs` — elements with runs put in between;
* `Sits source e` — an insertion that stands between pieces of a script and joins neither side;
* `applyAll_of_sits` — **insertions that sit at different places only push the script's pieces and
  tokens apart**, whatever order they are made in.

Design notes: what is proved for pieces and for tokens without offsets is the same, so it is proved
once, for every `Additive` reading of texts.  The induction is on the insertions in the order of
their places, of which the last is made first; it speaks of the text from any place up to the first
of them on.
-/
namespace Graft.Registration

open Script

/-! ### Runs between elements -/

/-- Elements of which `n` stand before the first, with runs put in: each run stands after as many
elements as its number says. -/
def weave {α : Type} (n : Nat) : List (Nat × List α) → List α → List α
  | [], xs => xs
  | (i, run) :: runs, xs => xs.take (i - n) ++ (run ++ weave i runs (xs.drop (i - n)))

/-- Every element is one of those there were, or of a run. -/
theorem mem_weave {α : Type} {x : α} {n : Nat} {rs : List (Nat × List α)} {xs : List α}
    (h : x ∈ weave n rs xs) : x ∈ xs ∨ ∃ r ∈ rs, x ∈ r.2 := by
  induction rs generalizing n xs with
  | nil => exact .inl h
  | cons r rs ih =>
    rw [weave, List.mem_append, List.mem_append] at h
    rcases h with h | h | h
    · exact .inl (List.mem_of_mem_take h)
    · exact .inr ⟨r, List.mem_cons_self, h⟩
    · rcases ih h with h | ⟨q, hq, h⟩
      · exact .inl (List.mem_of_mem_drop h)
      · exact .inr ⟨q, List.mem_cons_of_mem _ hq, h⟩

/-- Runs put at one place, with others further on. -/
theorem weave_append {α : Type} {n : Nat} {A B : List α} {rs rs' : List (Nat × List α)}
    (h : ∀ r ∈ rs, r.1 = n + A.length) (h' : ∀ r ∈ rs', n + A.length ≤ r.1) :
    weave n (rs ++ rs') (A ++ B) = A ++ (rs.flatMap Prod.snd ++ weave (n + A.length) rs' B) := by
  induction rs generalizing n A with
  | nil =>
    cases rs' with
    | nil => rfl
    | cons r rs' =>
      have hle := h' r List.mem_cons_self
      have hsub : r.1 - n - A.length = r.1 - (n + A.length) := by omega
      show (A ++ B).take (r.1 - n) ++ (r.2 ++ weave r.1 rs' ((A ++ B).drop (r.1 - n))) =
        A ++ (B.take (r.1 - (n + A.length)) ++
          (r.2 ++ weave r.1 rs' (B.drop (r.1 - (n + A.length)))))
      rw [List.take_append, List.drop_append, List.take_of_length_le (by omega),
        List.drop_of_length_le (show A.length ≤ r.1 - n by omega), hsub, List.nil_append,
        List.append_assoc]
  | cons r rs ih =>
    obtain ⟨hr, hrs⟩ := List.forall_mem_cons.mp h
    have hsub : r.1 - n = A.length := by omega
    have hrest := ih (n := r.1) (A := []) (fun q hq => by rw [hrs q hq, hr]; rfl)
      (fun q hq => by rw [hr]; exact h' q hq)
    rw [List.cons_append, weave, hsub, List.take_left, List.drop_left]
    rw [List.nil_append, List.nil_append] at hrest
    rw [hrest, hr, List.flatMap_cons, List.append_assoc]
    rfl

theorem weave_pair {α : Type} {A K B : List α} {rs rs' : List (Nat × List α)}
    (h : ∀ r ∈ rs, r.1 = A.length) (h' : ∀ r ∈ rs', r.1 = (A ++ K).length) :
    weave 0 (rs ++ rs') (A ++ (K ++ B)) =
      A ++ (rs.flatMap Prod.snd ++ (K ++ (rs'.flatMap Prod.snd ++ B))) := by
  rw [List.length_append] at h'
  have hsecond : weave (0 + A.length) (rs' ++ []) (K ++ B) =
      K ++ (rs'.flatMap Prod.snd ++ weave (0 + A.length + K.length) [] B) :=
    weave_append (fun r hr => by rw [h' r hr]; omega) (by simp)
  rw [List.append_nil] at hsecond
  rw [weave_append (fun r hr => by rw [h r hr]; omega) (fun r hr => by rw [h' r hr]; omega), hsecond]
  rfl

/-! ### Slices -/

/-- The beginning up to a place, and from there up to a later one. -/
theorem take_append_slice {α : Type} {m n : Nat} (hmn : m ≤ n) (xs : List α) :
    xs.take m ++ (xs.take n).drop m = xs.take n := by
  have h := List.take_append_drop m (xs.take n)
  rwa [List.take_take, Nat.min_eq_left hmn] at h

/-- From a place up to a later one, and the rest. -/
theorem slice_append_drop {α : Type} {m n : Nat} {xs : List α} (hmn : m ≤ n) (hn : n ≤ xs.length) :
    (xs.take n).drop m ++ xs.drop n = xs.drop m := by
  have hlen : m ≤ (xs.take n).length := by
    rw [List.length_take]
    omega
  rw [← List.drop_append_of_le_length hlen, List.take_append_drop]

/-! ### Readings -/

/-- A reading of texts that goes on after a piece as it would from there. -/
def Additive {α : Type} (F : Text → List α) : Prop :=
  ∀ a b, pieces (a ++ b) = pieces a ++ pieces b → F (a ++ b) = F a ++ F b

theorem Additive.nil {α : Type} {F : Text → List α} (hF : Additive F) : F [] = [] := by
  have h := hF [] [] (by rw [List.append_nil, pieces_nil, List.append_nil])
  rw [List.append_nil, List.self_eq_append_left] at h
  exact h

/-- Between two places that stand between pieces a reading finds the same as in the whole. -/
theorem Additive.slice {α : Type} {F : Text → List α} (hF : Additive F) {source : Text} {m n : Nat}
    (hmn : m ≤ n) (hn : n ≤ source.length) (hm : Between source m) (h : Between source n) :
    F (source.take n) = F (source.take m) ++ F ((source.take n).drop m) ∧
      F (source.drop m) = F ((source.take n).drop m) ++ F (source.drop n) := by
  obtain ⟨hbefore, hbehind⟩ := between_slice hmn hn hm h
  constructor
  · have hread := hF (source.take m) ((source.take n).drop m) (by rw [take_append_slice hmn]; exact hbefore)
    rwa [take_append_slice hmn] at hread
  · have hread := hF ((source.take n).drop m) (source.drop n) (by rw [slice_append_drop hmn hn]; exact hbehind)
    rwa [slice_append_drop hmn hn] at hread

theorem additive_pieces : Additive pieces := fun _ _ h => h

theorem additive_bareTokens : Additive bareTokens := fun _ _ h => bareTokens_append h

/-- The offset of an insertion that has one. -/
def place (e : Insertion) : Nat := e.position.toNat

/-- What insertions put between the elements that a reading finds. -/
def runs {α : Type} (F : Text → List α) (source : Text) (es : List Insertion) :
    List (Nat × List α) :=
  es.map fun e => ((F (source.take (place e))).length, F e.text)

/-! ### Insertions that sit -/

theorem fits_of_le {source : Text} {n : Nat} (h : n ≤ source.length) (t : Text) :
    Insertion.fits source.length ⟨n, t⟩ = true := by
  simp only [Insertion.fits, Bool.and_eq_true, decide_eq_true_eq]
  omega

/-- An insertion between two pieces of a script that joins neither of them. -/
structure Sits (source : Text) (e : Insertion) : Prop where
  -- The offset is one of the script.
  fits : Insertion.fits source.length e = true
  between : Between source (place e)
  nonempty : e.text ≠ []
  -- What is inserted is closed.
  closed : Closed e.text
  -- What stands before does not read on into it.
  before : Joins (source.take (place e)) e.text
  -- It does not read on into what stands after.
  after : Joins e.text (source.drop (place e))

theorem Sits.place_le {source : Text} {e : Insertion} (h : Sits source e) :
    place e ≤ source.length := by
  have := h.fits
  rw [Insertion.fits, Bool.and_eq_true, decide_eq_true_eq, decide_eq_true_eq] at this
  rw [place]
  omega

theorem joins_of_head? {a b c : Text} (h : Joins a b) (hbc : c.head? = b.head?) : Joins a c :=
  fun p hp d hd => h p hp d (hbc ▸ hd)

/-- A text from a place on joins what the whole joins. -/
theorem joins_drop {a b : Text} {n : Nat} {A : List Piece} (h : pieces a = A ++ pieces (a.drop n))
    (hb : Joins a b) : Joins (a.drop n) b := by
  intro p hp
  refine hb p ?_
  rw [h, List.getLast?_append, Option.mem_def.mp hp]
  rfl

section
variable {α : Type} {F : Text → List α} {source : Text}

/-- What insertions in the order of their places make of a script, from a place up to the first of
them on. -/
theorem foldr_of_sits (hF : Additive F) (hc : Closed source) {es : List Insertion}
    (hs : ∀ e ∈ es, Sits source e) (hsorted : es.Pairwise fun e f => place e < place f) {n : Nat}
    (hn : n ≤ source.length) (hb : Between source n) (hfirst : ∀ e ∈ es, n ≤ place e) :
    (es.foldr Insertion.apply source).take n = source.take n ∧
      F ((es.foldr Insertion.apply source).drop n) =
        weave (F (source.take n)).length (runs F source es) (F (source.drop n)) ∧
      ((∀ e ∈ es, n < place e) →
        ((es.foldr Insertion.apply source).drop n).head? = (source.drop n).head?) := by
  induction es generalizing n with
  | nil => exact ⟨rfl, rfl, fun _ => rfl⟩
  | cons e es ih =>
    obtain ⟨he, hes⟩ := List.forall_mem_cons.mp hs
    obtain ⟨hlt, hrest⟩ := List.pairwise_cons.mp hsorted
    have hp := he.place_le
    have hnp : n ≤ place e := hfirst e List.mem_cons_self
    -- What the later insertions make of the script from the place of `e` on.
    obtain ⟨htake, hdrop, hhead⟩ := ih hes hrest hp he.between fun f hf => (hlt f hf).le
    have hhead := hhead hlt
    have hmade : (e :: es).foldr Insertion.apply source = source.take (place e) ++
        (e.text ++ (es.foldr Insertion.apply source).drop (place e)) := by
      rw [← htake, ← List.append_assoc]
      rfl
    rw [hmade]
    clear hmade
    generalize es.foldr Insertion.apply source = later at hdrop hhead
    obtain ⟨hslice, -⟩ := between_slice hnp hp hb he.between
    obtain ⟨hFtake, hFdrop⟩ := hF.slice hnp hp hb he.between
    have hclosed : Closed ((source.take (place e)).drop n) := fun q hq =>
      he.between.closed_take hc q (by rw [hslice]; exact List.mem_append_right _ hq)
    have hjoins : Joins ((source.take (place e)).drop n) (e.text ++ later.drop (place e)) := by
      refine joins_of_head? (joins_drop hslice he.before) ?_
      exact List.head?_append_of_ne_nil _ he.nonempty
    have hinner : F (e.text ++ later.drop (place e)) = F e.text ++ F (later.drop (place e)) :=
      hF _ _ (pieces_append he.closed (joins_of_head? he.after hhead))
    refine ⟨?_, ?_, fun hall => ?_⟩
    · rw [List.take_append_of_le_length (by rw [List.length_take]; omega), List.take_take,
        Nat.min_eq_left hnp]
    · have hlen : (F (source.take (place e))).length - (F (source.take n)).length =
          (F ((source.take (place e)).drop n)).length := by
        rw [hFtake, List.length_append]
        omega
      rw [List.drop_append_of_le_length (by rw [List.length_take]; omega),
        hF _ _ (pieces_append hclosed hjoins), hinner, hdrop]
      show _ = weave _ ((_, F e.text) :: runs F source es) _
      rw [weave, hlen, hFdrop, List.take_left, List.drop_left]
    · have hlt : n < place e := hall e List.mem_cons_self
      have hne : (source.take (place e)).drop n ≠ [] := by
        rw [← List.length_pos_iff, List.length_drop, List.length_take]
        omega
      rw [List.drop_append_of_le_length (by rw [List.length_take]; omega),
        List.head?_append_of_ne_nil _ hne, ← slice_append_drop hnp hp, List.head?_append_of_ne_nil _ hne]

theorem applyAll_of_fits {es : List Insertion}
    (hs : ∀ e ∈ es, Insertion.fits source.length e = true) :
    Insertion.applyAll source es = .ok ((Insertion.ordered es).foldr Insertion.apply source) := by
  have hnone : es.find? (fun e => !Insertion.fits source.length e) = none := by
    rw [List.find?_eq_none]
    intro e he
    simp [hs e he]
  rw [Insertion.applyAll, hnone]

theorem applyAll_nil (source : Text) : Insertion.applyAll source [] = .ok source := by
  rw [applyAll_of_fits (by simp), Insertion.ordered, List.mergeSort_nil]
  rfl

theorem pairwise_of_length_le_one {α : Type} {R : α → α → Prop} {xs : List α}
    (h : xs.length ≤ 1) : xs.Pairwise R := by
  match xs, h with
  | [], _ => exact List.Pairwise.nil
  | [x], _ => exact List.pairwise_singleton R x

theorem ordered_pairwise_le (es : List Insertion) :
    (Insertion.ordered es).Pairwise fun e f => e.position ≤ f.position := by
  have h : (Insertion.ordered es).Pairwise fun e f => decide (e.position ≤ f.position) = true := by
    refine List.pairwise_mergeSort (fun a b c hab hbc => ?_) (fun a b => ?_) es
    · simp only [decide_eq_true_eq] at *
      omega
    · simp only [Bool.or_eq_true, decide_eq_true_eq]
      omega
  exact h.imp fun hab => of_decide_eq_true hab

/-- Insertions at different places stand in the order of their places when they are made. -/
theorem ordered_pairwise {es : List Insertion}
    (hdistinct : es.Pairwise fun e f => place e ≠ place f) :
    (Insertion.ordered es).Pairwise fun e f => place e < place f := by
  have hperm : (Insertion.ordered es).Perm es := List.mergeSort_perm _ _
  have hne : (Insertion.ordered es).Pairwise fun e f => place e ≠ place f :=
    (hperm.pairwise_iff fun h => Ne.symm h).mpr hdistinct
  refine ((ordered_pairwise_le es).and hne).imp fun {e f} h => ?_
  obtain ⟨h1, h2⟩ := h
  rw [place, place] at h2 ⊢
  omega

/-- The order of insertions at different places is the only one. -/
theorem ordered_eq {es es' : List Insertion} (hperm : es.Perm es')
    (hlt : es'.Pairwise fun e f => place e < place f) : Insertion.ordered es = es' := by
  have hdistinct : es.Pairwise fun e f => place e ≠ place f :=
    (hperm.pairwise_iff fun h => Ne.symm h).mpr (hlt.imp Nat.ne_of_lt)
  refine List.Perm.eq_of_pairwise (fun e f _ _ h h' => ?_) (ordered_pairwise hdistinct) hlt
    ((List.mergeSort_perm _ _).trans hperm)
  exact absurd h' (Nat.lt_asymm h)

/-- **Insertions that sit at different places only push the script apart**: what a reading finds in
the text that they make is what it finds in the script, with what they put in between. -/
theorem applyAll_of_sits (hF : Additive F) (hc : Closed source) {es : List Insertion}
    (hs : ∀ e ∈ es, Sits source e) (hdistinct : es.Pairwise fun e f => place e ≠ place f)
    {u : Text} (hu : Insertion.applyAll source es = .ok u) :
    F u = weave 0 (runs F source (Insertion.ordered es)) (F source) := by
  have hperm : (Insertion.ordered es).Perm es := List.mergeSort_perm _ _
  have hsits : ∀ e ∈ Insertion.ordered es, Sits source e := fun e he => hs e (hperm.mem_iff.mp he)
  rw [applyAll_of_fits fun e he => (hs e he).fits, Except.ok.injEq] at hu
  have hmade := (foldr_of_sits hF hc hsits (ordered_pairwise hdistinct) (Nat.zero_le _)
    (between_zero source) fun _ _ => Nat.zero_le _).2.1
  rwa [hu, List.drop_zero, List.drop_zero, List.take_zero, hF.nil, List.length_nil] at hmade

/-- Insertions that sit leave a closed script closed. -/
theorem closed_of_sits (hc : Closed source) {es : List Insertion} (hs : ∀ e ∈ es, Sits source e)
    (hdistinct : es.Pairwise fun e f => place e ≠ place f) {u : Text}
    (hu : Insertion.applyAll source es = .ok u) : Closed u := by
  intro p hp
  rw [applyAll_of_sits additive_pieces hc hs hdistinct hu] at hp
  rcases mem_weave hp with hp | ⟨run, hrun, hp⟩
  · exact hc p hp
  · obtain ⟨e, he, rfl⟩ := List.mem_map.mp hrun
    exact (hs e ((List.mergeSort_perm _ _).mem_iff.mp he)).closed p hp

end

end Graft.Registration
