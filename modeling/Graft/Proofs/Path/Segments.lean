import Graft.Path
import Graft.Proofs.Text.Lines

/-
Paths and their segments.

* `IsName s` — a segment that names an entry of a directory;
* `split_join`, `split_append_slash` — cutting at slashes, and putting together again;
* `collapse_append` — segments without `..` are only cleared of empty and `.` ones;
* `isName_of_mem_collapse` — **a rooted path collapses to names**;
* `exists_collapse_eq` — a relative path collapses to some `..` and then names;
* `lastSegment_join`, `dropCommon_eq` — the last segment, and what two paths have in common.

Design notes: collapsing is a left fold over a stack, so what is said of it is said of the fold from any
stack, and a list of names is the one thing that goes through unchanged.
-/
namespace Graft.Path

/-- A segment that names an entry of a directory. -/
structure IsName (s : Text) : Prop where
  nonempty : s ≠ []
  -- It is neither the directory itself nor the one above.
  notHere : s ≠ here
  notAbove : s ≠ above
  noSlash : '/' ∉ s

instance (s : Text) : Decidable (IsName s) :=
  decidable_of_iff (s ≠ [] ∧ s ≠ here ∧ s ≠ above ∧ '/' ∉ s)
    ⟨fun ⟨h1, h2, h3, h4⟩ => ⟨h1, h2, h3, h4⟩, fun ⟨h1, h2, h3, h4⟩ => ⟨h1, h2, h3, h4⟩⟩

/-! ### Cutting at slashes -/

theorem join_split (t : Text) : join (split t) = t := List.intercalate_splitOn '/'

theorem split_join {ss : List Text} (h : ∀ s ∈ ss, '/' ∉ s) (hne : ss ≠ []) :
    split (join ss) = ss := List.splitOn_intercalate '/' h hne

theorem not_slash_of_mem_split {t s : Text} (h : s ∈ split t) : '/' ∉ s :=
  Text.not_mem_of_mem_splitOn h

/-- The characters of a segment are those of the path. -/
theorem mem_of_mem_split {t s : Text} (h : s ∈ split t) {c : Char} (hc : c ∈ s) : c ∈ t := by
  have hin : s <:+: join (split t) := Text.infix_of_mem_intercalate h
  rw [join_split] at hin
  exact hin.subset hc

theorem split_append_slash (a b : Text) : split (a ++ '/' :: b) = split a ++ split b := by
  induction a with
  | nil => rw [List.nil_append, split, List.splitOn_cons_eq_if_modifyHead]; rfl
  | cons c cs ih =>
    rw [List.cons_append, split, split, List.splitOn_cons_eq_if_modifyHead,
      List.splitOn_cons_eq_if_modifyHead]
    change (if (c == '/') = true then [] :: split (cs ++ '/' :: b)
      else (split (cs ++ '/' :: b)).modifyHead (c :: ·)) =
        (if (c == '/') = true then [] :: split cs else (split cs).modifyHead (c :: ·)) ++ split b
    rw [ih]
    by_cases hc : (c == '/') = true
    · rw [if_pos hc, if_pos hc, List.cons_append]
    · rw [if_neg hc, if_neg hc]
      cases hs : split cs with
      | nil => exact absurd hs (List.splitOn_ne_nil '/' cs)
      | cons s ss => rfl

theorem join_singleton (s : Text) : join [s] = s := List.intercalate_singleton ..

theorem join_append {ss us : List Text} (hs : ss ≠ []) (hu : us ≠ []) :
    join (ss ++ us) = join ss ++ '/' :: join us := Text.intercalate_append hs hu

/-- The characters of a path are slashes and those of its segments. -/
theorem mem_join {ss : List Text} {c : Char} (h : c ∈ join ss) : c = '/' ∨ ∃ s ∈ ss, c ∈ s :=
  Text.mem_intercalate h

theorem join_ne_nil {ss : List Text} (h : ∀ s ∈ ss, s ≠ []) (hne : ss ≠ []) : join ss ≠ [] := by
  obtain ⟨s, ss, rfl⟩ := List.exists_cons_of_ne_nil hne
  have hs : s ≠ [] := h s List.mem_cons_self
  cases ss with
  | nil => rwa [join_singleton]
  | cons s' ss =>
    rw [← List.singleton_append, join_append (by simp) (by simp)]
    exact List.append_ne_nil_of_right_ne_nil _ (List.cons_ne_nil _ _)

/-- A path begins with its first segment. -/
theorem head?_join {s : Text} (hs : s ≠ []) (ss : List Text) : (join (s :: ss)).head? = s.head? := by
  cases ss with
  | nil => rw [join_singleton]
  | cons s' ss =>
    rw [← List.singleton_append, join_append (by simp) (by simp), join_singleton,
      List.head?_append_of_ne_nil _ hs]

/-! ### The first and the last segment -/

theorem split_ne_nil (t : Text) : split t ≠ [] := List.splitOn_ne_nil '/' t

theorem exists_split_cons (t : Text) : ∃ s ss, split t = s :: ss := List.exists_cons_of_ne_nil (split_ne_nil t)

theorem exists_split_concat (t : Text) : ∃ ss s, split t = ss ++ [s] :=
  ⟨_, _, (List.dropLast_concat_getLast (split_ne_nil t)).symm⟩

/-- A path that ends with a segment does not end with a slash. -/
theorem not_slash_of_mem_getLast? {p : Text} (h : lastSegment p ≠ []) :
    ∀ c ∈ p.getLast?, isSlash c = false := by
  intro c hc
  obtain ⟨dir, hdir⟩ : lastSegment p <:+ p := List.rtakeWhile_suffix _ p
  rw [← hdir, List.getLast?_append_of_ne_nil _ h] at hc
  simpa using List.mem_rtakeWhile_imp (List.mem_of_getLast? hc)

theorem lastSegment_eq_self {t : Text} (h : '/' ∉ t) : lastSegment t = t := by
  rw [lastSegment, List.takeWhile_eq_self_iff.mpr, List.reverse_reverse]
  intro c hc
  have hne : c ≠ '/' := fun he => h (by rw [← he]; exact List.mem_reverse.mp hc)
  simpa [isSlash] using hne

theorem lastSegment_append_slash (a : Text) {b : Text} (h : '/' ∉ b) :
    lastSegment (a ++ '/' :: b) = b := by
  refine Text.rtakeWhile_append_cons rfl (fun c hc => ?_) a
  have hne : c ≠ '/' := fun he => h (he ▸ hc)
  simpa [isSlash] using hne

theorem lastSegment_join {ss : List Text} {s : Text} (h : '/' ∉ s) :
    lastSegment (join (ss ++ [s])) = s := by
  by_cases hss : ss = []
  · rw [hss, List.nil_append, join_singleton, lastSegment_eq_self h]
  · rw [join_append hss (by simp), join_singleton, lastSegment_append_slash _ h]

/-! ### Collapsing -/

/-- Whether a segment names something: it is neither empty nor `.`. -/
def isNamed (s : Text) : Bool := !(s.isEmpty || s == here)

theorem isNamed_of_isName {s : Text} (h : IsName s) : isNamed s = true := by
  simp [isNamed, h.nonempty, h.notHere]

theorem filter_isNamed {ss : List Text} (h : ∀ s ∈ ss, IsName s) : ss.filter isNamed = ss :=
  List.filter_eq_self.mpr fun s hs => isNamed_of_isName (h s hs)

theorem push_above_nil (rooted : Bool) :
    push rooted [] above = if rooted then [] else [above] := by
  unfold push
  rw [if_neg (by decide), if_pos rfl]

theorem push_above_cons (rooted : Bool) (top : Text) (rest : List Text) :
    push rooted (top :: rest) above = if top = above then above :: top :: rest else rest := by
  unfold push
  rw [if_neg (by decide), if_pos rfl]

theorem push_of_not_above {s : Text} (h : s ≠ above) (rooted : Bool) (stack : List Text) :
    push rooted stack s = if isNamed s then s :: stack else stack := by
  by_cases hs : s = [] ∨ s = here
  · have hno : ¬ isNamed s = true := by
      rcases hs with rfl | rfl <;> decide
    unfold push
    rw [if_pos hs, if_neg hno]
  · have hyes : isNamed s = true := by simpa [isNamed] using hs
    unfold push
    rw [if_neg hs, if_neg h, if_pos hyes]

theorem foldl_push {ss : List Text} (h : above ∉ ss) (rooted : Bool) (stack : List Text) :
    ss.foldl (push rooted) stack = (ss.filter isNamed).reverse ++ stack := by
  induction ss generalizing stack with
  | nil => rfl
  | cons s ss ih =>
    rw [List.mem_cons, not_or] at h
    rw [List.foldl_cons, push_of_not_above (Ne.symm h.1), ih h.2]
    by_cases hs : isNamed s = true
    · simp [hs]
    · simp [hs]

/-- Segments without `..` are only cleared of empty and `.` ones. -/
theorem collapse_append {rooted : Bool} {ss : List Text} (h : above ∉ ss) (before : List Text) :
    collapse rooted (before ++ ss) = collapse rooted before ++ ss.filter isNamed := by
  rw [collapse, List.foldl_append, foldl_push h, List.reverse_append, List.reverse_reverse]
  rfl

theorem above_not_mem {ss : List Text} (h : ∀ s ∈ ss, IsName s) : above ∉ ss :=
  fun hin => (h above hin).notAbove rfl

/-- Names are kept. -/
theorem collapse_append_names {rooted : Bool} {ss : List Text} (h : ∀ s ∈ ss, IsName s)
    (before : List Text) : collapse rooted (before ++ ss) = collapse rooted before ++ ss := by
  rw [collapse_append (above_not_mem h), filter_isNamed h]

theorem collapse_names {rooted : Bool} {ss : List Text} (h : ∀ s ∈ ss, IsName s) :
    collapse rooted ss = ss := by
  have happend : collapse rooted ([] ++ ss) = collapse rooted [] ++ ss := collapse_append_names h []
  rwa [List.nil_append] at happend

/-- A step keeps to the segments at hand. -/
theorem mem_push {rooted : Bool} {stack : List Text} {s u : Text} (h : u ∈ push rooted stack s) :
    u ∈ stack ∨ u = s := by
  by_cases hs : s = above
  · subst hs
    cases stack with
    | nil =>
      rw [push_above_nil] at h
      cases rooted with
      | false => exact Or.inr (List.mem_singleton.mp h)
      | true => cases h
    | cons top rest =>
      rw [push_above_cons] at h
      split at h
      · exact (List.mem_cons.mp h).symm
      · exact Or.inl (List.mem_cons_of_mem top h)
  · rw [push_of_not_above hs] at h
    split at h
    · exact (List.mem_cons.mp h).symm
    · exact Or.inl h

theorem mem_of_mem_collapse {rooted : Bool} {ss : List Text} {u : Text}
    (h : u ∈ collapse rooted ss) : u ∈ ss := by
  have hfold (stack : List Text) (hu : u ∈ ss.foldl (push rooted) stack) : u ∈ stack ∨ u ∈ ss := by
    clear h
    induction ss generalizing stack with
    | nil => exact Or.inl hu
    | cons s ss ih =>
      rcases ih _ hu with h | h
      · rcases mem_push h with h | h
        · exact Or.inl h
        · exact Or.inr (by rw [h]; exact List.mem_cons_self)
      · exact Or.inr (List.mem_cons_of_mem s h)
  exact (hfold [] (List.mem_reverse.mp h)).resolve_left List.not_mem_nil

/-- A stack of names, nearest first, above some `..` at the bottom. -/
def Settled (stack : List Text) : Prop :=
  ∃ names n, stack = names ++ List.replicate n above ∧ ∀ s ∈ names, isNamed s = true ∧ s ≠ above

theorem settled_push {stack : List Text} (h : Settled stack) (s : Text) :
    Settled (push false stack s) := by
  obtain ⟨names, n, rfl, hnames⟩ := h
  by_cases hs : s = above
  · subst hs
    cases names with
    | cons top rest =>
      have htop : top ≠ above := (hnames top List.mem_cons_self).2
      rw [List.cons_append, push_above_cons, if_neg htop]
      exact ⟨rest, n, rfl, fun s hs => hnames s (List.mem_cons_of_mem top hs)⟩
    | nil =>
      cases n with
      | zero => exact ⟨[], 1, rfl, hnames⟩
      | succ n =>
        rw [List.nil_append, List.replicate_succ, push_above_cons, if_pos rfl]
        exact ⟨[], n + 2, rfl, hnames⟩
  · rw [push_of_not_above hs]
    by_cases hnamed : isNamed s = true
    · rw [if_pos hnamed]
      exact ⟨s :: names, n, rfl, List.forall_mem_cons.mpr ⟨⟨hnamed, hs⟩, hnames⟩⟩
    · rw [if_neg hnamed]
      exact ⟨names, n, rfl, hnames⟩

theorem isName_of_isNamed {s : Text} (h : isNamed s = true) (habove : s ≠ above)
    (hslash : '/' ∉ s) : IsName s := by
  have hs : s ≠ [] ∧ s ≠ here := by simpa [isNamed] using h
  exact ⟨hs.1, hs.2, habove, hslash⟩

/-- A relative path collapses to some `..` and then names. -/
theorem exists_collapse_eq {ss : List Text} (h : ∀ s ∈ ss, '/' ∉ s) :
    ∃ n names, collapse false ss = List.replicate n above ++ names ∧ ∀ s ∈ names, IsName s := by
  have hfold (us : List Text) : ∀ stack, Settled stack → Settled (us.foldl (push false) stack) := by
    induction us with
    | nil => exact fun stack hstack => hstack
    | cons u us ih => exact fun stack hstack => ih _ (settled_push hstack u)
  obtain ⟨names, n, hstack, hnames⟩ := hfold ss [] ⟨[], 0, rfl, by simp⟩
  have hcollapse : collapse false ss = List.replicate n above ++ names.reverse := by
    rw [collapse, hstack, List.reverse_append, List.reverse_replicate]
  refine ⟨n, names.reverse, hcollapse, fun s hs => ?_⟩
  have hmem : s ∈ collapse false ss := by
    rw [hcollapse]
    exact List.mem_append_right _ hs
  obtain ⟨hnamed, habove⟩ := hnames s (List.mem_reverse.mp hs)
  exact isName_of_isNamed hnamed habove (h s (mem_of_mem_collapse hmem))

/-- **A rooted path collapses to names.** -/
theorem isName_of_mem_collapse {ss : List Text} (h : ∀ s ∈ ss, '/' ∉ s) {u : Text}
    (hu : u ∈ collapse true ss) : IsName u := by
  have hstep (stack : List Text) (s : Text) (hstack : ∀ v ∈ stack, isNamed v = true ∧ v ≠ above) :
      ∀ v ∈ push true stack s, isNamed v = true ∧ v ≠ above := by
    by_cases hs : s = above
    · subst hs
      cases stack with
      | nil => exact fun v hv => by cases hv
      | cons top rest =>
        have htop : top ≠ above := (hstack top List.mem_cons_self).2
        rw [push_above_cons, if_neg htop]
        exact fun v hv => hstack v (List.mem_cons_of_mem top hv)
    · rw [push_of_not_above hs]
      by_cases hnamed : isNamed s = true
      · rw [if_pos hnamed]
        exact List.forall_mem_cons.mpr ⟨⟨hnamed, hs⟩, hstack⟩
      · rw [if_neg hnamed]
        exact hstack
  have hfold (us : List Text) : ∀ stack, (∀ v ∈ stack, isNamed v = true ∧ v ≠ above) →
      ∀ v ∈ us.foldl (push true) stack, isNamed v = true ∧ v ≠ above := by
    induction us with
    | nil => exact fun stack hstack => hstack
    | cons s us ih => exact fun stack hstack => ih _ (hstep stack s hstack)
  obtain ⟨hnamed, habove⟩ := hfold ss [] (by simp) u (List.mem_reverse.mp hu)
  exact isName_of_isNamed hnamed habove (h u (mem_of_mem_collapse hu))

/-! ### What two paths have in common -/

/-- Two paths, and what is left of them behind what they have in common. -/
theorem dropCommon_eq (as bs : List Text) : ∃ common,
    as = common ++ (dropCommon as bs).1 ∧ bs = common ++ (dropCommon as bs).2 ∧
      ∀ a as' b bs', (dropCommon as bs).1 = a :: as' → (dropCommon as bs).2 = b :: bs' → a ≠ b := by
  fun_induction dropCommon as bs with
  | case1 as a bs ih =>
    obtain ⟨common, h1, h2, h3⟩ := ih
    refine ⟨a :: common, ?_, ?_, h3⟩
    · rw [List.cons_append, ← h1]
    · rw [List.cons_append, ← h2]
  | case2 a as b bs hab =>
    refine ⟨[], rfl, rfl, fun a' as' b' bs' h1 h2 => ?_⟩
    rw [← (List.cons.inj h1).1, ← (List.cons.inj h2).1]
    exact hab
  | case3 as bs hne =>
    exact ⟨[], rfl, rfl, fun a as' b bs' h1 h2 => absurd h2 (hne a as' b bs' h1)⟩

end Graft.Path
