import Graft.Proofs.Workspace.Addressing
import Graft.Registration.Plan

/-
Which specifiers are relative.

* `IsRelative p` — a specifier that begins with `./` or `../` and ends with a name;
* `importedPlace base script`, `hostDirectory base host` — the two places that a specifier leads between;
* `isRelative_lead_iff` — the way from one place to another, marked as relative;
* `isRelative_specifier_iff` — **a specifier is relative unless the script is named like the host's
  directory or one above it, or its way down from there begins with a dot**.

Design notes: the way is looked at as its segments, some `..` and then names.  Names may begin with a dot,
which is why a way that begins with one need not be marked as relative.
-/
namespace Graft.Registration

open Graft.Path

/-- A specifier that begins with `./` or `../` and ends with a name. -/
structure IsRelative (p : Text) : Prop where
  lead : ['.', '/'] <+: p ∨ ['.', '.', '/'] <+: p
  notHere : lastSegment p ≠ here
  notAbove : lastSegment p ≠ above

/-! ### Ways -/

/-- A way marked as relative, unless it begins with a dot. -/
def marked (p : Text) : Text := if p.head? = some '.' then p else '.' :: '/' :: p

/-- A path that ends with a name, and leads there from `.` or `..`, is relative. -/
theorem isRelative_join {first : Text} (hfirst : first = here ∨ first = above) {us names : List Text}
    (hne : names ≠ []) (h : ∀ s ∈ names, IsName s) : IsRelative (join (first :: (us ++ names))) := by
  obtain ⟨init, last, rfl⟩ := List.eq_nil_or_concat names |>.resolve_left hne
  have hlast : IsName last := h last (by simp)
  have hsegment : lastSegment (join (first :: (us ++ init.concat last))) = last := by
    rw [List.concat_eq_append, ← List.append_assoc, ← List.cons_append]
    exact lastSegment_join hlast.noSlash
  have hbegin : join (first :: (us ++ init.concat last)) =
      first ++ '/' :: join (us ++ init.concat last) := by
    rw [← List.singleton_append, join_append (by simp) (by simp), join_singleton]
  refine ⟨?_, by rw [hsegment]; exact hlast.notHere, by rw [hsegment]; exact hlast.notAbove⟩
  rw [hbegin]
  rcases hfirst with rfl | rfl
  · exact Or.inl ⟨_, rfl⟩
  · exact Or.inr ⟨_, rfl⟩

/-- A path that begins with a name is not relative. -/
theorem not_isRelative_join {names : List Text} (h : ∀ s ∈ names, IsName s) :
    ¬ IsRelative (join names) := by
  intro hrelative
  by_cases hnil : names = []
  · subst hnil
    rcases hrelative.lead with h | h <;> cases List.eq_nil_of_prefix_nil h
  -- What stands before the first slash is a name.
  have hfirst {lead rest : Text} (hlead : lead ++ '/' :: rest = join names) : ∀ s ∈ split lead, IsName s := by
    intro s hs
    refine h s ?_
    rw [← split_join (fun s hs => (h s hs).noSlash) hnil, ← hlead, split_append_slash]
    exact List.mem_append_left _ hs
  rcases hrelative.lead with ⟨rest, hrest⟩ | ⟨rest, hrest⟩
  · exact (@hfirst here rest hrest here List.mem_cons_self).notHere rfl
  · exact (@hfirst above rest hrest above List.mem_cons_self).notAbove rfl

/-- A way that only leads up is not relative, as it ends with `..`. -/
theorem not_isRelative_up (n : Nat) : ¬ IsRelative (marked (join (List.replicate (n + 1) above))) := by
  intro hrelative
  have hlast : lastSegment (join (List.replicate (n + 1) above)) = above := by
    rw [List.replicate_succ']
    exact lastSegment_join (by decide)
  have hhead : (join (List.replicate (n + 1) above)).head? = some '.' :=
    head?_join (by decide) (List.replicate n above)
  refine hrelative.notAbove ?_
  rw [marked, if_pos hhead, hlast]

/-- A way that only leads down is relative unless its first name begins with a dot. -/
theorem isRelative_down_iff {s : Text} {ss : List Text} (h : ∀ t ∈ s :: ss, IsName t) :
    IsRelative (marked (join (s :: ss))) ↔ s.head? ≠ some '.' := by
  have hhead : (join (s :: ss)).head? = s.head? := head?_join (h s List.mem_cons_self).nonempty ss
  rw [marked, hhead]
  by_cases hdot : s.head? = some '.'
  · rw [if_pos hdot]
    exact iff_of_false (not_isRelative_join h) fun hne => hne hdot
  · rw [if_neg hdot]
    refine iff_of_true ?_ hdot
    have hjoin : '.' :: '/' :: join (s :: ss) = join (here :: ([] ++ s :: ss)) := by
      rw [List.nil_append, ← List.singleton_append (x := here), join_append (by simp) (by simp)]
      rfl
    rw [hjoin]
    exact isRelative_join (Or.inl rfl) (List.cons_ne_nil s ss) h

/-- A way that leads up and then down is relative. -/
theorem isRelative_up_down (n : Nat) {names : List Text} (hne : names ≠ [])
    (h : ∀ s ∈ names, IsName s) :
    IsRelative (marked (join (List.replicate (n + 1) above ++ names))) := by
  have hhead : (join (above :: (List.replicate n above ++ names))).head? = some '.' :=
    head?_join (by decide) _
  rw [List.replicate_succ, List.cons_append, marked, if_pos hhead]
  exact isRelative_join (Or.inr rfl) hne h

/-- The way from one place to another, marked as relative. -/
theorem isRelative_lead_iff {goal dir : List Text} (hgoal : ∀ s ∈ goal, IsName s) :
    IsRelative (marked (lead goal dir)) ↔
      ¬ goal <+: dir ∧ ∀ s ss, goal = dir ++ s :: ss → s.head? ≠ some '.' := by
  obtain ⟨common, hg, hd, hdiffer⟩ := dropCommon_eq goal dir
  unfold lead
  generalize dropCommon goal dir = apart at hg hd hdiffer ⊢
  obtain ⟨down, up⟩ := apart
  dsimp only at hg hd hdiffer ⊢
  rw [List.map_const']
  have hnames : ∀ s ∈ down, IsName s := fun s hs => hgoal s (by rw [hg]; exact List.mem_append_right _ hs)
  cases down with
  | nil =>
    -- The goal is the directory or above it.
    have hprefix : goal <+: dir := ⟨up, by rw [hg, hd, List.append_nil]⟩
    refine iff_of_false (fun hrelative => ?_) fun h => h.1 hprefix
    rw [List.append_nil] at hrelative
    cases hn : up.length with
    | zero =>
      rw [hn] at hrelative
      exact hrelative.notHere rfl
    | succ n =>
      rw [hn] at hrelative
      exact not_isRelative_up n hrelative
  | cons s ss =>
    cases up with
    | nil =>
      -- The goal is below the directory.
      have hbelow : goal = dir ++ s :: ss := by rw [hg, hd, List.append_nil]
      have hnot : ¬ goal <+: dir := by
        intro hp
        have hlength := hp.length_le
        rw [hbelow, List.length_append, List.length_cons] at hlength
        omega
      have hthat : (∀ s' ss', goal = dir ++ s' :: ss' → s'.head? ≠ some '.') ↔ s.head? ≠ some '.' := by
        refine ⟨fun h => h s ss hbelow, fun h s' ss' hgoal' => ?_⟩
        rw [hbelow] at hgoal'
        rwa [← (List.cons.inj (List.append_cancel_left hgoal')).1]
      rw [hthat, and_iff_right hnot]
      exact isRelative_down_iff hnames
    | cons u us =>
      -- The goal and the directory part.
      have hne : s ≠ u := hdiffer s ss u us rfl rfl
      have hnot : ¬ goal <+: dir := by
        rintro ⟨rest, hrest⟩
        rw [hg, hd, List.append_assoc] at hrest
        exact hne (List.cons.inj (List.append_cancel_left hrest)).1
      have hapart : ∀ s' ss', goal = dir ++ s' :: ss' → s'.head? ≠ some '.' := by
        intro s' ss' hgoal'
        rw [hg, hd, List.append_assoc] at hgoal'
        exact absurd (List.cons.inj (List.append_cancel_left hgoal')).1 hne
      exact iff_of_true (isRelative_up_down us.length (List.cons_ne_nil s ss) hnames) ⟨hnot, hapart⟩

/-! ### Specifiers -/

/-- The place that a script is imported from, which is its own without the extension. -/
def importedPlace (base : Location) (script : Text) : Location :=
  locate base ((if Text.endsWith ".ts".toList script then script.take (script.length - 3)
    else script).dropWhile isSlash)

/-- The place of the directory of a host. -/
def hostDirectory (base : Location) (host : Text) : Location :=
  locate base (match directory (host.dropWhile isSlash) with
    | [] => here
    | d => d)

theorem isName_of_mem_locate {base : Location} (hbase : base.Resolved) {t s : Text}
    (h : s ∈ locate base t) : IsName s := by
  unfold locate at h
  split at h
  · exact isName_of_mem_collapse (fun _ hs => not_slash_of_mem_split hs) h
  · refine isName_of_mem_collapse (fun u hu => ?_) h
    rcases List.mem_append.mp hu with hu | hu
    · exact (hbase u hu).noSlash
    · exact not_slash_of_mem_split hu

/-- **A specifier is relative unless the script is named like the host's directory or one above it, or
its way down from there begins with a dot.** -/
theorem isRelative_specifier_iff {base : Location} (hbase : base.Resolved) {host script p : Text}
    (h : specifier? base host script = some p) : IsRelative p ↔
      ¬ importedPlace base script <+: hostDirectory base host ∧
        ∀ s ss, importedPlace base script = hostDirectory base host ++ s :: ss → s.head? ≠ some '.' := by
  obtain ⟨way, hway, rfl⟩ := Option.map_eq_some_iff.mp h
  obtain ⟨-, hway⟩ := Option.ite_none_left_eq_some.mp hway
  obtain rfl := Option.some.inj hway
  exact isRelative_lead_iff fun s hs => isName_of_mem_locate hbase hs

end Graft.Registration
