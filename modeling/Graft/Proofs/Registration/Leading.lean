import Graft.Proofs.Path.Ways
import Graft.Proofs.Registration.Specifier

/-
Where a specifier leads.

* `specifier?_eq` — the specifier of a script is the way to its place without the extension;
* `exists_descent` — such a place lies below the base, unless it is the directory above;
* `exists_way` — **the way there is the same from every base, and leads to the place**;
* `specifier_leads` — **from the directory of the host a specifier leads to the script without its
  extension**, and the same specifier serves below every directory.

Design notes: the name that is left without the extension may be `.` or `..`, of scripts called `..ts` and
`...ts`.  A place is then what its segments collapse to, and `..` alone is no place below the base; from the
root of the file system, above which there is nothing, it is not even another one.
-/
namespace Graft.Registration

open Graft.Path

/-- The extension of scripts. -/
def scriptSuffix : Text := ".ts".toList

/-! ### Scripts -/

/-- The segments of a script's place: those of the script, with the extension off the last. -/
theorem exists_split_place {place : Text} (h : ∀ s ∈ split (place ++ scriptSuffix), IsName s)
    (hlong : scriptSuffix.length < (lastSegment (place ++ scriptSuffix)).length) :
    ∃ ss s, split place = ss ++ [s] ∧ (∀ u ∈ ss, IsName u) ∧ (IsName s ∨ s = here ∨ s = above) := by
  obtain ⟨ss, s, hsplit⟩ := exists_split_concat place
  have hslash : '/' ∉ scriptSuffix := by decide
  have hs : '/' ∉ s := not_slash_of_mem_split (t := place) (by rw [hsplit]; simp)
  have hss : ∀ u ∈ ss, '/' ∉ u := fun u hu => not_slash_of_mem_split (t := place) (by rw [hsplit]; simp [hu])
  have hend : '/' ∉ s ++ scriptSuffix := fun hin => (List.mem_append.mp hin).elim hs hslash
  have hplace : place ++ scriptSuffix = join (ss ++ [s ++ scriptSuffix]) := by
    rw [← join_split place, hsplit]
    by_cases hnil : ss = []
    · rw [hnil, List.nil_append, List.nil_append, join_singleton, join_singleton]
    · rw [join_append hnil (by simp), join_append hnil (by simp), join_singleton, join_singleton,
        List.append_assoc, List.cons_append]
  have hwhole : split (place ++ scriptSuffix) = ss ++ [s ++ scriptSuffix] := by
    rw [hplace, split_join (fun u hu => ?_) (by simp)]
    rcases List.mem_append.mp hu with hu | hu
    · exact hss u hu
    · rw [List.mem_singleton.mp hu]
      exact hend
  rw [hplace, lastSegment_join hend, List.length_append] at hlong
  have hne : s ≠ [] := by
    rintro rfl
    simp at hlong
  refine ⟨ss, s, hsplit, fun u hu => h u (by rw [hwhole]; simp [hu]), ?_⟩
  by_cases hhere : s = here
  · exact .inr (.inl hhere)
  by_cases habove : s = above
  · exact .inr (.inr habove)
  exact .inl ⟨hne, hhere, habove, hs⟩

/-- The place of a script is a relative path. -/
theorem head_place {place : Text} {ss : List Text} {s : Text} (hsplit : split place = ss ++ [s])
    (hss : ∀ u ∈ ss, IsName u) (hs : s ≠ []) : place ≠ [] ∧ place.head? ≠ some '/' := by
  cases ss with
  | nil => exact head?_ne_slash hsplit hs
  | cons u us => exact head?_ne_slash hsplit (hss u List.mem_cons_self).nonempty

theorem endsWith_append (t tail : Text) : Text.endsWith tail (t ++ tail) = true := by
  rw [Text.endsWith, List.reverse_append, Text.after?_append]
  rfl

/-- The directory of a host, seen from a base. -/
theorem hostDirectory_eq {base : Location} (hbase : base.Resolved) {host h : Text} {dir : List Text}
    (hsplit : split host = dir ++ [h]) (hhost : ∀ s ∈ split host, IsName s) :
    directory host = join dir ∧ hostDirectory base host = base ++ dir := by
  rw [hsplit] at hhost
  have hdir : ∀ s ∈ dir, IsName s := fun s hs => hhost s (List.mem_append_left _ hs)
  have hh : IsName h := hhost h (by simp)
  obtain ⟨-, hhead⟩ := head_place hsplit hdir hh.nonempty
  have hdirectory : directory host = join dir := by
    rw [← join_split host, hsplit, directory_join hh.noSlash hdir]
  refine ⟨hdirectory, ?_⟩
  rw [hostDirectory, dropWhile_isSlash hhead, hdirectory]
  cases dir with
  | nil =>
    show locate base here = base ++ []
    rw [locate_of_not_above hbase (by decide) (by decide)]
    rfl
  | cons s ss =>
    have hs : IsName s := hdir s List.mem_cons_self
    have hjoined : split (join (s :: ss)) = s :: ss :=
      split_join (fun u hu => (hdir u hu).noSlash) (List.cons_ne_nil s ss)
    obtain ⟨hne, hrelative⟩ := head?_ne_slash hjoined hs.nonempty
    obtain ⟨c, cs, hcons⟩ := List.exists_cons_of_ne_nil hne
    have hlocate : locate base (join (s :: ss)) = base ++ (s :: ss) := by
      rw [locate_relative base hrelative, hjoined, collapse_append_names hdir, collapse_names hbase]
    rw [hcons] at hlocate ⊢
    exact hlocate

/-- The specifier of a script is the way to its place without the extension. -/
theorem specifier?_eq (base : Location) (host : Text) {place : Text} (hne : place ≠ [])
    (hhead : place.head? ≠ some '/') : specifier? base host (place ++ scriptSuffix) =
      some (marked (lead (locate base place) (hostDirectory base host))) := by
  have hstrip : (if Text.endsWith ".ts".toList (place ++ scriptSuffix) then
      (place ++ scriptSuffix).take ((place ++ scriptSuffix).length - 3) else place ++ scriptSuffix) = place := by
    have hlength : (place ++ scriptSuffix).length = place.length + 3 := List.length_append
    refine (if_pos (endsWith_append place scriptSuffix)).trans ?_
    rw [hlength, Nat.add_sub_cancel, List.take_left]
  have hsome : ¬ place.isEmpty = true := by rwa [List.isEmpty_iff]
  unfold specifier?
  dsimp only
  rw [hstrip, dropWhile_isSlash hhead, relative?, if_neg hsome]
  rfl

/-! ### Ways -/

/-- A place lies below the base, unless it is the directory above. -/
theorem exists_descent {place s : Text} {ss : List Text} (hsplit : split place = ss ++ [s])
    (hss : ∀ u ∈ ss, IsName u) (hs : IsName s ∨ s = here ∨ s = above) (hhead : place.head? ≠ some '/') :
    place = above ∨ ∃ goal, (∀ u ∈ goal, IsName u) ∧ collapse false (split place) = goal ∧
      ∀ base : Location, base.Resolved → locate base place = base ++ goal := by
  -- What the segments collapse to behind names.
  have hbelow {goal : List Text} (hgoal : ∀ u ∈ goal, IsName u)
      (h : ∀ rooted before, collapse rooted (before ++ (ss ++ [s])) = collapse rooted (before ++ goal)) :
      ∃ goal, (∀ u ∈ goal, IsName u) ∧ collapse false (split place) = goal ∧
        ∀ base : Location, base.Resolved → locate base place = base ++ goal := by
    refine ⟨goal, hgoal, ?_, fun base hbase => ?_⟩
    · rw [hsplit]
      exact (h false []).trans (collapse_names hgoal)
    · rw [locate_relative base hhead, hsplit, h, collapse_append_names hgoal, collapse_names hbase]
  rcases hs with hs | rfl | rfl
  · refine .inr (hbelow ?_ fun _ _ => rfl)
    exact List.forall_mem_append.mpr ⟨hss, List.forall_mem_singleton.mpr hs⟩
  · refine .inr (hbelow hss fun rooted before => collapse_congr ?_ rooted)
    rw [← List.append_assoc, List.filter_append]
    exact List.append_nil _
  · rcases List.eq_nil_or_concat ss with rfl | ⟨init, u, rfl⟩
    · refine .inl ?_
      rw [← join_split place, hsplit]
      rfl
    · have hu : ∀ v ∈ [u], IsName v := fun v hv => hss v (by simp [List.mem_singleton.mp hv])
      have hinit : ∀ v ∈ init, IsName v := fun v hv => hss v (by simp [hv])
      refine .inr (hbelow hinit fun rooted before => ?_)
      have hclimb := collapse_climb hu rooted (before ++ init) []
      rw [List.append_nil, List.append_nil, List.append_assoc] at hclimb
      rwa [List.concat_eq_append, List.append_assoc]

/-- The way to the directory above the base. -/
theorem lead_above {base : Location} (hbase : base.Resolved) (hne : base ≠ []) (dir : List Text) :
    lead (locate base above) (base ++ dir) = join (above :: dir.map fun _ => above) := by
  obtain ⟨up, u, rfl⟩ := List.eq_nil_or_concat base |>.resolve_left hne
  rw [List.concat_eq_append] at hbase ⊢
  have hu : ∀ v ∈ [u], IsName v := fun v hv => hbase v (List.mem_append_right up hv)
  have hclimb := collapse_climb hu true up []
  rw [List.append_nil, List.append_nil,
    collapse_names fun v hv => hbase v (List.mem_append_left _ hv)] at hclimb
  have hlocate : locate (up ++ [u]) above = up := by
    rw [locate_relative _ (by decide), List.append_assoc]
    exact hclimb
  have hway := lead_append up [] (u :: dir)
  rw [List.append_nil] at hway
  rw [hlocate, List.append_assoc, List.singleton_append, hway]
  exact congrArg join (List.append_nil (above :: dir.map fun _ => above))

/-- **The way to a place is the same from every base, and leads there.** -/
theorem exists_way {place s : Text} {ss dir : List Text} (hsplit : split place = ss ++ [s])
    (hss : ∀ u ∈ ss, IsName u) (hs : IsName s ∨ s = here ∨ s = above) (hhead : place.head? ≠ some '/')
    (hdir : ∀ u ∈ dir, IsName u) :
    ∃ w, collapse false (dir ++ split w) = collapse false (split place) ∧
      ∀ base : Location, base.Resolved → base ≠ [] ∨ place ≠ above →
        lead (locate base place) (base ++ dir) = w := by
  rcases exists_descent hsplit hss hs hhead with rfl | ⟨goal, hgoal, hcollapse, hlocate⟩
  · refine ⟨join (above :: dir.map fun _ => above), ?_, fun base hbase hup => ?_⟩
    · have hslash : ∀ u ∈ above :: dir.map (fun _ => above), '/' ∉ u := by
        intro u hu
        rcases List.mem_cons.mp hu with rfl | hu
        · decide
        · obtain ⟨v, -, rfl⟩ := List.mem_map.mp hu
          decide
      have hturn : above :: dir.map (fun _ => above) = dir.map (fun _ => above) ++ [above] := by
        rw [List.map_const', ← List.replicate_succ, List.replicate_succ']
      rw [split_join hslash (List.cons_ne_nil _ _), hturn]
      exact collapse_climb hdir false [] [above]
    · exact lead_above hbase (hup.resolve_right fun h => h rfl) dir
  · refine ⟨lead goal dir, ?_, fun base hbase _ => ?_⟩
    · rw [collapse_lead hgoal hdir, hcollapse]
    · rw [hlocate base hbase, lead_append]

/-! ### Specifiers -/

theorem marked_head (w : Text) : (marked w).head? = some '.' := by
  unfold marked
  split
  next h => exact h
  next => rfl

theorem filter_split_marked (w : Text) : (split (marked w)).filter isNamed = (split w).filter isNamed := by
  unfold marked
  split
  · rfl
  · exact filter_split_here_slash w

/-- What a specifier leads to from a directory. -/
theorem normal_combine_marked {dir w place : Text}
    (h : collapse false (split dir ++ split w) = collapse false (split place)) :
    normal (combine dir (marked w)) = normal place := by
  have hhead : (marked w).head? ≠ some '/' := by
    rw [marked_head]
    decide
  have hcollapse : collapse false (split (combine dir (marked w))) = collapse false (split place) := by
    rw [← h]
    refine collapse_congr ?_ false
    rw [filter_split_combine hhead, List.filter_append, List.filter_append, filter_split_marked]
  rw [normal, normal, hcollapse]

/-- A path below a directory is relative, as the directory is. -/
theorem head?_below {pre : Text} (hpre : ∀ u ∈ split pre, IsName u) (place : Text) :
    (pre ++ '/' :: place).head? ≠ some '/' := by
  obtain ⟨u, us, hcons⟩ := exists_split_cons pre
  have hu : IsName u := hpre u (by rw [hcons]; exact List.mem_cons_self)
  have hsplit : split (pre ++ '/' :: place) = u :: (us ++ split place) := by
    rw [split_append_slash, hcons, List.cons_append]
  exact (head?_ne_slash hsplit hu.nonempty).2

/-- Below a directory a path leads to what it leads to from that directory. -/
theorem locate_below (base : Location) {pre : Text} (hpre : ∀ u ∈ split pre, IsName u) {place : Text}
    (hhead : place.head? ≠ some '/') :
    locate base (pre ++ '/' :: place) = locate (base ++ split pre) place := by
  rw [locate_relative base (head?_below hpre place), locate_relative _ hhead, split_append_slash,
    List.append_assoc]

/-- **From the directory of the host a specifier leads to the script without its extension, and the same
specifier serves below every directory.** -/
theorem specifier_leads {base : Location} (hbase : base.Resolved) {host place : Text}
    (hhost : ∀ s ∈ split host, IsName s) (hscript : ∀ s ∈ split (place ++ scriptSuffix), IsName s)
    (hlong : scriptSuffix.length < (lastSegment (place ++ scriptSuffix)).length)
    (hup : base ≠ [] ∨ place ≠ above) :
    ∃ p, specifier? base host (place ++ scriptSuffix) = some p ∧
      normal (combine (directory host) p) = normal place ∧
      (lastSegment place ≠ here → lastSegment place ≠ above → normal place = place) ∧
      ∀ pre, (∀ s ∈ split pre, IsName s) →
        specifier? base (pre ++ '/' :: host) (pre ++ '/' :: (place ++ scriptSuffix)) = some p := by
  obtain ⟨ss, s, hsplit, hss, hs⟩ := exists_split_place hscript hlong
  obtain ⟨dir, h, hsplitHost⟩ := exists_split_concat host
  have hdir : ∀ u ∈ dir, IsName u := fun u hu => hhost u (by rw [hsplitHost]; exact List.mem_append_left _ hu)
  have hslash : '/' ∉ s := not_slash_of_mem_split (t := place) (by rw [hsplit]; simp)
  have hne : s ≠ [] := by
    rcases hs with hs | rfl | rfl
    · exact hs.nonempty
    · decide
    · decide
  obtain ⟨hplace, hhead⟩ := head_place hsplit hss hne
  obtain ⟨w, hlands, hway⟩ := exists_way hsplit hss hs hhead hdir
  obtain ⟨hdirectory, hhostDirectory⟩ := hostDirectory_eq hbase hsplitHost hhost
  have hspecifier : specifier? base host (place ++ scriptSuffix) = some (marked w) := by
    rw [specifier?_eq base host hplace hhead, hhostDirectory, hway base hbase hup]
  refine ⟨marked w, hspecifier, normal_combine_marked ?_, fun hhere habove => ?_, fun pre hpre => ?_⟩
  · rw [hdirectory, ← hlands]
    refine collapse_congr ?_ false
    rw [List.filter_append, List.filter_append, filter_split_join fun u hu => (hdir u hu).noSlash]
  · have hlast : lastSegment place = s := by rw [← join_split place, hsplit, lastSegment_join hslash]
    rw [hlast] at hhere habove
    have hnames : ∀ u ∈ split place, IsName u := by
      rw [hsplit]
      exact List.forall_mem_append.mpr
        ⟨hss, List.forall_mem_singleton.mpr (hs.resolve_right fun h => h.elim hhere habove)⟩
    exact normal_of_names hnames
  · have hsplitBelow : split (pre ++ '/' :: host) = (split pre ++ dir) ++ [h] := by
      rw [split_append_slash, hsplitHost, List.append_assoc]
    have hbelow : (base ++ split pre).Resolved := List.forall_mem_append.mpr ⟨hbase, hpre⟩
    have hnil : base ++ split pre ≠ [] := List.append_ne_nil_of_right_ne_nil _ (split_ne_nil pre)
    obtain ⟨-, hhostBelow⟩ := hostDirectory_eq hbase hsplitBelow
      (by rw [split_append_slash]; exact List.forall_mem_append.mpr ⟨hpre, hhost⟩)
    rw [← List.cons_append, ← List.append_assoc, specifier?_eq base _ (by simp) (head?_below hpre place),
      hhostBelow, locate_below base hpre hhead, ← List.append_assoc, hway _ hbelow (.inl hnil)]

/-- A hidden script in the directory above that of the host. -/
theorem specifier_leads_hidden :
    ∃ p, specifier? ["w".toList] "a/c/m.ts".toList ("a/.x".toList ++ scriptSuffix) = some p ∧
      normal (combine (directory "a/c/m.ts".toList) p) = normal "a/.x".toList ∧
      (lastSegment "a/.x".toList ≠ here → lastSegment "a/.x".toList ≠ above →
        normal "a/.x".toList = "a/.x".toList) ∧
      ∀ pre, (∀ s ∈ split pre, IsName s) → specifier? ["w".toList] (pre ++ '/' :: "a/c/m.ts".toList)
        (pre ++ '/' :: ("a/.x".toList ++ scriptSuffix)) = some p :=
  specifier_leads (by unfold Location.Resolved; decide +kernel) (by decide +kernel)
    (by decide +kernel) (by decide +kernel) (by decide +kernel)

/-- Nothing leads to a script whose name is all dots: without the extension its path is that of a directory,
and in the root of the file system the directory above is no other one. -/
theorem specifier_of_dots :
    (∀ s ∈ split "m.ts".toList, IsName s) ∧
    (∀ s ∈ split "...ts".toList, IsName s) ∧ scriptSuffix.length < (lastSegment "...ts".toList).length ∧
    specifier? [] "m.ts".toList "...ts".toList = some here ∧
    normal (combine (directory "m.ts".toList) here) ≠ above ∧
    specifier? [] "p/m.ts".toList "p/...ts".toList = some above ∧
    (∀ s ∈ split "a/..ts".toList, IsName s) ∧ scriptSuffix.length < (lastSegment "a/..ts".toList).length ∧
    specifier? ["w".toList] "m.ts".toList "a/..ts".toList = some "./a".toList ∧
    normal (combine (directory "m.ts".toList) "./a".toList) ≠ "a/.".toList := by
  decide +kernel

end Graft.Registration
