import Graft.Proofs.Path.Segments

/-
The way from one place to another, followed.

* `combine dir p` — a path seen from a directory;
* `collapse_filter` — empty and `.` segments do not matter to what a path collapses to;
* `collapse_climb` — as many `..` as there are names lead back to where the names began;
* `collapse_lead` — **the way from one place to another leads there**;
* `lead_append` — it is the same below any other place;
* `head?_ne_slash` — a path whose first segment is not empty is relative;
* `directory_join` — the directory of a path of names.

Design notes: a way is followed by collapsing its segments behind those of the place where it begins.  So
all is stated with segments, and a path is only put together at the end.
-/
namespace Graft.Path

/-! ### Segments that do not matter -/

theorem foldl_push_filter (rooted : Bool) (stack ss : List Text) :
    (ss.filter isNamed).foldl (push rooted) stack = ss.foldl (push rooted) stack := by
  induction ss generalizing stack with
  | nil => rfl
  | cons s ss ih =>
    by_cases hs : isNamed s = true
    · rw [List.filter_cons_of_pos hs, List.foldl_cons, List.foldl_cons, ih]
    · have habove : s ≠ above := by
        rintro rfl
        exact hs (by decide)
      rw [List.filter_cons_of_neg hs, List.foldl_cons, push_of_not_above habove, if_neg hs, ih]

/-- Empty and `.` segments do not matter to what a path collapses to. -/
theorem collapse_filter (rooted : Bool) (ss : List Text) :
    collapse rooted (ss.filter isNamed) = collapse rooted ss := by
  rw [collapse, foldl_push_filter, collapse]

theorem collapse_congr {ss us : List Text} (h : ss.filter isNamed = us.filter isNamed) (rooted : Bool) :
    collapse rooted ss = collapse rooted us := by
  rw [← collapse_filter, h, collapse_filter]

theorem filter_split_here_slash (p : Text) :
    (split ('.' :: '/' :: p)).filter isNamed = (split p).filter isNamed := by
  have hsplit : split ('.' :: '/' :: p) = [here] ++ split p := split_append_slash here p
  rw [hsplit, List.filter_append]
  rfl

theorem filter_split_join {ss : List Text} (h : ∀ s ∈ ss, '/' ∉ s) :
    (split (join ss)).filter isNamed = ss.filter isNamed := by
  cases ss with
  | nil => rfl
  | cons s us => rw [split_join h (List.cons_ne_nil s us)]

/-- Names and `..` are all kept. -/
theorem filter_isNamed_ways {us names : List Text} (h : ∀ s ∈ names, IsName s) :
    (us.map (fun _ => above) ++ names).filter isNamed = us.map (fun _ => above) ++ names := by
  refine List.filter_eq_self.mpr fun s hs => ?_
  rcases List.mem_append.mp hs with hs | hs
  · obtain ⟨u, -, rfl⟩ := List.mem_map.mp hs
    decide
  · exact isNamed_of_isName (h s hs)

/-! ### Following a way -/

/-- As many `..` as there are segments on top of a stack take them off it. -/
theorem foldl_push_above {names : List Text} (h : above ∉ names) (rooted : Bool) (stack : List Text) :
    (names.map fun _ => above).foldl (push rooted) (names ++ stack) = stack := by
  induction names with
  | nil => rfl
  | cons s ss ih =>
    rw [List.mem_cons, not_or] at h
    rw [List.map_cons, List.foldl_cons, List.cons_append, push_above_cons, if_neg (Ne.symm h.1), ih h.2]

/-- As many `..` as there are names lead back to where the names began. -/
theorem collapse_climb {us : List Text} (h : ∀ s ∈ us, IsName s) (rooted : Bool) (before after : List Text) :
    collapse rooted (before ++ (us ++ (us.map (fun _ => above) ++ after))) =
      collapse rooted (before ++ after) := by
  have hup (stack : List Text) :
      (us.map fun _ => above).foldl (push rooted) (us.reverse ++ stack) = stack := by
    have hrev : us.map (fun _ => above) = us.reverse.map fun _ => above := by
      rw [List.map_const', List.map_const', List.length_reverse]
    rw [hrev]
    exact foldl_push_above (fun hin => above_not_mem h (List.mem_reverse.mp hin)) rooted stack
  simp only [collapse, List.foldl_append]
  rw [foldl_push (above_not_mem h), filter_isNamed h, hup]

/-- What stands behind the segments of a way is the way. -/
theorem filter_split_way (ss : List Text) : (∀ s ∈ ss, '/' ∉ s) →
    (split (match ss with | [] => here | ss => join ss)).filter isNamed = ss.filter isNamed := by
  intro h
  cases ss with
  | nil => rfl
  | cons s us => exact filter_split_join h

/-- **The way from one place to another leads there.** -/
theorem collapse_lead {goal dir : List Text} (hgoal : ∀ s ∈ goal, IsName s) (hdir : ∀ s ∈ dir, IsName s) :
    collapse false (dir ++ split (lead goal dir)) = goal := by
  obtain ⟨common, hg, hd, -⟩ := dropCommon_eq goal dir
  unfold lead
  generalize dropCommon goal dir = apart at hg hd ⊢
  obtain ⟨down, up⟩ := apart
  dsimp only at hg hd ⊢
  have hdown : ∀ s ∈ down, IsName s := fun s hs => hgoal s (by rw [hg]; exact List.mem_append_right _ hs)
  have hup : ∀ s ∈ up, IsName s := fun s hs => hdir s (by rw [hd]; exact List.mem_append_right _ hs)
  have hslash : ∀ s ∈ up.map (fun _ => above) ++ down, '/' ∉ s := by
    intro s hs
    rcases List.mem_append.mp hs with hs | hs
    · obtain ⟨u, -, rfl⟩ := List.mem_map.mp hs
      decide
    · exact (hdown s hs).noSlash
  have hway := filter_split_way _ hslash
  rw [filter_isNamed_ways hdown] at hway
  calc
    _ = collapse false (dir ++ (up.map (fun _ => above) ++ down)) := by
      refine collapse_congr ?_ false
      rw [List.filter_append, List.filter_append, filter_isNamed_ways hdown]
      exact congrArg _ hway
    _ = collapse false (common ++ down) := by
      rw [hd, List.append_assoc, collapse_climb hup]
    _ = goal := by rw [← hg, collapse_names hgoal]

theorem dropCommon_append (c as bs : List Text) : dropCommon (c ++ as) (c ++ bs) = dropCommon as bs := by
  induction c with
  | nil => rfl
  | cons s ss ih => rw [List.cons_append, List.cons_append, dropCommon, if_pos rfl, ih]

/-- The way from one place to another is the same below any other place. -/
theorem lead_append (c goal dir : List Text) : lead (c ++ goal) (c ++ dir) = lead goal dir := by
  rw [lead, lead, dropCommon_append]

/-! ### Relative paths -/

/-- A path whose first segment is not empty is relative. -/
theorem head?_ne_slash {t s : Text} {ss : List Text} (hsplit : split t = s :: ss) (hs : s ≠ []) :
    t ≠ [] ∧ t.head? ≠ some '/' := by
  obtain ⟨c, cs, rfl⟩ := List.exists_cons_of_ne_nil hs
  have hslash : '/' ∉ c :: cs := not_slash_of_mem_split (t := t) (by rw [hsplit]; exact List.mem_cons_self)
  have hhead : t.head? = some c := by rw [← join_split t, hsplit, head?_join hs, List.head?_cons]
  refine ⟨fun hnil => ?_, fun habsolute => ?_⟩
  · rw [hnil] at hhead
    cases hhead
  · rw [hhead, Option.some.injEq] at habsolute
    exact hslash (by rw [habsolute]; exact List.mem_cons_self)

theorem dropWhile_isSlash {t : Text} (h : t.head? ≠ some '/') : t.dropWhile isSlash = t :=
  Text.dropWhile_eq_self fun c hc => by
    have hne : c ≠ '/' := fun he => h (he ▸ hc)
    simpa [isSlash] using hne

/-! ### Paths seen from a directory -/

/-- A path seen from a directory. -/
def combine (dir p : Text) : Text :=
  if p.head? = some '/' then p
  else if dir = [] ∨ dir.getLast? = some '/' then dir ++ p
  else dir ++ '/' :: p

theorem filter_split_combine {p : Text} (hp : p.head? ≠ some '/') (dir : Text) :
    (split (combine dir p)).filter isNamed = (split dir ++ split p).filter isNamed := by
  rw [combine, if_neg hp]
  split
  next h =>
    rcases h with rfl | h
    · rfl
    · obtain ⟨d, rfl⟩ := List.getLast?_eq_some_iff.mp h
      have hsplit : split (d ++ ['/']) = split d ++ [[]] := split_append_slash d []
      rw [List.append_assoc, List.singleton_append, split_append_slash, hsplit, List.filter_append,
        List.filter_append, List.filter_append]
      simp [isNamed]
  next => rw [split_append_slash]

/-- A path of names is in normal form. -/
theorem normal_of_names {p : Text} (h : ∀ s ∈ split p, IsName s) : normal p = p := by
  obtain ⟨s, ss, hcons⟩ := exists_split_cons p
  have hjoin : join (s :: ss) = p := hcons ▸ join_split p
  rw [normal, collapse_names h, hcons]
  exact hjoin

/-- The directory of a path of names. -/
theorem directory_join {ss : List Text} {s : Text} (hs : '/' ∉ s) (h : ∀ u ∈ ss, IsName u) :
    directory (join (ss ++ [s])) = join ss := by
  rw [directory, lastSegment_join hs]
  by_cases hss : ss = []
  · rw [hss, List.nil_append, join_singleton, Nat.sub_self]
    rfl
  · have hshape : join (ss ++ [s]) = (join ss ++ ['/']) ++ s := by
      rw [join_append hss (by simp), join_singleton, List.append_assoc, List.singleton_append]
    have hlast : lastSegment (join ss) ≠ [] := by
      obtain ⟨init, u, rfl⟩ := List.eq_nil_or_concat ss |>.resolve_left hss
      have hu : IsName u := h u (by simp)
      rw [List.concat_eq_append, lastSegment_join hu.noSlash]
      exact hu.nonempty
    have hlength : (join ss ++ ['/'] ++ s).length = (join ss ++ ['/']).length + s.length := List.length_append
    rw [hshape, hlength, Nat.add_sub_cancel, List.take_left,
      Text.trimRight_append (by simp [isSlash]),
      Text.trimRight_eq_self (not_slash_of_mem_getLast? hlast)]

end Graft.Path
