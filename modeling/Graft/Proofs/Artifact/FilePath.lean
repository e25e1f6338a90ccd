import Graft.Artifact
import Graft.Proofs.Path.Ways

/-
The paths of artifacts and of their files.

* `IsClean p` — a path of names, without backslashes;
* `isClean_of_cleanPath?` — what an announced path stands for is clean; `cleanPath?_of_isClean` — a clean path
  stands for itself;
* `pathFor_append_slash` — the kind of a file changes the last segment of its path only;
* `isClean_pathFor` — **the files of a clean path are clean**;
* `Kind.Marks k t` — a path that ends in an extension of a kind; `marks_pathFor` — **so do the paths of
  its files**, and `Kind.Marks.unique` — no path ends in extensions of two kinds.
-/
namespace Graft

/-- The lower case of a text is as long as the text, unless a capital with a dot is in it. -/
theorem Text.length_lowercase {t : Text} (h : '\u0307' ∉ lowercase t) :
    (lowercase t).length = t.length := by
  have hgo (before : Text) (hb : '\u0307' ∉ lowercase.go before t) :
      (lowercase.go before t).length = t.length := by
    clear h
    induction t generalizing before with
    | nil => rfl
    | cons c cs ih =>
      rw [lowercase.go] at hb ⊢
      rw [List.mem_append, not_or] at hb
      rw [List.length_append, ih _ hb.2]
      by_cases hi : c = '\u0130'
      · rw [if_pos hi] at hb
        exact absurd (by simp) hb.1
      · rw [if_neg hi]
        by_cases hs : c = '\u03a3'
        · rw [if_pos hs, List.length_cons, List.length_cons, List.length_nil]
          omega
        · rw [if_neg hs, List.length_cons, List.length_cons, List.length_nil]
          omega
  exact hgo [] h

namespace Path

/-- A path of names, without backslashes. -/
structure IsClean (p : Text) : Prop where
  names : ∀ s ∈ split p, IsName s
  noBackslash : '\\' ∉ p

theorem backslash_not_mem_forward (t : Text) : '\\' ∉ forward t := by
  intro h
  obtain ⟨c, -, hc⟩ := List.mem_map.mp h
  split at hc
  · exact absurd hc (by decide)
  next hne => exact hne hc

theorem forward_eq_self {t : Text} (h : '\\' ∉ t) : forward t = t := by
  rw [forward, List.map_congr_left (g := id), List.map_id]
  intro c hc
  have hne : c ≠ '\\' := fun he => h (he ▸ hc)
  exact if_neg hne

theorem mem_forward {t : Text} {c : Char} (h : c ∈ forward t) : c = '/' ∨ c ∈ t := by
  obtain ⟨d, hd, rfl⟩ := List.mem_map.mp h
  split
  · exact Or.inl rfl
  · exact Or.inr hd

theorem isClean_join {ss : List Text} (hne : ss ≠ []) (h : ∀ s ∈ ss, IsName s ∧ '\\' ∉ s) :
    IsClean (join ss) where
  names := by
    rw [split_join (fun s hs => (h s hs).1.noSlash) hne]
    exact fun s hs => (h s hs).1
  noBackslash := by
    intro hmem
    rcases mem_join hmem with hslash | ⟨s, hs, hmem⟩
    · exact absurd hslash (by decide)
    · exact (h s hs).2 hmem

theorem IsClean.append_slash {a b : Text} (ha : IsClean a) (hb : IsClean b) :
    IsClean (a ++ '/' :: b) where
  names := by
    rw [split_append_slash]
    exact List.forall_mem_append.mpr ⟨ha.names, hb.names⟩
  noBackslash := by simp [ha.noBackslash, hb.noBackslash]

theorem IsClean.of_append_slash {a b : Text} (h : IsClean (a ++ '/' :: b)) : IsClean a where
  names := fun s hs => h.names s (by rw [split_append_slash]; exact List.mem_append_left _ hs)
  noBackslash := fun hmem => h.noBackslash (List.mem_append_left _ hmem)

theorem IsClean.ne_nil {p : Text} (h : IsClean p) : p ≠ [] := by
  rintro rfl
  exact (h.names [] (List.mem_singleton_self [])).nonempty rfl

theorem IsClean.head_ne_slash {p : Text} (h : IsClean p) : p.head? ≠ some '/' := by
  intro hhead
  obtain ⟨cs, rfl⟩ : ∃ cs, p = '/' :: cs := by
    cases p with
    | nil => cases hhead
    | cons c cs => exact ⟨cs, by rw [Option.some.inj hhead]⟩
  have hsplit := split_append_slash [] cs
  rw [List.nil_append] at hsplit
  exact (h.names [] (by rw [hsplit]; exact List.mem_cons_self)).nonempty rfl

/-! ### Extensions -/

/-- An extension follows the last dot of a segment. -/
theorem exists_stem_of_rawExtension {s : Text} (h : rawExtension s ≠ []) :
    ∃ stem, s = stem ++ '.' :: rawExtension s := by
  unfold rawExtension at h ⊢
  dsimp only at h ⊢
  split at h
  next hstem =>
    rw [if_pos hstem]
    have hwhole : (s.reverse.dropWhile (· != '.')).reverse ++
        (s.reverse.takeWhile (· != '.')).reverse = s := by
      rw [← List.reverse_append, List.takeWhile_append_dropWhile, List.reverse_reverse]
    cases hrest : s.reverse.dropWhile (· != '.') with
    | nil =>
      -- Without a dot there is no stem.
      rw [hrest, List.reverse_nil, List.nil_append] at hwhole
      rw [hwhole] at hstem
      have hzero : s.length - (s.length + 1) = 0 := by omega
      rw [hzero] at hstem
      cases hstem
    | cons d ds =>
      have hdot : (d != '.') = false := by
        have hhead := List.head?_dropWhile_not (· != '.') s.reverse
        rw [hrest] at hhead
        simpa using hhead
      have hd : d = '.' := by simpa using hdot
      rw [hrest, hd, List.reverse_cons, List.append_assoc] at hwhole
      exact ⟨ds.reverse, hwhole.symm⟩
  next => exact absurd rfl h

theorem dot_not_mem_rawExtension (s : Text) : '.' ∉ rawExtension s := by
  unfold rawExtension
  dsimp only
  split
  · intro h
    have hdot := List.mem_takeWhile_imp (List.mem_reverse.mp h)
    exact absurd hdot (by decide)
  · exact List.not_mem_nil

end Path

/-- A path that ends in an extension of a kind, in any letter case. -/
def Kind.Marks (k : Kind) (t : Text) : Prop :=
  ∃ stem e, t = stem ++ '.' :: e ∧ '.' ∉ e ∧ Text.lowercase e ∈ k.extensions

theorem Kind.Marks.append {k : Kind} {t : Text} (h : k.Marks t) (a : Text) : k.Marks (a ++ t) := by
  obtain ⟨stem, e, rfl, hdot, he⟩ := h
  exact ⟨a ++ stem, e, (List.append_assoc ..).symm, hdot, he⟩

theorem Kind.eq_of_mem_extensions {k j : Kind} {e : Text} (h : e ∈ k.extensions)
    (h' : e ∈ j.extensions) : k = j := by
  have hall : ∀ x ∈ k.extensions, x ∈ j.extensions → k = j := by
    cases k <;> cases j <;> decide
  exact hall e h h'

/-- No path ends in extensions of two kinds. -/
theorem Kind.Marks.unique {k j : Kind} {t : Text} (h : k.Marks t) (h' : j.Marks t) : k = j := by
  -- An extension is all that follows the last dot.
  have hlast {stem e : Text} (hdot : '.' ∉ e) : (stem ++ '.' :: e).rtakeWhile (· != '.') = e := by
    refine Text.rtakeWhile_append_cons rfl (fun c hc => ?_) stem
    have hne : c ≠ '.' := fun he => hdot (he ▸ hc)
    simpa using hne
  obtain ⟨stem, e, rfl, hdot, he⟩ := h
  obtain ⟨stem', e', ht, hdot', he'⟩ := h'
  have hsame : e = e' := by rw [← hlast hdot, ht, hlast hdot']
  exact Kind.eq_of_mem_extensions he (hsame ▸ he')

namespace Artifact

open Graft.Path

/-- A known extension is no longer than the segment it ends. -/
theorem length_extension_lt {s : Text} (hs : '/' ∉ s)
    (h : (Kind.ofExtension? (extension s)).isSome) : (extension s).length + 1 ≤ s.length := by
  have hknown : ∀ k : Kind, ∀ e ∈ k.extensions, e ≠ [] ∧ '\u0307' ∉ e := by
    intro k
    cases k <;> decide
  obtain ⟨k, hk⟩ := Option.isSome_iff_exists.mp h
  have hmem : extension s ∈ k.extensions := by
    have hfound := List.find?_some hk
    simpa using hfound
  obtain ⟨hne, hdot⟩ := hknown k _ hmem
  rw [extension, lastSegment_eq_self hs] at hne hdot ⊢
  have hraw : rawExtension s ≠ [] := by
    intro hnil
    rw [hnil] at hne
    exact hne rfl
  obtain ⟨stem, hstem⟩ := exists_stem_of_rawExtension hraw
  have hlength := congrArg List.length hstem
  rw [List.length_append, List.length_cons] at hlength
  rw [Text.length_lowercase hdot]
  omega

/-- The kind of a file changes the last segment of its path only. -/
theorem pathFor_append_slash (a : Text) {b : Text} (hb : '/' ∉ b) (k : Kind) :
    pathFor (a ++ '/' :: b) k = a ++ '/' :: pathFor b k := by
  have hext : extension (a ++ '/' :: b) = extension b := by
    rw [extension, extension, lastSegment_append_slash a hb, lastSegment_eq_self hb]
  unfold pathFor
  dsimp only
  rw [hext]
  by_cases hown : k.extensions.contains (extension b) = true
  · rw [if_pos hown, if_pos hown]
  · rw [if_neg hown, if_neg hown]
    by_cases hother : (Kind.ofExtension? (extension b)).isSome = true
    · have hlt := length_extension_lt hb hother
      have hlength : (a ++ '/' :: b).length - ((extension b).length + 1) =
          (a ++ ['/']).length + (b.length - ((extension b).length + 1)) := by
        simp only [List.length_append, List.length_cons, List.length_nil]
        omega
      have hshape : a ++ '/' :: b = (a ++ ['/']) ++ b := by simp
      rw [if_pos hother, if_pos hother, hlength, hshape, List.take_length_add_append]
      simp
    · rw [if_neg hother, if_neg hother, List.append_assoc, List.cons_append]

theorem pathFor_join {ss : List Text} {s : Text} (hs : '/' ∉ s) (k : Kind) :
    pathFor (join (ss ++ [s])) k = join (ss ++ [pathFor s k]) := by
  by_cases hss : ss = []
  · rw [hss, List.nil_append, List.nil_append, join_singleton, join_singleton]
  · rw [join_append hss (by simp), join_append hss (by simp), join_singleton, join_singleton,
      pathFor_append_slash _ hs]

/-- The path of a file is the path itself, or a part of it with an extension. -/
theorem pathFor_cases (p : Text) (k : Kind) :
    pathFor p k = p ∨ ∃ n, pathFor p k = p.take n ++ '.' :: k.extension := by
  unfold pathFor
  dsimp only
  split
  · exact Or.inl rfl
  · split
    · exact Or.inr ⟨_, rfl⟩
    · exact Or.inr ⟨p.length, by rw [List.take_length]⟩

/-- The characters of a file's path are those of the path and of an extension. -/
theorem mem_pathFor {p : Text} {k : Kind} {c : Char} (h : c ∈ pathFor p k) :
    c ∈ p ∨ c ∈ '.' :: k.extension := by
  rcases pathFor_cases p k with hp | ⟨n, hp⟩
  · rw [hp] at h
    exact Or.inl h
  · rw [hp, List.mem_append] at h
    exact h.imp_left List.mem_of_mem_take

theorem isName_pathFor {s : Text} (h : IsName s) (k : Kind) : IsName (pathFor s k) := by
  rcases pathFor_cases s k with hp | ⟨n, hp⟩
  · rw [hp]
    exact h
  · obtain ⟨c, hc, hne⟩ : ∃ c ∈ k.extension, c ≠ '.' := by
      cases k with
      | script => exact ⟨'t', by decide, by decide⟩
      | markup => exact ⟨'h', by decide, by decide⟩
      | style => exact ⟨'s', by decide, by decide⟩
    have hmem : c ∈ pathFor s k := by
      rw [hp]
      exact List.mem_append_right _ (List.mem_cons_of_mem _ hc)
    refine ⟨List.ne_nil_of_mem hmem, ?_, ?_, ?_⟩
    · intro he
      rw [he] at hmem
      exact hne (List.mem_singleton.mp hmem)
    · intro he
      rw [he] at hmem
      simp only [above, List.mem_cons, List.not_mem_nil, or_false, or_self] at hmem
      exact hne hmem
    · intro hslash
      rcases mem_pathFor hslash with hin | hin
      · exact h.noSlash hin
      · cases k <;> exact absurd hin (by decide)

/-- **The files of a clean path are clean.** -/
theorem isClean_pathFor {p : Text} (h : IsClean p) (k : Kind) : IsClean (pathFor p k) := by
  obtain ⟨ss, s, hsplit⟩ : ∃ ss s, split p = ss ++ [s] :=
    ⟨_, _, (List.dropLast_concat_getLast (List.splitOn_ne_nil '/' p)).symm⟩
  have hnames := h.names
  rw [hsplit] at hnames
  have hs : IsName s := hnames s (by simp)
  have hp : p = join (ss ++ [s]) := by rw [← hsplit, join_split]
  have hback (k : Kind) : '\\' ∉ '.' :: k.extension := by cases k <;> decide
  have hfile : '\\' ∉ pathFor p k := fun hmem =>
    (mem_pathFor hmem).elim h.noBackslash (hback k)
  refine ⟨?_, hfile⟩
  rw [hp, pathFor_join hs.noSlash, split_join _ (by simp)]
  · intro u hu
    rcases List.mem_append.mp hu with hu | hu
    · exact hnames u (List.mem_append_left _ hu)
    · rw [List.mem_singleton.mp hu]
      exact isName_pathFor hs k
  · intro u hu
    rcases List.mem_append.mp hu with hu | hu
    · exact (hnames u (List.mem_append_left _ hu)).noSlash
    · rw [List.mem_singleton.mp hu]
      exact (isName_pathFor hs k).noSlash

/-- **The path of a file ends in an extension of its kind.** -/
theorem marks_pathFor (p : Text) (k : Kind) : k.Marks (pathFor p k) := by
  unfold pathFor
  dsimp only
  split
  next hown =>
    have hmem : extension p ∈ k.extensions := by simpa using hown
    have hraw : rawExtension (lastSegment p) ≠ [] := by
      intro hnil
      rw [extension, hnil] at hmem
      revert hmem
      cases k <;> decide
    obtain ⟨stem, hstem⟩ := exists_stem_of_rawExtension hraw
    obtain ⟨dir, hdir⟩ : lastSegment p <:+ p := List.rtakeWhile_suffix _ p
    refine ⟨dir ++ stem, _, ?_, dot_not_mem_rawExtension _, hmem⟩
    rw [List.append_assoc, ← hstem, hdir]
  next =>
    refine ⟨_, k.extension, rfl, ?_, ?_⟩ <;> cases k <;> decide

/-! ### Announced paths -/

/-- What an announced path stands for is clean, and its characters are slashes and those announced. -/
theorem isClean_of_cleanPath? {announced p : Text} (h : cleanPath? announced = some p) :
    IsClean p ∧ ∀ c ∈ p, c = '/' ∨ c ∈ announced := by
  unfold cleanPath? at h
  generalize hwhole : (forward (Text.stripped announced)).dropWhile isSlash = u at h
  have hchars : ∀ c ∈ u, c ≠ '\\' ∧ (c = '/' ∨ c ∈ announced) := by
    intro c hc
    rw [← hwhole] at hc
    have hf : c ∈ forward (Text.stripped announced) := (List.dropWhile_sublist _).subset hc
    refine ⟨fun he => backslash_not_mem_forward _ (he ▸ hf), (mem_forward hf).imp_right ?_⟩
    exact fun hc => (Text.isInfix_stripped announced).subset hc
  have hsplit : ∀ s ∈ split u, '/' ∉ s := fun s hs => not_slash_of_mem_split hs
  obtain ⟨n, names, hcollapse, hnames⟩ := exists_collapse_eq hsplit
  split at h
  · cases h
  next s ss hss =>
    split at h
    · cases h
    next habove =>
      obtain rfl := Option.some.inj h
      have hzero : n = 0 := by
        cases n with
        | zero => rfl
        | succ n =>
          rw [hss, List.replicate_succ, List.cons_append] at hcollapse
          exact absurd (List.cons.inj hcollapse).1 habove
      rw [hzero, List.replicate_zero, List.nil_append, hss] at hcollapse
      have hseg : ∀ v ∈ s :: ss, IsName v ∧ ∀ c ∈ v, c ≠ '\\' ∧ (c = '/' ∨ c ∈ announced) := by
        intro v hv
        refine ⟨hnames v (hcollapse ▸ hv), fun c hc => hchars c ?_⟩
        exact mem_of_mem_split (mem_of_mem_collapse (hss ▸ hv)) hc
      refine ⟨isClean_join (List.cons_ne_nil _ _) fun v hv =>
        ⟨(hseg v hv).1, fun hmem => ((hseg v hv).2 _ hmem).1 rfl⟩, fun c hc => ?_⟩
      rcases mem_join hc with hc | ⟨v, hv, hc⟩
      · exact Or.inl hc
      · exact ((hseg v hv).2 c hc).2

/-- A clean path stands for itself. -/
theorem cleanPath?_of_isClean {p : Text} (h : IsClean p) (hstripped : Text.stripped p = p) :
    cleanPath? p = some p := by
  rw [cleanPath?, hstripped, forward_eq_self h.noBackslash, dropWhile_isSlash h.head_ne_slash,
    collapse_names h.names]
  obtain ⟨s, ss, hsplit⟩ := exists_split_cons p
  rw [hsplit]
  dsimp only
  rw [if_neg (h.names s (by rw [hsplit]; exact List.mem_cons_self)).notAbove, ← hsplit, join_split]

end Artifact
end Graft
