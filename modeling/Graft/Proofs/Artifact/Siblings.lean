import Graft.Proofs.Artifact.Stem

/-
The files of an artifact beside each other.

* `withoutExtension p` — a path without the dot and the extension of its last segment;
* `rawExtension_append`, `lastSegment_append`, `directory_append` — what is put behind the last segment of a
  path, and what it is to the readers of paths;
* `exists_extension_of_file` — the file of a kind is the stem of the path with an extension;
* `Siblings a` — files that differ in their extensions only, each of which tells its kind;
* `siblings_iff` — **the files of an artifact are siblings exactly when its name is more than dots**.

Design notes: all files have one stem, so whatever is read off a path in front of its last dot is the same
for all of them, and the same as for the path of the artifact.  This is why nothing is said of the routes
that a path can take, kept as it is, extended, or given another extension.
-/
namespace Graft.Path

/-! ### Behind the last segment -/

/-- A path without the dot and the extension of its last segment. -/
def withoutExtension (p : Text) : Text :=
  match rawExtension (lastSegment p) with
  | [] => p
  | e => p.take (p.length - (e.length + 1))

theorem lastSegment_append (a : Text) {b : Text} (hb : '/' ∉ b) :
    lastSegment (a ++ b) = lastSegment a ++ b := by
  have hall : ∀ c ∈ b.reverse, (!isSlash c) = true := by
    intro c hc
    have hne : c ≠ '/' := fun he => hb (he ▸ List.mem_reverse.mp hc)
    simpa [isSlash] using hne
  rw [lastSegment, List.reverse_append, List.takeWhile_append_of_pos hall, List.reverse_append,
    List.reverse_reverse]
  rfl

/-- What is put behind the last segment of a path leaves its directory. -/
theorem directory_append (a : Text) {b : Text} (hb : '/' ∉ b) : directory (a ++ b) = directory a := by
  have hlength : (a ++ b).length - (lastSegment (a ++ b)).length = a.length - (lastSegment a).length := by
    rw [lastSegment_append a hb, List.length_append, List.length_append]
    omega
  rw [directory, directory, hlength, List.take_append_of_le_length (Nat.sub_le _ _)]

/-- What follows the last dot of a segment is its extension, unless only dots stand before that dot. -/
theorem rawExtension_append (s : Text) {e : Text} (he : '.' ∉ e) :
    rawExtension (s ++ '.' :: e) = if s.any (· != '.') then e else [] := by
  have htail : ((s ++ '.' :: e).reverse.takeWhile (· != '.')).reverse = e := by
    refine Text.rtakeWhile_append_cons rfl (fun c hc => ?_) s
    have hne : c ≠ '.' := fun h => he (h ▸ hc)
    simpa using hne
  have hstem : (s ++ '.' :: e).length - (e.length + 1) = s.length := by
    rw [List.length_append, List.length_cons, Nat.add_sub_cancel]
  unfold rawExtension
  dsimp only
  rw [htail, hstem, List.take_left]

/-- What stands before the first dot of a segment does not depend on what follows a later one. -/
theorem takeWhile_append_dot (s e : Text) :
    (s ++ '.' :: e).takeWhile (· != '.') = s.takeWhile (· != '.') := by
  induction s with
  | nil => rfl
  | cons c cs ih => rw [List.cons_append, List.takeWhile_cons, List.takeWhile_cons, ih]

/-- A name that is more than dots. -/
def MoreThanDots (p : Text) : Prop := ∃ c ∈ lastSegment p, c ≠ '.'

theorem any_iff_moreThanDots {p : Text} : (lastSegment p).any (· != '.') = true ↔ MoreThanDots p := by
  rw [List.any_eq_true]
  exact exists_congr fun c => and_congr_right fun _ => bne_iff_ne

variable {a e : Text}

/-- The extension of a path, and the path without it. -/
theorem rawExtension_of_append (h : MoreThanDots a) (hdot : '.' ∉ e) (hslash : '/' ∉ '.' :: e) :
    rawExtension (lastSegment (a ++ '.' :: e)) = e := by
  rw [lastSegment_append a hslash, rawExtension_append _ hdot, if_pos (any_iff_moreThanDots.mpr h)]

theorem withoutExtension_append (h : MoreThanDots a) (hdot : '.' ∉ e) (hslash : '/' ∉ '.' :: e)
    (hne : e ≠ []) : withoutExtension (a ++ '.' :: e) = a := by
  obtain ⟨c, cs, rfl⟩ := List.exists_cons_of_ne_nil hne
  have hlength : (a ++ '.' :: c :: cs).length - ((c :: cs).length + 1) = a.length := by
    rw [List.length_append, List.length_cons (a := '.'), Nat.add_sub_cancel]
  rw [withoutExtension, rawExtension_of_append h hdot hslash]
  dsimp only
  rw [hlength, List.take_left]

end Graft.Path

namespace Graft

open Graft.Path

theorem Kind.ne_nil_of_lowercase_mem {k : Kind} {e : Text} (h : Text.lowercase e ∈ k.extensions) :
    e ≠ [] := by
  rintro rfl
  revert h
  cases k <;> decide

/-- An extension that stands for a kind does not lead into a directory. -/
theorem Kind.slash_not_mem {k : Kind} {e : Text} (h : Text.lowercase e ∈ k.extensions) : '/' ∉ '.' :: e := by
  have hall : ∀ e ∈ k.extensions, '/' ∉ e := by cases k <;> decide
  intro hmem
  have hin := (List.mem_cons.mp hmem).resolve_left (by decide)
  exact hall _ h (Text.mem_lowercase (by decide) (by decide) (by decide) hin)

/-- An extension of a kind stands for it, and for no other. -/
theorem Kind.ofWrittenExtension?_of_mem {k : Kind} {e : Text} (h : e ∈ k.extensions) :
    Kind.ofWrittenExtension? e = some k := by
  have hall : ∀ e ∈ k.extensions, Kind.ofWrittenExtension? e = some k := by cases k <;> decide
  exact hall e h

namespace Artifact

/-! ### Stems -/

/-- The file of a kind is the stem with an extension. -/
theorem exists_extension_of_file (p : Text) (k : Kind) : ∃ e, pathFor p k = stem p ++ '.' :: e ∧
    '.' ∉ e ∧ '/' ∉ '.' :: e ∧ Text.lowercase e ∈ k.extensions := by
  obtain ⟨e, hfile, hdot, he⟩ := pathFor_eq_stem p k
  exact ⟨e, hfile, hdot, Kind.slash_not_mem he, he⟩

/-- The stem of a name that is more than dots is more than dots, too. -/
theorem moreThanDots_stem_iff {p : Text} : MoreThanDots (stem p) ↔ MoreThanDots p := by
  refine ⟨fun ⟨c, hc, hne⟩ => ?_, fun h => ?_⟩
  · rcases stem_cases p with hsame | ⟨e, k, hp, he⟩
    · exact ⟨c, hsame ▸ hc, hne⟩
    · refine ⟨c, ?_, hne⟩
      rw [hp, lastSegment_append _ (Kind.slash_not_mem he)]
      exact List.mem_append_left _ hc
  by_cases hknown : (Kind.ofExtension? (extension p)).isSome
  · obtain ⟨k, hk⟩ := ofExtension?_isSome_iff.mp hknown
    obtain ⟨e, -, hp, hdot, he⟩ := eq_append_of_mem_extensions hk
    have hslash : '/' ∉ '.' :: e := Kind.slash_not_mem (he ▸ hk)
    -- Only behind something else than dots is there an extension.
    by_contra hdots
    have hraw : rawExtension (lastSegment p) = [] := by
      rw [hp, lastSegment_append _ hslash, rawExtension_append _ hdot,
        if_neg (fun hany => hdots (any_iff_moreThanDots.mp hany))]
    rw [extension, hraw] at hk
    exact Kind.ne_nil_of_lowercase_mem hk rfl
  · rwa [stem, if_neg hknown]

/-- What a reader makes of a path in front of the last dot is the same for a path and its stem. -/
theorem eq_of_stem {α : Type} {f : Text → α}
    (hf : ∀ (a : Text) {e : Text}, '/' ∉ '.' :: e → f (a ++ '.' :: e) = f a)
    (p : Text) : f p = f (stem p) := by
  rcases stem_cases p with hsame | ⟨e, k, hp, he⟩
  · rw [hsame]
  · conv_lhs => rw [hp]
    exact hf (stem p) (Kind.slash_not_mem he)

/-- So it is the same for the path of an artifact and all of its files. -/
theorem eq_of_file {α : Type} {f : Text → α}
    (hf : ∀ (a : Text) {e : Text}, '/' ∉ '.' :: e → f (a ++ '.' :: e) = f a)
    (p : Text) (k : Kind) : f (pathFor p k) = f p := by
  obtain ⟨e, hfile, -, hslash, -⟩ := exists_extension_of_file p k
  rw [hfile, hf _ hslash, eq_of_stem hf p]

/-! ### Names -/

/-- A clean path is named after its last segment. -/
theorem base_of_isClean {p : Text} (h : IsClean p) :
    Name.base p = (lastSegment p).takeWhile (· != '.') := by
  obtain ⟨ss, s, hsplit⟩ := exists_split_concat p
  have hs : IsName s := h.names s (by rw [hsplit]; simp)
  have hlast : lastSegment p ≠ [] := by
    rw [← join_split p, hsplit, lastSegment_join hs.noSlash]
    exact hs.nonempty
  rw [Name.base, forward_eq_self h.noBackslash, Text.trimRight_eq_self (not_slash_of_mem_getLast? hlast)]

/-- The files of an artifact are named like the artifact. -/
theorem id_pathFor {p : Text} (h : IsClean p) (k : Kind) : Name.id (pathFor p k) = Name.id p := by
  have hbase (a : Text) {e : Text} (he : '/' ∉ '.' :: e) :
      (lastSegment (a ++ '.' :: e)).takeWhile (· != '.') = (lastSegment a).takeWhile (· != '.') := by
    rw [lastSegment_append a he, takeWhile_append_dot]
  rw [Name.id, Name.id, base_of_isClean h, base_of_isClean (isClean_pathFor h k),
    eq_of_file (f := fun p => (lastSegment p).takeWhile (· != '.')) hbase p k]

/-! ### Siblings -/

/-- Files of an artifact that lie side by side and differ in their extensions only. -/
structure Siblings (a : Artifact) : Prop where
  -- The extension of a file tells its kind.
  kind : ∀ k, Kind.ofWrittenExtension? (extension (a.filePath k)) = some k
  -- Files of two kinds are two files.
  apart : ∀ j k, a.filePath j = a.filePath k → j = k
  -- Without their extensions they are one path.
  stem : ∀ j k, withoutExtension (a.filePath j) = withoutExtension (a.filePath k)
  directory : ∀ k, directory (a.filePath k) = directory a.path
  id : ∀ k, Name.id (a.filePath k) = a.id
  -- An artifact that is called like a file keeps that file.
  own : ∀ k (b : Artifact), b.path = a.filePath k → b.filePath k = a.filePath k

/-- Behind a name that is more than dots the extension of a file is one of its kind. -/
theorem extension_pathFor_mem {p : Text} (h : MoreThanDots p) (k : Kind) :
    extension (pathFor p k) ∈ k.extensions := by
  obtain ⟨e, hfile, hdot, hslash, he⟩ := exists_extension_of_file p k
  rwa [hfile, extension, rawExtension_of_append (moreThanDots_stem_iff.mpr h) hdot hslash]

/-- Behind dots it is none. -/
theorem extension_pathFor_eq_nil {p : Text} (h : ¬ MoreThanDots p) (k : Kind) :
    extension (pathFor p k) = [] := by
  obtain ⟨e, hfile, hdot, hslash, -⟩ := exists_extension_of_file p k
  rw [← moreThanDots_stem_iff, ← any_iff_moreThanDots] at h
  rw [hfile, extension, lastSegment_append _ hslash, rawExtension_append _ hdot, if_neg h]
  rfl

/-- **The files of an artifact are siblings exactly when its name is more than dots.** -/
theorem siblings_iff {announced : Text} {a : Artifact} (ha : cleanPath? announced = some a.path) :
    Siblings a ↔ ∃ c ∈ lastSegment a.path, c ≠ '.' := by
  have hclean : IsClean a.path := (isClean_of_cleanPath? ha).1
  constructor
  · intro hsiblings
    by_contra hdots
    have hkind := hsiblings.kind .script
    rw [filePath, extension_pathFor_eq_nil hdots] at hkind
    cases hkind
  · intro hname
    have hextension (k : Kind) : extension (a.filePath k) ∈ k.extensions :=
      extension_pathFor_mem hname k
    refine ⟨fun k => Kind.ofWrittenExtension?_of_mem (hextension k), fun j k h => ?_, fun j k => ?_,
      eq_of_file (fun a _ he => directory_append a he) a.path, id_pathFor hclean, fun k b hb => ?_⟩
    · have hj : j.Marks (a.filePath j) := marks_pathFor a.path j
      exact hj.unique (h ▸ marks_pathFor a.path k)
    · have hstem (k : Kind) : withoutExtension (a.filePath k) = Artifact.stem a.path := by
        obtain ⟨e, hfile, hdot, hslash, he⟩ := exists_extension_of_file a.path k
        rw [filePath, hfile, withoutExtension_append (moreThanDots_stem_iff.mpr hname) hdot hslash
          (Kind.ne_nil_of_lowercase_mem he)]
      rw [hstem, hstem]
    · rw [filePath, hb, pathFor]
      exact if_pos (by simpa using hextension k)

example : Kind.all.map (pathFor "src/.Widget.v2.CSS".toList) =
    ["src/.Widget.v2.ts".toList, "src/.Widget.v2.html".toList, "src/.Widget.v2.CSS".toList] := by decide +kernel

/-- A name that begins with a dot, holds another, and has an extension in capitals. -/
theorem siblings_hidden : cleanPath? " \\src//./.Widget.v2.CSS".toList = some "src/.Widget.v2.CSS".toList ∧
    (∃ c ∈ lastSegment "src/.Widget.v2.CSS".toList, c ≠ '.') ∧
    Siblings ⟨"src/.Widget.v2.CSS".toList, {}⟩ := by
  have hclean : cleanPath? " \\src//./.Widget.v2.CSS".toList = some "src/.Widget.v2.CSS".toList := by decide +kernel
  have hname : ∃ c ∈ lastSegment "src/.Widget.v2.CSS".toList, c ≠ '.' := ⟨'W', by decide, by decide⟩
  exact ⟨hclean, hname, (siblings_iff hclean).mpr hname⟩

end Artifact
end Graft
