import Graft.Proofs.Artifact.FilePath

/-
What the files of an artifact have in common.

* `stem p` — the path `p` without an extension that stands for a kind;
* `stem_cases` — it is the path, or the path without its dot and extension;
* `pathFor_eq_stem` — **the files of all kinds are the stem, each with an extension of its kind**.

Design notes: an extension counts only behind something other than dots, so there is always a stem.
-/
namespace Graft

/-- The lower case of a text holds the characters of the text that are their own lower case. -/
theorem Text.mem_lowercase {t : Text} {c : Char} (hdotted : c ≠ '\u0130') (hsigma : c ≠ '\u03a3')
    (hlower : lowerChar c = c) (h : c ∈ t) : c ∈ lowercase t := by
  have hgo (before : Text) : c ∈ lowercase.go before t := by
    induction t generalizing before with
    | nil => cases h
    | cons d cs ih =>
      rw [lowercase.go]
      rcases List.mem_cons.mp h with rfl | hcs
      · refine List.mem_append_left _ ?_
        rw [if_neg hdotted, if_neg hsigma, hlower]
        exact List.mem_singleton_self c
      · exact List.mem_append_right _ (ih hcs _)
  exact hgo []

namespace Path

/-- There is more than the dot and an extension to a segment. -/
theorem length_rawExtension_lt {s : Text} (h : rawExtension s ≠ []) :
    (rawExtension s).length + 1 < s.length := by
  unfold rawExtension at h ⊢
  dsimp only at h ⊢
  split at h
  next hstem =>
    rw [if_pos hstem]
    obtain ⟨c, hc, -⟩ := List.any_eq_true.mp hstem
    have hlength := List.length_pos_of_mem hc
    rw [List.length_take] at hlength
    omega
  next => exact absurd rfl h

end Path

namespace Artifact

open Graft.Path

/-- A path without an extension that stands for a kind. -/
def stem (p : Text) : Text :=
  if (Kind.ofExtension? (extension p)).isSome then p.take (p.length - ((extension p).length + 1))
  else p

/-- An extension that stands for a kind. -/
theorem ofExtension?_isSome_iff {e : Text} :
    (Kind.ofExtension? e).isSome ↔ ∃ k : Kind, e ∈ k.extensions := by
  constructor
  · intro h
    obtain ⟨k, hk⟩ := Option.isSome_iff_exists.mp h
    exact ⟨k, by simpa using List.find?_some hk⟩
  · rintro ⟨k, hk⟩
    rw [Kind.ofExtension?, List.find?_isSome]
    exact ⟨k, by cases k <;> decide, by simpa using hk⟩

/-- The extension of a path that has one that stands for a kind. -/
theorem eq_append_of_mem_extensions {p : Text} {k : Kind} (h : extension p ∈ k.extensions) :
    ∃ e, stem p ≠ [] ∧ p = stem p ++ '.' :: e ∧ '.' ∉ e ∧ Text.lowercase e = extension p := by
  have hknown : (Kind.ofExtension? (extension p)).isSome := ofExtension?_isSome_iff.mpr ⟨k, h⟩
  have hplain : extension p ≠ [] ∧ '\u0307' ∉ extension p := by
    have hall : ∀ e ∈ k.extensions, e ≠ [] ∧ '\u0307' ∉ e := by cases k <;> decide
    exact hall _ h
  obtain ⟨hne, hdot⟩ := hplain
  have hraw : rawExtension (lastSegment p) ≠ [] := by
    intro hnil
    rw [extension, hnil] at hne
    exact hne rfl
  have hlength : (extension p).length = (rawExtension (lastSegment p)).length := by
    rw [extension] at hdot ⊢
    exact Text.length_lowercase hdot
  obtain ⟨s, hs⟩ := exists_stem_of_rawExtension hraw
  obtain ⟨dir, hdir⟩ : lastSegment p <:+ p := List.rtakeWhile_suffix _ p
  generalize hlast : lastSegment p = segment at *
  have hshort := length_rawExtension_lt hraw
  have hwhole : p = (dir ++ s) ++ '.' :: rawExtension segment := by
    rw [List.append_assoc, ← hs, hdir]
  have hstem : stem p = dir ++ s := by
    have htake : p.length - ((extension p).length + 1) = (dir ++ s).length := by
      have hp := congrArg List.length hwhole
      rw [List.length_append, List.length_cons] at hp
      omega
    rw [stem, if_pos hknown, htake, hwhole, List.take_left]
  refine ⟨rawExtension segment, ?_, by rw [hstem]; exact hwhole, dot_not_mem_rawExtension segment, ?_⟩
  · have hsome : s ≠ [] := by
      rintro rfl
      have heq := congrArg List.length hs
      rw [List.nil_append, List.length_cons] at heq
      omega
    rw [hstem]
    exact List.append_ne_nil_of_right_ne_nil _ hsome
  · rw [extension, hlast]

/-- The stem of a path is the path, or the path without its dot and extension. -/
theorem stem_cases (p : Text) : stem p = p ∨ ∃ (e : Text) (k : Kind), p = stem p ++ '.' :: e ∧
    Text.lowercase e ∈ k.extensions := by
  by_cases hknown : (Kind.ofExtension? (extension p)).isSome
  · obtain ⟨k, hk⟩ := ofExtension?_isSome_iff.mp hknown
    obtain ⟨e, -, hp, -, he⟩ := eq_append_of_mem_extensions hk
    exact .inr ⟨e, k, hp, he ▸ hk⟩
  · exact .inl (if_neg hknown)

/-- Every path that is not empty has a stem. -/
theorem stem_ne_nil {p : Text} (hp : p ≠ []) : stem p ≠ [] := by
  by_cases hknown : (Kind.ofExtension? (extension p)).isSome
  · obtain ⟨k, hk⟩ := ofExtension?_isSome_iff.mp hknown
    obtain ⟨e, hne, -⟩ := eq_append_of_mem_extensions hk
    exact hne
  · rwa [stem, if_neg hknown]

/-- **The files of all kinds are the stem, each with an extension of its kind.** -/
theorem pathFor_eq_stem (p : Text) (k : Kind) : ∃ e, pathFor p k = stem p ++ '.' :: e ∧ '.' ∉ e ∧
    Text.lowercase e ∈ k.extensions := by
  by_cases hown : extension p ∈ k.extensions
  · obtain ⟨e, -, hp, hdot, he⟩ := eq_append_of_mem_extensions hown
    have hkept : pathFor p k = p := by
      rw [pathFor]
      exact if_pos (by simpa using hown)
    exact ⟨e, hkept.trans hp, hdot, he ▸ hown⟩
  · have hchanged : pathFor p k = stem p ++ '.' :: k.extension := by
      rw [pathFor, stem]
      exact if_neg (by simpa using hown)
    exact ⟨k.extension, hchanged, by cases k <;> decide, by cases k <;> decide⟩


end Artifact
end Graft
