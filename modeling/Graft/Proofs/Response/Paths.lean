import Graft.Proofs.Artifact.FilePath
import Graft.Response.Artifacts

/-
Where the paths of artifacts come from.

* `isInfix_marker?` — an announced path is a part of its line;
* `exists_marker_of_mem_blocks` — every block has its path from a marker line of the response;
* `exists_block_of_mem_artifacts` — every artifact has its path from a block;
* `path_of_mem_artifacts` — **the path of an artifact is clean**, and its characters are slashes and
  characters of the response other than line boundaries;
* `isEmpty_of_mem_artifacts` — every artifact holds a text.
-/
namespace Graft

/-- The characters of a line are those of the text, without boundaries. -/
theorem Text.mem_of_mem_lines {t l : Text} (h : l ∈ lines t) {c : Char} (hc : c ∈ l) :
    c ∈ t ∧ isLineBreak c = false := by
  fun_induction lines t generalizing l with
  | case1 => cases h
  | case2 cs ih =>
    rcases List.mem_cons.mp h with rfl | h
    · cases hc
    · exact (ih h hc).imp_left fun hin => List.mem_cons_of_mem _ (List.mem_cons_of_mem _ hin)
  | case3 d cs hne hb ih =>
    rcases List.mem_cons.mp h with rfl | h
    · cases hc
    · exact (ih h hc).imp_left (List.mem_cons_of_mem _)
  | case4 d cs hne hb ih =>
    rw [Bool.not_eq_true] at hb
    have hfirst : c = d → c ∈ d :: cs ∧ isLineBreak c = false := by
      rintro rfl
      exact ⟨List.mem_cons_self, hb⟩
    cases hls : lines cs with
    | nil =>
      rw [hls, consFirst, List.mem_singleton] at h
      rw [h] at hc
      exact hfirst (List.mem_singleton.mp hc)
    | cons m ms =>
      rw [hls] at ih
      rw [hls, consFirst] at h
      rcases List.mem_cons.mp h with rfl | h
      · rcases List.mem_cons.mp hc with hc | hc
        · exact hfirst hc
        · exact (ih List.mem_cons_self hc).imp_left (List.mem_cons_of_mem _)
      · exact (ih (List.mem_cons_of_mem _ h) hc).imp_left (List.mem_cons_of_mem _)

namespace Response

/-! ### Markers -/

theorem suffix_of_after? {lead t r : Text} (h : Text.after? lead t = some r) : r <:+ t :=
  ⟨lead, (Text.after?_eq_some_iff.mp h).symm⟩

theorem suffix_of_afterWord? {w t r : Text} (h : afterWord? w t = some r) : r <:+ t := by
  fun_induction afterWord? w t with
  | case1 t =>
    obtain rfl := Option.some.inj h
    exact List.suffix_rfl
  | case2 => cases h
  | case3 a as c cs hc ih => exact (ih h).trans (List.suffix_cons c cs)
  | case4 => cases h

theorem skipSpace_suffix (t : Text) : skipSpace t <:+ t := List.dropWhile_suffix _

theorem prefix_of_onlyLine? {t r : Text} (h : onlyLine? t = some r) : r <+: t := by
  unfold onlyLine? at h
  split at h
  · obtain rfl := Option.some.inj h
    exact List.prefix_rfl
  · obtain rfl := Option.some.inj h
    exact List.takeWhile_prefix _
  · cases h

/-- An announced path is a part of its line. -/
theorem isInfix_marker? {line path : Text} (h : marker? line = some path) : path <:+: line := by
  unfold marker? at h
  obtain ⟨r₁, h₁, h⟩ := Option.bind_eq_some_iff.mp h
  obtain ⟨r₂, h₂, h⟩ := Option.bind_eq_some_iff.mp h
  obtain ⟨r₃, h₃, h⟩ := Option.bind_eq_some_iff.mp h
  obtain ⟨r₄, h₄, h⟩ := Option.bind_eq_some_iff.mp h
  obtain rfl := Option.some.inj h
  have hrest : r₃ <:+ line := by
    have hhash := (suffix_of_after? h₁).trans (skipSpace_suffix line)
    have hword := (suffix_of_afterWord? h₂).trans ((skipSpace_suffix r₁).trans hhash)
    exact (suffix_of_after? h₃).trans ((skipSpace_suffix r₂).trans hword)
  have hline : r₄ <:+: line :=
    ((prefix_of_onlyLine? h₄).isInfix.trans (skipSpace_suffix r₃).isInfix).trans hrest.isInfix
  have htrim : trimmedPath r₄ <:+: r₄ :=
    ((Text.isInfix_stripped _).trans (Text.isInfix_trim _ _)).trans (Text.isInfix_stripped r₄)
  exact htrim.trans hline

/-! ### Blocks -/

theorem path_add (b : Block) (f : Fenced) : (b.add f).path = b.path := by
  unfold Block.add
  split <;> rfl

theorem path_readFenced (b : Block) (f : Fenced) (line : Text) :
    (OpenBlock.readFenced b f line).block.path = b.path := by
  unfold OpenBlock.readFenced
  split
  · rfl
  · exact path_add b _

theorem path_read (o : OpenBlock) (line : Text) : (o.read line).block.path = o.block.path := by
  unfold OpenBlock.read
  split
  · exact path_readFenced _ _ _
  · unfold OpenBlock.readProse
    split
    · rfl
    · dsimp only
      split
      · rfl
      · exact path_readFenced _ _ _

theorem path_close (o : OpenBlock) : o.close.path = o.block.path := by
  unfold OpenBlock.close
  split
  · exact path_add _ _
  · rfl

/-- Every block is open at first, or has its path from a marker line. -/
theorem exists_marker_of_mem_blocksFrom {current : Option OpenBlock} {ls : List Text} {b : Block}
    (h : b ∈ blocksFrom current ls) :
    (∃ o ∈ current, o.block.path = b.path) ∨ ∃ l ∈ ls, marker? l = some b.path := by
  have hclose {current : Option OpenBlock} (h : b ∈ (current.map OpenBlock.close).toList) :
      ∃ o ∈ current, o.block.path = b.path := by
    obtain ⟨o, ho, rfl⟩ := Option.map_eq_some_iff.mp (Option.mem_toList.mp h)
    exact ⟨o, ho, (path_close o).symm⟩
  induction ls generalizing current with
  | nil => exact Or.inl (hclose h)
  | cons l ls ih =>
    rw [blocksFrom] at h
    cases hm : marker? l with
    | some path =>
      rw [hm] at h
      rcases List.mem_append.mp h with h | h
      · exact Or.inl (hclose h)
      · right
        rcases ih h with ⟨o, ho, hpath⟩ | ⟨l', hl', hm'⟩
        · obtain rfl := Option.some.inj ho
          exact ⟨l, List.mem_cons_self, hm.trans (congrArg some hpath)⟩
        · exact ⟨l', List.mem_cons_of_mem l hl', hm'⟩
    | none =>
      rw [hm] at h
      rcases ih h with ⟨o', ho', hpath⟩ | ⟨l', hl', hm'⟩
      · obtain ⟨o, ho, rfl⟩ := Option.map_eq_some_iff.mp ho'
        exact Or.inl ⟨o, ho, (path_read o l).symm.trans hpath⟩
      · exact Or.inr ⟨l', List.mem_cons_of_mem l hl', hm'⟩

theorem exists_marker_of_mem_blocks {t : Text} {b : Block} (h : b ∈ blocks t) :
    ∃ l ∈ Text.lines t, marker? l = some b.path := by
  rcases exists_marker_of_mem_blocksFrom h with ⟨o, ho, -⟩ | hline
  · cases ho
  · exact hline

/-! ### Artifacts -/

theorem path_mem_addContents {path : Text} {c : Contents} {as : List Artifact} {a : Artifact}
    (h : a ∈ addContents path c as) : a.path = path ∨ a ∈ as := by
  induction as with
  | nil => exact Or.inl (by rw [List.mem_singleton.mp h])
  | cons b bs ih =>
    rw [addContents] at h
    split at h
    · rcases List.mem_cons.mp h with h | h
      · exact Or.inl (by rw [h])
      · exact Or.inr (List.mem_cons_of_mem b h)
    · rcases List.mem_cons.mp h with h | h
      · exact Or.inr (by rw [h]; exact List.mem_cons_self)
      · exact (ih h).imp_right (List.mem_cons_of_mem b)

theorem path_mem_addBlock {as : List Artifact} {b : Block} {a : Artifact}
    (h : a ∈ addBlock as b) : Artifact.cleanPath? b.path = some a.path ∨ a ∈ as := by
  unfold addBlock at h
  split at h
  · exact Or.inr h
  next path hpath =>
    split at h
    · exact Or.inr h
    · exact (path_mem_addContents h).imp_left fun hp => hpath.trans (congrArg some hp.symm)

/-- Every artifact has its path from a block. -/
theorem exists_block_of_mem_artifacts {t : Text} {a : Artifact} (h : a ∈ artifacts t) :
    ∃ b ∈ blocks t, Artifact.cleanPath? b.path = some a.path := by
  have hfold (bs : List Block) : ∀ as, a ∈ bs.foldl addBlock as →
      (∃ b ∈ bs, Artifact.cleanPath? b.path = some a.path) ∨ a ∈ as := by
    induction bs with
    | nil => exact fun as h => Or.inr h
    | cons b bs ih =>
      intro as h
      rcases ih _ h with ⟨b', hb', hpath⟩ | h
      · exact Or.inl ⟨b', List.mem_cons_of_mem b hb', hpath⟩
      · exact (path_mem_addBlock h).imp_left fun hpath => ⟨b, List.mem_cons_self, hpath⟩
  exact (hfold _ [] h).resolve_right List.not_mem_nil

/-- **The path of an artifact is clean**, and its characters are slashes and characters of the response
other than line boundaries. -/
theorem path_of_mem_artifacts {t : Text} {a : Artifact} (h : a ∈ artifacts t) :
    Path.IsClean a.path ∧ ∀ c ∈ a.path, c = '/' ∨ (c ∈ t ∧ isLineBreak c = false) := by
  obtain ⟨b, hb, hclean⟩ := exists_block_of_mem_artifacts h
  obtain ⟨l, hl, hmark⟩ := exists_marker_of_mem_blocks hb
  obtain ⟨hpath, hchars⟩ := Artifact.isClean_of_cleanPath? hclean
  refine ⟨hpath, fun c hc => (hchars c hc).imp_right fun hc => ?_⟩
  exact Text.mem_of_mem_lines hl ((isInfix_marker? hmark).subset hc)

theorem isEmpty_override (c later : Contents) :
    (c.override later).isEmpty = (c.isEmpty && later.isEmpty) := by
  obtain ⟨s, m, y⟩ := c
  obtain ⟨s', m', y'⟩ := later
  cases s <;> cases m <;> cases y <;> cases s' <;> cases m' <;> cases y' <;> rfl

theorem isEmpty_addContents {path : Text} {c : Contents} {as : List Artifact} {a : Artifact}
    (hc : c.isEmpty = false) (has : ∀ a ∈ as, a.contents.isEmpty = false)
    (h : a ∈ addContents path c as) : a.contents.isEmpty = false := by
  induction as with
  | nil =>
    rw [List.mem_singleton.mp h]
    exact hc
  | cons b bs ih =>
    have hbs : ∀ a ∈ bs, a.contents.isEmpty = false := fun a ha => has a (List.mem_cons_of_mem b ha)
    rw [addContents] at h
    split at h
    · rcases List.mem_cons.mp h with rfl | h
      · rw [isEmpty_override, hc, Bool.and_false]
      · exact hbs a h
    · rcases List.mem_cons.mp h with rfl | h
      · exact has a List.mem_cons_self
      · exact ih hbs h

/-- **Every artifact holds a text.** -/
theorem isEmpty_of_mem_artifacts {t : Text} {a : Artifact} (h : a ∈ artifacts t) :
    a.contents.isEmpty = false := by
  have hfold (bs : List Block) : ∀ as, (∀ a ∈ as, a.contents.isEmpty = false) →
      ∀ a ∈ bs.foldl addBlock as, a.contents.isEmpty = false := by
    induction bs with
    | nil => exact fun as has => has
    | cons b bs ih =>
      refine fun as has => ih _ fun a ha => ?_
      unfold addBlock at ha
      split at ha
      · exact has a ha
      · split at ha
        · exact has a ha
        next hempty => exact isEmpty_addContents (Bool.eq_false_iff.mpr hempty) has ha
  exact hfold _ [] (by simp) a h

theorem eq_artifacts_of_parse? {t : Text} {as : List Artifact} (h : parse? t = some as) :
    as = artifacts t := by
  unfold parse? at h
  split at h
  · cases h
  · exact (Option.some.inj h).symm

end Response
end Graft
