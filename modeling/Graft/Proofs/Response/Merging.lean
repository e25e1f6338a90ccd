import Graft.Proofs.Response.RoundTrip

/-
Two responses read as one.

A marker line closes whatever is open, so what follows it is read as if nothing stood before:

* `blocksFrom_append_marker` — the blocks before a marker and those from it on;
* `merge first second` — the artifacts of `first`, with the texts that `second` holds under their
  paths put over theirs, then the other artifacts of `second`;
* `addContents_merge`, `addBlock_merge` — adding a block to the second list adds it to the merged one;
* `artifacts_append` — **the artifacts of two responses, the second of which begins with a marker,
  are those of each, merged.**

Design notes: what a path stands for in a list of artifacts is `heldUnder`, so that merging is stated
without regard to the order in which blocks came.  The induction is on the blocks of the second
response, from the last one backwards.
-/
namespace Graft.Response

/-! ### Blocks -/

/-- A marker closes what is open, and the blocks from it on do not depend on what came before. -/
theorem blocksFrom_append_marker (current : Option OpenBlock) {m : Text}
    (hm : (marker? m).isSome) (ls ms : List Text) :
    blocksFrom current (ls ++ m :: ms) = blocksFrom current ls ++ blocksFrom none (m :: ms) := by
  induction ls generalizing current with
  | nil =>
    obtain ⟨path, hpath⟩ := Option.isSome_iff_exists.mp hm
    rw [List.nil_append, blocksFrom, blocksFrom, blocksFrom, hpath]
    rfl
  | cons l ls ih =>
    rw [List.cons_append, blocksFrom, blocksFrom]
    cases marker? l with
    | none => exact ih _
    | some path =>
      dsimp only
      rw [ih, List.append_assoc]

/-- The blocks of two responses, the second of which begins with a marker. -/
theorem blocks_append {t u : Text} (hu : ((Text.lines u).head?.bind marker?).isSome) :
    blocks (t ++ '\n' :: u) = blocks t ++ blocks u := by
  obtain ⟨m, ms, hlines, hm⟩ : ∃ m ms, Text.lines u = m :: ms ∧ (marker? m).isSome := by
    cases h : Text.lines u with
    | nil =>
      rw [h] at hu
      cases hu
    | cons m ms =>
      rw [h] at hu
      exact ⟨m, ms, rfl, hu⟩
  rw [blocks, blocks, blocks]
  rcases Text.lines_append t u with h | h
  · rw [h, hlines, blocksFrom_append_marker none hm]
  · -- The newline makes an empty line, which says nothing before a marker.
    have hshape : Text.lines t ++ [] :: m :: ms = (Text.lines t ++ [[]]) ++ m :: ms := by simp
    rw [h, hlines, hshape, blocksFrom_append_marker none hm, blocksFrom_concat_nil]

/-! ### Contents under a path -/

theorem override_empty (c : Contents) : c.override {} = c :=
  contents_ext fun k => by
    rw [Contents.get?_override]
    cases k <;> rfl

theorem empty_override (c : Contents) : Contents.override {} c = c :=
  contents_ext fun k => by
    rw [Contents.get?_override]
    cases k <;> exact Option.or_none

theorem override_assoc (c d e : Contents) :
    (c.override d).override e = c.override (d.override e) :=
  contents_ext fun k => by simp only [Contents.get?_override, Option.or_assoc]

/-- What artifacts hold under a path. -/
def heldUnder (path : Text) : List Artifact → Contents
  | [] => {}
  | a :: as => if a.path = path then a.contents else heldUnder path as

/-- Whether an artifact of a list has a path. -/
def hasPath (path : Text) (as : List Artifact) : Bool := as.any fun a => a.path = path

theorem heldUnder_addContents (path other : Text) (c : Contents) (as : List Artifact) :
    heldUnder other (addContents path c as) =
      if path = other then (heldUnder other as).override c else heldUnder other as := by
  induction as with
  | nil =>
    rw [addContents, heldUnder, heldUnder]
    by_cases h : path = other
    · rw [if_pos h, if_pos h]
      exact (empty_override c).symm
    · rw [if_neg h, if_neg h]
      rfl
  | cons a as ih =>
    rw [addContents]
    by_cases ha : a.path = path
    · rw [if_pos ha, heldUnder, heldUnder, ha]
      by_cases h : path = other
      · simp only [if_pos h]
      · simp only [if_neg h]
    · rw [if_neg ha, heldUnder, heldUnder, ih]
      by_cases h : a.path = other
      · have hne : path ≠ other := fun he => ha (h.trans he.symm)
        rw [if_pos h, if_neg hne, if_pos h]
      · rw [if_neg h]
        by_cases hp : path = other
        · rw [if_pos hp, if_pos hp, if_neg h]
        · rw [if_neg hp, if_neg hp, if_neg h]

/-! ### Paths -/

/-- Artifacts with different paths. -/
def Distinct (as : List Artifact) : Prop := (as.map Artifact.path).Nodup

theorem map_path_addContents (path : Text) (c : Contents) (as : List Artifact) :
    (addContents path c as).map Artifact.path =
      as.map Artifact.path ++ if hasPath path as then [] else [path] := by
  induction as with
  | nil => rfl
  | cons a as ih =>
    rw [addContents]
    by_cases ha : a.path = path
    · have hany : hasPath path (a :: as) = true := by simp [hasPath, ha]
      rw [if_pos ha, if_pos hany, List.append_nil, List.map_cons, List.map_cons, ha]
    · have hany : hasPath path (a :: as) = hasPath path as := by simp [hasPath, ha]
      rw [if_neg ha, List.map_cons, ih, hany, List.map_cons, List.cons_append]

theorem hasPath_iff {path : Text} {as : List Artifact} :
    hasPath path as = true ↔ path ∈ as.map Artifact.path := by
  simp [hasPath]

theorem distinct_addContents {as : List Artifact} (h : Distinct as) (path : Text) (c : Contents) :
    Distinct (addContents path c as) := by
  rw [Distinct, map_path_addContents]
  by_cases hp : hasPath path as = true
  · rw [if_pos hp, List.append_nil]
    exact h
  · rw [if_neg hp]
    have hnew : path ∉ as.map Artifact.path := fun hmem => hp (hasPath_iff.mpr hmem)
    exact List.nodup_append.mpr ⟨h, by simp, fun x hx y hy he => by
      rw [List.mem_singleton] at hy
      exact hnew (by rw [← hy, ← he]; exact hx)⟩

theorem distinct_addBlock {as : List Artifact} (h : Distinct as) (b : Block) :
    Distinct (addBlock as b) := by
  unfold addBlock
  split
  · exact h
  · split
    · exact h
    · exact distinct_addContents h _ _

/-- The artifacts of a response have different paths. -/
theorem distinct_artifacts (t : Text) : Distinct (artifacts t) := by
  have hfold (bs : List Block) : ∀ as, Distinct as → Distinct (bs.foldl addBlock as) := by
    induction bs with
    | nil => exact fun as h => h
    | cons b bs ih => exact fun as h => ih _ (distinct_addBlock h b)
  exact hfold _ [] List.nodup_nil

/-! ### Merging -/

/-- The artifacts of two lists, those of the second put over those of the first: the artifacts of the
first in order, each with what the second holds under its path, then those with new paths. -/
def merge (first second : List Artifact) : List Artifact :=
  first.map (fun a => { a with contents := a.contents.override (heldUnder a.path second) }) ++
    second.filter fun b => !hasPath b.path first

theorem merge_nil (as : List Artifact) : merge as [] = as := by
  rw [merge, List.filter_nil, List.append_nil]
  simp only [heldUnder, override_empty, List.map_id']

theorem addContents_append (path : Text) (c : Contents) (as bs : List Artifact) :
    addContents path c (as ++ bs) =
      if hasPath path as then addContents path c as ++ bs else as ++ addContents path c bs := by
  induction as with
  | nil => rfl
  | cons a as ih =>
    rw [List.cons_append, addContents, addContents]
    by_cases ha : a.path = path
    · have hany : hasPath path (a :: as) = true := by simp [hasPath, ha]
      rw [if_pos ha, if_pos hany, if_pos ha, List.cons_append]
    · have hany : hasPath path (a :: as) = hasPath path as := by simp [hasPath, ha]
      rw [if_neg ha, if_neg ha, hany, ih]
      by_cases h : hasPath path as = true
      · rw [if_pos h, if_pos h, List.cons_append]
      · rw [if_neg h, if_neg h, List.cons_append]

/-- Among artifacts with different paths, added contents go to the one with their path. -/
theorem addContents_map {as : List Artifact} (hd : Distinct as) {path : Text}
    (h : hasPath path as = true) (c : Contents) (g : Artifact → Contents) :
    addContents path c (as.map fun a => { a with contents := g a }) =
      as.map fun a => { a with contents := if path = a.path then (g a).override c else g a } := by
  induction as with
  | nil => cases h
  | cons a as ih =>
    rw [Distinct, List.map_cons, List.nodup_cons] at hd
    rw [List.map_cons, addContents, List.map_cons]
    by_cases ha : a.path = path
    · -- No later artifact has the path.
      have hrest : ∀ b ∈ as, path ≠ b.path := fun b hb he =>
        hd.1 (by rw [ha, he]; exact List.mem_map_of_mem hb)
      rw [if_pos ha, if_pos ha.symm, ha]
      congr 1
      exact List.map_congr_left fun b hb => by rw [if_neg (hrest b hb)]
    · have hin : hasPath path as = true := by simpa [hasPath, ha] using h
      rw [if_neg ha, if_neg (Ne.symm ha), ih hd.2 hin]

theorem filter_addContents (path : Text) (c : Contents) (as bs : List Artifact) :
    (addContents path c bs).filter (fun b => !hasPath b.path as) =
      if hasPath path as then bs.filter fun b => !hasPath b.path as
      else addContents path c (bs.filter fun b => !hasPath b.path as) := by
  induction bs with
  | nil =>
    by_cases h : hasPath path as = true
    · simp [addContents, h]
    · simp [addContents, h]
  | cons b bs ih =>
    rw [addContents]
    by_cases hb : b.path = path
    · by_cases h : hasPath path as = true
      · simp [hb, h]
      · simp [hb, h, addContents]
    · rw [if_neg hb, List.filter_cons, List.filter_cons, ih]
      by_cases h : hasPath path as = true
      · simp [h]
      · by_cases hn : hasPath b.path as = true
        · simp [h, hn]
        · simp [h, hn, addContents, hb]

/-- Contents added to the second list are added to the merged one. -/
theorem addContents_merge {as : List Artifact} (hd : Distinct as) (path : Text) (c : Contents)
    (bs : List Artifact) : addContents path c (merge as bs) = merge as (addContents path c bs) := by
  have hsame : hasPath path (as.map fun a =>
      { a with contents := a.contents.override (heldUnder a.path bs) }) = hasPath path as := by
    rw [hasPath, List.any_map]
    rfl
  rw [merge, addContents_append, hsame, merge, filter_addContents]
  by_cases h : hasPath path as = true
  · rw [if_pos h, if_pos h, addContents_map hd h]
    congr 2
    funext a
    rw [heldUnder_addContents]
    by_cases ha : path = a.path
    · rw [if_pos ha, if_pos ha, override_assoc]
    · rw [if_neg ha, if_neg ha]
  · have hother : ∀ a ∈ as, path ≠ a.path := fun a ha he =>
      h (hasPath_iff.mpr (by rw [he]; exact List.mem_map_of_mem ha))
    rw [if_neg h, if_neg h]
    congr 1
    exact List.map_congr_left fun a ha => by rw [heldUnder_addContents, if_neg (hother a ha)]

/-- A block added to the second list is added to the merged one. -/
theorem addBlock_merge {as : List Artifact} (hd : Distinct as) (bs : List Artifact) (b : Block) :
    addBlock (merge as bs) b = merge as (addBlock bs b) := by
  rw [addBlock, addBlock]
  cases Artifact.cleanPath? b.path with
  | none => rfl
  | some path =>
    by_cases hempty : b.contents.isEmpty = true
    · simp only [hempty, if_true]
    · simp only [hempty, Bool.false_eq_true, if_false]
      exact addContents_merge hd path b.contents bs

/-- **The artifacts of two responses, the second of which begins with a marker, are those of each,
merged**, whatever the first response leaves open. -/
theorem artifacts_append {t u : Text} (hu : ((Text.lines u).head?.bind marker?).isSome) :
    artifacts (t ++ '\n' :: u) = merge (artifacts t) (artifacts u) := by
  have hd := distinct_artifacts t
  rw [artifacts, blocks_append hu, List.foldl_append]
  change (blocks u).foldl addBlock (artifacts t) = merge (artifacts t) ((blocks u).foldl addBlock [])
  induction blocks u using List.reverseRecOn with
  | nil => exact (merge_nil _).symm
  | append_singleton bs b ih =>
    rw [List.foldl_concat, List.foldl_concat, ih, addBlock_merge hd]

/-- A response that ends inside of a fence. -/
def cutOff : Text :=
  "### filename: w.ts ###\n\x60\x60\x60ts\na\n\x60\x60\x60\n\x60\x60\x60html\n<p>\r".toList

/-- A response with another script for the same path, and a style. -/
def resumed : Text :=
  ("### filename: w.ts ###\n\x60\x60\x60ts\nb\n\x60\x60\x60\n" ++
    "### filename: v.css ###\n\x60\x60\x60\nc").toList

/-- The open fence ends at the marker, the script is replaced and the markup is kept. -/
theorem artifacts_append_resumed :
    ((Text.lines resumed).head?.bind marker?).isSome ∧
      artifacts (cutOff ++ '\n' :: resumed) =
        [⟨"w.ts".toList, { script := some "b".toList, markup := some "<p>".toList }⟩,
          ⟨"v.css".toList, { style := some "c".toList }⟩] := by
  have hu : ((Text.lines resumed).head?.bind marker?).isSome := by decide +kernel
  refine ⟨hu, (artifacts_append hu).trans ?_⟩
  decide +kernel

end Graft.Response
