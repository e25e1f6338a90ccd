import Graft.Proofs.Response.Sheet

/-
Reading a sheet gives back the artifacts it was written from.

* `blocksFrom_concat_nil` — an empty line at the end of a response says nothing;
* `blocksFrom_part`, `blocksFrom_setting` — reading one fenced part, and one artifact;
* `addBlock_foldl` — blocks with different paths become artifacts, in order;
* `parse?_sheet` — **a sheet is read back exactly**, and there is nothing to read back exactly when
  it was written from no artifact.

Design notes: every step is stated for the lines of one piece of the sheet followed by any other
lines, so that the whole sheet is read by induction on its pieces.
-/
namespace Graft.Response

/-! ### An empty last line -/

theorem partText_concat_nil (ls : List Text) : partText (ls ++ [[]]) = partText ls := by
  by_cases hall : ∀ l ∈ ls, Text.isBlank l = true
  · have h1 : ls.dropWhile Text.isBlank = [] := List.dropWhile_eq_nil_iff.mpr hall
    rw [partText, partText, h1, List.dropWhile_append_of_pos hall]
    rfl
  · have hne : ls.dropWhile Text.isBlank ≠ [] := fun h =>
      hall (List.dropWhile_eq_nil_iff.mp h)
    have hsplit {ms : List Text} (hms : ms ≠ []) :
        ['\n'].intercalate (ms ++ [[]]) = ['\n'].intercalate ms ++ ['\n'] :=
      Text.intercalate_append hms (List.cons_ne_nil [] [])
    rw [partText, partText, List.dropWhile_append,
      if_neg (by simpa using hne), hsplit hne, Text.trimRight_append (List.all_eq_true.mp (by decide))]

theorem close_read_nil (o : OpenBlock) : (o.read []).close = o.close := by
  obtain ⟨b, f⟩ := o
  cases f with
  | none => rfl
  | some f =>
    show b.add { f with lines := f.lines ++ [[]] } = b.add f
    rw [Block.add, Block.add]
    cases f.kind with
    | none => rfl
    | some k => simp only [partText_concat_nil]

/-- An empty line at the end of a response says nothing. -/
theorem blocksFrom_concat_nil (current : Option OpenBlock) (ls : List Text) :
    blocksFrom current (ls ++ [[]]) = blocksFrom current ls := by
  induction ls generalizing current with
  | nil =>
    cases current with
    | none => rfl
    | some o =>
      show [(o.read []).close] = [o.close]
      rw [close_read_nil]
  | cons l ls ih =>
    rw [List.cons_append, blocksFrom, blocksFrom]
    cases marker? l with
    | none => exact ih _
    | some path =>
      dsimp only
      rw [ih]

/-! ### Reading the pieces of a sheet -/

theorem blocksFrom_of_marker?_eq_none {l : Text} (h : marker? l = none) (o : Option OpenBlock)
    (rest : List Text) :
    blocksFrom o (l :: rest) = blocksFrom (o.map fun o => o.read l) rest := by
  rw [blocksFrom, h]

theorem blocksFrom_none_prose {ls : List Text} (h : ∀ l ∈ ls, IsProse l) (rest : List Text) :
    blocksFrom none (ls ++ rest) = blocksFrom none rest := by
  induction ls with
  | nil => rfl
  | cons l ls ih =>
    rw [List.cons_append, blocksFrom_of_marker?_eq_none (h l (by simp)).noMarker]
    exact ih fun x hx => h x (List.mem_cons_of_mem l hx)

theorem blocksFrom_prose {b : Block} {ls : List Text} (h : ∀ l ∈ ls, IsProse l)
    (rest : List Text) :
    blocksFrom (some ⟨b, none⟩) (ls ++ rest) = blocksFrom (some ⟨b, none⟩) rest := by
  induction ls with
  | nil => rfl
  | cons l ls ih =>
    rw [List.cons_append, blocksFrom_of_marker?_eq_none (h l (by simp)).noMarker, Option.map_some]
    rw [show OpenBlock.read ⟨b, none⟩ l = ⟨b, none⟩ from readProse_prose (h l (by simp))]
    exact ih fun x hx => h x (List.mem_cons_of_mem l hx)

/-- Lines inside a fence are taken as they are, up to a closing fence. -/
theorem blocksFrom_fenced {b : Block} {f : Fenced} {ls : List Text}
    (h : ∀ l ∈ ls, marker? l = none ∧ ¬ fence <:+: l) (rest : List Text) :
    blocksFrom (some ⟨b, some f⟩) (ls ++ fence :: rest) =
      blocksFrom (some ⟨b.add { f with lines := f.lines ++ ls ++ [[]] }, none⟩) rest := by
  induction ls generalizing f with
  | nil =>
    have hmark : marker? fence = none := marker?_fence []
    rw [List.nil_append, blocksFrom_of_marker?_eq_none hmark, List.append_nil]
    rfl
  | cons l ls ih =>
    have hl := h l (by simp)
    have hread : OpenBlock.read ⟨b, some f⟩ l =
        ⟨b, some { f with lines := f.lines ++ [l] }⟩ := by
      show OpenBlock.readFenced b f l = _
      rw [OpenBlock.readFenced, (Text.before?_eq_none_iff (by decide)).mpr hl.2]
    rw [List.cons_append, blocksFrom_of_marker?_eq_none hl.1, Option.map_some, hread,
      ih fun x hx => h x (List.mem_cons_of_mem l hx)]
    simp

theorem intercalate_contentLines (t : Text) : ['\n'].intercalate (contentLines t) = t := by
  rw [contentLines]
  split
  next h => rw [List.isEmpty_iff.mp h]; rfl
  next => exact List.intercalate_splitOn '\n'

theorem contentLines_line {t : Text} (h : IsPlainContent t) :
    ∀ l ∈ contentLines t, Text.Unbroken l ∧ marker? l = none ∧ ¬ fence <:+: l := by
  intro l hl
  have hin : l <:+: t := by
    have hwhole : l <:+: ['\n'].intercalate (contentLines t) := Text.infix_of_mem_intercalate hl
    rwa [intercalate_contentLines] at hwhole
  refine ⟨?_, h.noMarker l hl, fun hf => h.noFence (hf.trans hin)⟩
  intro c hc
  rw [← Bool.not_eq_true]
  intro hb
  rw [h.breaks c (hin.subset hc) hb] at hc
  rw [contentLines] at hl
  split at hl
  · exact absurd hl List.not_mem_nil
  · exact Text.not_mem_of_mem_splitOn hl hc

/-- Between its fences a text is read back. -/
theorem partText_contentLines {t : Text} (h : IsPlainContent t) :
    partText (contentLines t ++ [[]]) = t := by
  rw [partText_concat_nil, partText]
  cases hc : contentLines t with
  | nil =>
    have := intercalate_contentLines t
    rw [hc] at this
    exact this
  | cons l ls =>
    have hl : Text.isBlank l = false := h.first l (by rw [hc]; rfl)
    rw [List.dropWhile_cons_of_neg (by simp [hl]), ← hc, intercalate_contentLines,
      Text.trimRight_eq_self h.last]

/-- Reading one fenced part sets the text of its kind. -/
theorem blocksFrom_part {a : Artifact} {p : Part} {b : Block}
    (htag : (Text.lowerAscii p.tag, p.kind) ∈ languages) (hc : IsPlainContent (p.content a))
    (hprose : ∀ l ∈ p.prose, IsProse l) (rest : List Text) :
    blocksFrom (some ⟨b, none⟩) (p.lines a ++ rest) =
      blocksFrom (some ⟨{ b with contents := b.contents.set p.kind (p.content a) }, none⟩) rest := by
  have hopen : OpenBlock.read ⟨b, none⟩ (fence ++ p.tag) = ⟨b, some { kind := some p.kind }⟩ :=
    readProse_fence htag
  have hadd : b.add { kind := some p.kind, lines := [] ++ contentLines (p.content a) ++ [[]] } =
      { b with contents := b.contents.set p.kind (p.content a) } := by
    rw [Block.add, List.nil_append]
    dsimp only
    rw [partText_contentLines hc]
  rw [Part.lines, List.cons_append, blocksFrom_of_marker?_eq_none (marker?_fence p.tag),
    Option.map_some, hopen, List.append_assoc, List.cons_append,
    blocksFrom_fenced fun l hl => (contentLines_line hc l hl).2, hadd, blocksFrom_prose hprose]

/-- The contents that parts of an artifact leave behind. -/
def heldBy (a : Artifact) (c : Contents) (parts : List Part) : Contents :=
  parts.foldl (fun c p => c.set p.kind (p.content a)) c

theorem blocksFrom_parts {a : Artifact} {parts : List Part} {b : Block}
    (htags : ∀ p ∈ parts, (Text.lowerAscii p.tag, p.kind) ∈ languages)
    (hc : ∀ p ∈ parts, IsPlainContent (p.content a))
    (hprose : ∀ p ∈ parts, ∀ l ∈ p.prose, IsProse l) (rest : List Text) :
    blocksFrom (some ⟨b, none⟩) (parts.flatMap (Part.lines a) ++ rest) =
      blocksFrom (some ⟨{ b with contents := heldBy a b.contents parts }, none⟩) rest := by
  induction parts generalizing b with
  | nil => rfl
  | cons p ps ih =>
    rw [List.flatMap_cons, List.append_assoc,
      blocksFrom_part (htags p (by simp)) (hc p (by simp)) (hprose p (by simp))]
    exact ih (fun q hq => htags q (List.mem_cons_of_mem p hq))
      (fun q hq => hc q (List.mem_cons_of_mem p hq))
      (fun q hq => hprose q (List.mem_cons_of_mem p hq))

/-! ### The contents of an artifact -/

theorem get?_heldBy (a : Artifact) (c : Contents) (parts : List Part) (k : Kind) :
    (heldBy a c parts).get? k =
      if k ∈ parts.map Part.kind then some ((a.contents.get? k).getD []) else c.get? k := by
  induction parts generalizing c with
  | nil => simp [heldBy]
  | cons p ps ih =>
    rw [show heldBy a c (p :: ps) = heldBy a (c.set p.kind (p.content a)) ps from rfl, ih,
      Contents.get?_set]
    by_cases hk : k = p.kind
    · subst hk
      simp [Part.content]
    · simp [hk]

theorem contents_ext {c d : Contents} (h : ∀ k, c.get? k = d.get? k) : c = d := by
  obtain ⟨s, m, t⟩ := c
  obtain ⟨s', m', t'⟩ := d
  have hs : s = s' := h .script
  have hm : m = m' := h .markup
  have ht : t = t' := h .style
  rw [hs, hm, ht]

theorem mem_kinds_iff {c : Contents} {k : Kind} : k ∈ c.kinds ↔ (c.get? k).isSome := by
  rw [Contents.kinds, List.mem_filter]
  exact ⟨And.right, fun h => ⟨by cases k <;> decide, h⟩⟩

/-- The parts of an artifact, one for each of its kinds, hold its contents. -/
theorem heldBy_eq {a : Artifact} {s : Setting} (h : s.Fits a) : heldBy a {} s.parts = a.contents := by
  apply contents_ext
  intro k
  simp only [get?_heldBy, h.kinds.mem_iff, mem_kinds_iff]
  cases hk : a.contents.get? k with
  | none => cases k <;> rfl
  | some t => rfl

theorem content_plain {a : Artifact} {s : Setting} (hw : Writable a) (h : s.Fits a) :
    ∀ p ∈ s.parts, IsPlainContent (p.content a) := by
  intro p hp
  have hk : (a.contents.get? p.kind).isSome :=
    mem_kinds_iff.mp (h.kinds.mem_iff.mp (List.mem_map_of_mem hp))
  obtain ⟨t, ht⟩ := Option.isSome_iff_exists.mp hk
  rw [Part.content, ht]
  exact hw.content _ _ ht

/-! ### Whole sheets -/

theorem blocksFrom_setting {a : Artifact} {s : Setting} (hw : Writable a) (h : s.Fits a)
    (o : Option OpenBlock) (rest : List Text) :
    blocksFrom o (s.lines a ++ rest) = (o.map OpenBlock.close).toList ++
      blocksFrom (some ⟨⟨a.path, a.contents⟩, none⟩) rest := by
  rw [Setting.lines, List.cons_append, blocksFrom, marker?_announcement hw.path]
  dsimp only
  rw [List.append_assoc, blocksFrom_prose h.prose,
    blocksFrom_parts h.tags (content_plain hw h) h.partProse, heldBy_eq h]

theorem blocksFrom_items {items : List (Artifact × Setting)} (hw : ∀ i ∈ items, Writable i.1)
    (hf : ∀ i ∈ items, i.2.Fits i.1) (o : Option OpenBlock) :
    blocksFrom o (items.flatMap fun i => i.2.lines i.1) = (o.map OpenBlock.close).toList ++
      items.map fun i => ⟨i.1.path, i.1.contents⟩ := by
  induction items generalizing o with
  | nil => simp [blocksFrom]
  | cons i is ih =>
    rw [List.flatMap_cons, blocksFrom_setting (hw i (by simp)) (hf i (by simp)),
      ih (fun j hj => hw j (List.mem_cons_of_mem i hj)) (fun j hj => hf j (List.mem_cons_of_mem i hj))]
    rfl

/-- Blocks with different paths become artifacts, in order. -/
theorem addBlock_foldl {as before : List Artifact}
    (hpath : ∀ a ∈ as, Artifact.cleanPath? a.path = some a.path)
    (hne : ∀ a ∈ as, a.contents.isEmpty = false) (hnodup : ((before ++ as).map Artifact.path).Nodup) :
    (as.map fun a => (⟨a.path, a.contents⟩ : Block)).foldl addBlock before = before ++ as := by
  induction as generalizing before with
  | nil => simp
  | cons a as ih =>
    have hnew : ∀ b ∈ before, b.path ≠ a.path := by
      intro b hb he
      rw [List.map_append, List.nodup_append] at hnodup
      exact hnodup.2.2 _ (List.mem_map_of_mem hb) _ (by simp) he
    have happend : ∀ {bs : List Artifact}, (∀ b ∈ bs, b.path ≠ a.path) →
        addContents a.path a.contents bs = bs ++ [a] := by
      intro bs hbs
      induction bs with
      | nil => rfl
      | cons b bs ihb =>
        rw [addContents, if_neg (hbs b (by simp)), ihb fun x hx => hbs x (List.mem_cons_of_mem b hx)]
        rfl
    have hadd : addBlock before ⟨a.path, a.contents⟩ = before ++ [a] := by
      rw [addBlock]
      simp only [hpath a (by simp), hne a (by simp)]
      exact happend hnew
    rw [List.map_cons, List.foldl_cons, hadd, ih (fun b hb => hpath b (List.mem_cons_of_mem a hb))
      (fun b hb => hne b (List.mem_cons_of_mem a hb)) (by simpa using hnodup)]
    simp

theorem sheetLines_unbroken {lead : List Text} {items : List (Artifact × Setting)}
    (hlead : ∀ l ∈ lead, IsProse l) (hw : ∀ i ∈ items, Writable i.1)
    (hf : ∀ i ∈ items, i.2.Fits i.1) : ∀ l ∈ sheetLines lead items, Text.Unbroken l := by
  intro l hl
  rw [sheetLines, List.mem_append, List.mem_flatMap] at hl
  rcases hl with hl | ⟨i, hi, hl⟩
  · exact (hlead l hl).unbroken
  · rw [Setting.lines, List.mem_cons, List.mem_append, List.mem_flatMap] at hl
    rcases hl with rfl | hl | ⟨p, hp, hl⟩
    · exact unbroken_announcement (hw i hi).path
    · exact ((hf i hi).prose l hl).unbroken
    · rw [Part.lines, List.mem_cons, List.mem_append, List.mem_cons] at hl
      rcases hl with rfl | hl | rfl | hl
      · exact Text.unbroken_append.mpr ⟨unbroken_fence, tag_unbroken ((hf i hi).tags p hp)⟩
      · exact (contentLines_line (content_plain (hw i hi) (hf i hi) p hp) l hl).1
      · exact unbroken_fence
      · exact ((hf i hi).partProse p hp l hl).unbroken

theorem blocks_sheet {lead : List Text} {items : List (Artifact × Setting)}
    (hlead : ∀ l ∈ lead, IsProse l) (hw : ∀ i ∈ items, Writable i.1)
    (hf : ∀ i ∈ items, i.2.Fits i.1) :
    blocks (sheet lead items) = items.map fun i => ⟨i.1.path, i.1.contents⟩ := by
  have hlines : blocks (sheet lead items) = blocksFrom none (sheetLines lead items) := by
    rw [blocks, sheet]
    rcases Text.lines_intercalate (sheetLines_unbroken hlead hw hf) with h | h
    · rw [h]
    · rw [← blocksFrom_concat_nil, h]
  rw [hlines, sheetLines, blocksFrom_none_prose hlead, blocksFrom_items hw hf]
  rfl

theorem artifacts_sheet {lead : List Text} {items : List (Artifact × Setting)}
    (hlead : ∀ l ∈ lead, IsProse l) (hpaths : (items.map fun i => i.1.path).Nodup)
    (hw : ∀ i ∈ items, Writable i.1) (hf : ∀ i ∈ items, i.2.Fits i.1) :
    artifacts (sheet lead items) = items.map Prod.fst := by
  have hmap : (items.map fun i => (⟨i.1.path, i.1.contents⟩ : Block)) =
      (items.map Prod.fst).map fun a => ⟨a.path, a.contents⟩ := by
    rw [List.map_map]
    rfl
  rw [artifacts, blocks_sheet hlead hw hf, hmap, addBlock_foldl, List.nil_append]
  · intro a ha
    obtain ⟨i, hi, rfl⟩ := List.mem_map.mp ha
    exact (hw i hi).path.clean
  · intro a ha
    obtain ⟨i, hi, rfl⟩ := List.mem_map.mp ha
    exact (hw i hi).nonempty
  · simpa [Function.comp_def] using hpaths

/-- **A sheet is read back exactly.**  The artifacts of the sheet of writable artifacts with
different paths, in settings that fit, are these artifacts in order; and it is a response without
artifacts exactly when it was written from none. -/
theorem parse?_sheet {lead : List Text} {items : List (Artifact × Setting)}
    (hlead : ∀ l ∈ lead, IsProse l) (hpaths : (items.map fun i => i.1.path).Nodup)
    (hw : ∀ i ∈ items, Writable i.1) (hf : ∀ i ∈ items, i.2.Fits i.1) :
    artifacts (sheet lead items) = items.map Prod.fst ∧
      parse? (sheet lead items) = if items = [] then none else some (items.map Prod.fst) := by
  have hall := artifacts_sheet hlead hpaths hw hf
  refine ⟨hall, ?_⟩
  rw [parse?, hall]
  cases items with
  | nil => rfl
  | cons i is => rfl

/-- The sheet of no artifact is not read back: a response without artifacts is refused. -/
theorem parse?_sheet_nil :
    ¬ ∀ (lead : List Text) (items : List (Artifact × Setting)), (∀ l ∈ lead, IsProse l) →
      (items.map fun i => i.1.path).Nodup → (∀ i ∈ items, Writable i.1) →
      (∀ i ∈ items, i.2.Fits i.1) → parse? (sheet lead items) = some (items.map Prod.fst) := by
  intro h
  have hnil := h [] [] (by simp) (by simp) (by simp) (by simp)
  exact absurd hnil (by decide)

/-- A widget with a script and an empty template. -/
def widget : Artifact := ⟨"a/w.ts".toList, { script := some "x = 1\n\n y".toList, markup := some [] }⟩

/-- The template first, its tag in capitals, with prose around the parts. -/
def widgetSetting : Setting where
  prose := ["Here it is:".toList]
  parts := [⟨.markup, "HTML".toList, [[]]⟩, ⟨.script, "ts".toList, ["Done.".toList]⟩]

theorem widget_writable : Writable widget where
  path := by
    refine ⟨by decide +kernel, by decide, fun c hc => ?_, fun c hc => ?_⟩
    · rw [← Option.some.inj hc]
      decide
    · rw [← Option.some.inj hc]
      decide
  nonempty := rfl
  content := by
    intro k t h
    cases k with
    | script =>
      obtain rfl : "x = 1\n\n y".toList = t := Option.some.inj h
      refine ⟨by decide, fun c hc => ?_, by decide +kernel, by decide, fun c hc hb => ?_⟩
      · rw [← Option.some.inj hc]
        decide
      · have hall : "x = 1\n\n y".toList.all (fun c => !isLineBreak c || c == '\n') = true := by
          decide
        simpa [hb] using List.all_eq_true.mp hall c hc
    | markup =>
      obtain rfl : [] = t := Option.some.inj h
      exact ⟨by decide, fun c hc => (by cases hc), by decide, by decide, fun c hc => (by cases hc)⟩
    | style => cases h

theorem widgetSetting_fits : widgetSetting.Fits widget where
  kinds := by decide
  tags := by decide
  prose := by
    intro l hl
    obtain rfl : l = "Here it is:".toList := List.mem_singleton.mp hl
    exact ⟨by decide, by decide, by decide⟩
  partProse := by
    intro p hp l hl
    have hall : ∀ p ∈ widgetSetting.parts, ∀ l ∈ p.prose,
        Text.Unbroken l ∧ marker? l = none ∧ ¬ fence <+: skipSpace l := by
      decide
    obtain ⟨h1, h2, h3⟩ := hall p hp l hl
    exact ⟨h1, h2, h3⟩

/-- The sheet of one widget, after a line of prose, is read back. -/
theorem parse?_sheet_widget :
    (([widget].map Artifact.path).Nodup ∧ Writable widget ∧ widgetSetting.Fits widget) ∧
      parse? (sheet [[]] [(widget, widgetSetting)]) = some [widget] := by
  have hlead : ∀ l ∈ [([] : Text)], IsProse l := by
    intro l hl
    rw [List.mem_singleton.mp hl]
    exact ⟨by decide, by decide, by decide⟩
  have hw : ∀ i ∈ [(widget, widgetSetting)], Writable i.1 := by
    intro i hi
    rw [List.mem_singleton.mp hi]
    exact widget_writable
  have hf : ∀ i ∈ [(widget, widgetSetting)], i.2.Fits i.1 := by
    intro i hi
    rw [List.mem_singleton.mp hi]
    exact widgetSetting_fits
  refine ⟨⟨by simp, widget_writable, widgetSetting_fits⟩, ?_⟩
  have hread := (parse?_sheet hlead (by simp) hw hf).2
  rwa [if_neg (by simp), List.map_singleton] at hread

end Graft.Response
