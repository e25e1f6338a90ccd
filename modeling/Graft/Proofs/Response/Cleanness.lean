import Graft.Proofs.Response.Merging
import Graft.Proofs.Response.Paths
import Mathlib.Data.List.Infix

/-
What every artifact of a response is like, whatever the response.

* `IsCleanContent t` — a text as a fenced part gives it;
* `IsPartLine l` — a line as it is taken into a fenced part;
* `isCleanContent_partText` — part lines make a clean text;
* `CleanContents`, `OpenBlock.Clean` — what holds of a block while it is read;
* `clean_read` — one line keeps it, whether it opens a part, goes on with one or closes it;
* `artifacts_clean` — **the artifacts of any response have different clean paths, at least one kind
  each, and clean texts only**.

Design notes: a line enters a part in three ways, as a whole, up to a closing fence, or behind an
opening fence and its tag.  Each of them takes a part of a line of the response, so it is unbroken;
that it holds no fence is settled where it is taken, in `clean_readFenced`.
-/
namespace Graft

/-! ### Texts put together from lines -/

namespace Text

/-- Without newlines, a part of lines put together is a part of one of them. -/
theorem exists_infix_of_infix_intercalate {part : Text} (hne : part ≠ []) (hnl : '\n' ∉ part) :
    ∀ {ls : List Text}, part <:+: ['\n'].intercalate ls → ∃ l ∈ ls, part <:+: l
  | [], h => absurd (List.infix_nil.mp h) hne
  | [l], h => ⟨l, List.mem_singleton_self l, by rwa [List.intercalate_singleton] at h⟩
  | l :: l' :: ls, h => by
    have hstart (rest : Text) {a : Text} (ha : a <+: '\n' :: rest) (hin : ∀ c ∈ a, c ∈ part) :
        a = [] := by
      rcases List.prefix_cons_iff.mp ha with rfl | ⟨b, rfl, -⟩
      · rfl
      · exact absurd (hin '\n' List.mem_cons_self) hnl
    rw [List.intercalate_cons_cons, List.append_assoc, List.singleton_append,
      List.infix_append_iff, List.infix_cons_iff] at h
    rcases h with h | (h | h) | ⟨a, b, rfl, ha, hb⟩
    · exact ⟨l, List.mem_cons_self, h⟩
    · exact absurd (hstart _ h fun _ hc => hc) hne
    · obtain ⟨m, hm, hpart⟩ := exists_infix_of_infix_intercalate hne hnl h
      exact ⟨m, List.mem_cons_of_mem l hm, hpart⟩
    · -- A part that goes on behind the line would hold the newline.
      obtain rfl := hstart _ hb fun c hc => List.mem_append_right a hc
      rw [List.append_nil]
      exact ⟨l, List.mem_cons_self, ha.isInfix⟩

/-- What is trimmed away at the end is all of the kind that is trimmed. -/
theorem mem_rdropWhile {p : Char → Bool} {t : Text} {c : Char} (h : c ∈ t) (hc : p c = false) :
    c ∈ t.rdropWhile p := by
  rw [← List.mem_reverse, ← List.takeWhile_append_dropWhile (p := p) (l := t.reverse),
    List.mem_append] at h
  rcases h with h | h
  · exact absurd (List.mem_takeWhile_imp h) (by rw [hc]; decide)
  · exact List.mem_reverse.mpr h

theorem exists_of_isBlank_eq_false {l : Text} (h : isBlank l = false) :
    ∃ c ∈ l, isSpace c = false := by
  simpa [isBlank] using h

theorem isBlank_eq_false {l : Text} {c : Char} (h : c ∈ l) (hc : isSpace c = false) :
    isBlank l = false := by
  simp only [isBlank, List.all_eq_false]
  exact ⟨c, h, by rw [hc]; decide⟩

end Text

namespace Response

/-! ### Clean texts -/

/-- A text as a fenced part gives it. -/
structure IsCleanContent (t : Text) : Prop where
  -- It is empty, or its first line is not blank.
  first : ∀ l ∈ (Text.lines t).head?, Text.isBlank l = false
  -- It has no white space at its end.
  last : ∀ c ∈ t.getLast?, isSpace c = false
  noFence : ¬ fence <:+: t
  -- Its lines end with newlines only.
  breaks : ∀ c ∈ t, isLineBreak c = true → c = '\n'

/-- A line as it is taken into a fenced part. -/
structure IsPartLine (l : Text) : Prop where
  unbroken : Text.Unbroken l
  noFence : ¬ fence <:+: l

/-- The first line of a text that begins with a line that is not blank. -/
theorem lines_trimRight_head {m rest : Text} (hm : Text.Unbroken m) (hblank : Text.isBlank m = false)
    (hrest : rest = [] ∨ ∃ more, rest = '\n' :: more) :
    ∀ l ∈ (Text.lines (Text.trimRight isSpace (m ++ rest))).head?, Text.isBlank l = false := by
  intro l hl
  obtain ⟨c, hc, hspace⟩ := Text.exists_of_isBlank_eq_false hblank
  rw [Text.trimRight_eq_rdropWhile] at hl
  have hkept : c ∈ (m ++ rest).rdropWhile isSpace :=
    Text.mem_rdropWhile (List.mem_append_left rest hc) hspace
  have hprefix := List.rdropWhile_prefix isSpace (m ++ rest)
  generalize (m ++ rest).rdropWhile isSpace = u at hl hkept hprefix
  rcases List.prefix_or_prefix_of_prefix hprefix (List.prefix_append m rest) with hle | ⟨v, rfl⟩
  · -- What is left ends within the first line.
    have hu : Text.Unbroken u := fun d hd => hm d (hle.subset hd)
    rw [Text.lines_of_unbroken hu (List.ne_nil_of_mem hkept)] at hl
    rw [← Option.some.inj hl]
    exact Text.isBlank_eq_false hkept hspace
  · have hv : v <+: rest := (List.prefix_append_right_inj m).mp hprefix
    have hlines : (Text.lines (m ++ v)).head? = some m := by
      rcases v with _ | ⟨d, v⟩
      · rw [List.append_nil, Text.lines_of_unbroken hm (List.ne_nil_of_mem hc)]
        rfl
      · obtain rfl : d = '\n' := by
          rcases hrest with rfl | ⟨more, rfl⟩
          · exact absurd (List.prefix_nil.mp hv) (List.cons_ne_nil _ _)
          · exact (List.cons_prefix_cons.mp hv).1
        rw [Text.lines_append_newline hm]
        rfl
    rw [hlines] at hl
    rwa [← Option.some.inj hl]

/-- **Part lines make a clean text.** -/
theorem isCleanContent_partText {ls : List Text} (h : ∀ l ∈ ls, IsPartLine l) :
    IsCleanContent (partText ls) := by
  have hms : ∀ l ∈ ls.dropWhile Text.isBlank, IsPartLine l :=
    fun l hl => h l ((List.dropWhile_sublist _).subset hl)
  have hfirst : ∀ l ∈ (ls.dropWhile Text.isBlank).head?, Text.isBlank l = false := by
    intro l hl
    have := List.head?_dropWhile_not Text.isBlank ls
    rw [Option.mem_def.mp hl] at this
    simpa using this
  have hprefix : partText ls <+: ['\n'].intercalate (ls.dropWhile Text.isBlank) := by
    rw [partText, Text.trimRight_eq_rdropWhile]
    exact List.rdropWhile_prefix _ _
  refine ⟨?_, ?_, fun hf => ?_, fun c hc hb => ?_⟩
  · rw [partText]
    cases hshape : ls.dropWhile Text.isBlank with
    | nil => exact fun l hl => by cases hl
    | cons m ms =>
      rw [hshape] at hms hfirst
      have hm := (hms m List.mem_cons_self).unbroken
      have hblank := hfirst m rfl
      cases ms with
      | nil =>
        rw [List.intercalate_singleton, ← List.append_nil m]
        exact lines_trimRight_head hm hblank (.inl rfl)
      | cons m' ms =>
        rw [List.intercalate_cons_cons, List.append_assoc]
        exact lines_trimRight_head hm hblank (.inr ⟨_, rfl⟩)
  · rw [partText, Text.trimRight_eq_rdropWhile]
    intro c hc
    obtain ⟨hne, rfl⟩ := List.mem_getLast?_eq_getLast hc
    exact Bool.eq_false_iff.mpr (List.rdropWhile_last_not _ _ hne)
  · obtain ⟨l, hl, hin⟩ := Text.exists_infix_of_infix_intercalate (by decide) (by decide)
      (hf.trans hprefix.isInfix)
    exact (hms l hl).noFence hin
  · by_contra hne
    have hin : [c] <:+: ['\n'].intercalate (ls.dropWhile Text.isBlank) :=
      ((List.singleton_infix_iff c _).mpr hc).trans hprefix.isInfix
    obtain ⟨l, hl, hin⟩ := Text.exists_infix_of_infix_intercalate (List.cons_ne_nil _ _)
      (fun h => hne (List.mem_singleton.mp h).symm) hin
    have hfalse := (hms l hl).unbroken c (hin.subset (List.mem_singleton_self c))
    rw [hb] at hfalse
    cases hfalse

/-! ### Reading lines -/

/-- Contents all of whose texts are clean. -/
def CleanContents (c : Contents) : Prop := ∀ k t, c.get? k = some t → IsCleanContent t

theorem cleanContents_empty : CleanContents {} := fun k t ht => by cases k <;> cases ht

theorem CleanContents.set {c : Contents} (h : CleanContents c) (k : Kind) {t : Text}
    (ht : IsCleanContent t) : CleanContents (c.set k t) := by
  intro j u hu
  rw [Contents.get?_set] at hu
  split at hu
  · rwa [← Option.some.inj hu]
  · exact h j u hu

theorem CleanContents.override {c later : Contents} (h : CleanContents c)
    (hlater : CleanContents later) : CleanContents (c.override later) := by
  intro k t ht
  rw [Contents.get?_override, Option.or_eq_some_iff] at ht
  exact ht.elim (hlater k t) fun ht => h k t ht.2

/-- An open block whose texts are clean, as those of an open part will be. -/
structure OpenBlock.Clean (o : OpenBlock) : Prop where
  contents : CleanContents o.block.contents
  lines : ∀ f ∈ o.fenced, ∀ l ∈ f.lines, IsPartLine l

/-- What stands before the first fence of a line holds none. -/
theorem noFence_of_before? {line part : Text} (h : Text.before? fence line = some part) :
    ¬ fence <:+: part := by
  rintro ⟨a, b, rfl⟩
  obtain ⟨⟨rest, rfl⟩, hleast⟩ := Text.before?_eq_some_iff.mp h
  have hle := hleast a (b ++ (fence ++ rest)) (by simp only [List.append_assoc])
  have hfence : 0 < fence.length := by decide
  simp only [List.length_append] at hle
  omega

theorem clean_add {b : Block} {f : Fenced} (hb : CleanContents b.contents)
    (hf : ∀ l ∈ f.lines, IsPartLine l) : CleanContents (b.add f).contents := by
  unfold Block.add
  split
  case h_1 k hk => exact hb.set k (isCleanContent_partText hf)
  case h_2 => exact hb

theorem clean_close {o : OpenBlock} (h : o.Clean) : CleanContents o.close.contents := by
  unfold OpenBlock.close
  split
  case h_1 f hf => exact clean_add h.contents (h.lines f hf)
  case h_2 => exact h.contents

/-- A line inside a part goes into it, up to a fence. -/
theorem clean_readFenced {b : Block} {f : Fenced} {line : Text} (hb : CleanContents b.contents)
    (hf : ∀ l ∈ f.lines, IsPartLine l) (hline : Text.Unbroken line) :
    (OpenBlock.readFenced b f line).Clean := by
  have hconcat {part : Text} (hpart : IsPartLine part) : ∀ l ∈ f.lines ++ [part], IsPartLine l :=
    List.forall_mem_append.mpr ⟨hf, List.forall_mem_singleton.mpr hpart⟩
  unfold OpenBlock.readFenced
  split
  case h_1 hnone =>
    refine ⟨hb, fun g hg => ?_⟩
    obtain rfl := Option.some.inj hg
    exact hconcat ⟨hline, (Text.before?_eq_none_iff (by decide)).mp hnone⟩
  case h_2 part hsome =>
    obtain ⟨⟨rest, hrest⟩, -⟩ := Text.before?_eq_some_iff.mp hsome
    have hunbroken : Text.Unbroken part := fun c hc => hline c (by
      rw [hrest]
      exact List.mem_append_left _ hc)
    refine ⟨clean_add hb (hconcat ⟨hunbroken, noFence_of_before? hsome⟩), fun g hg => ?_⟩
    cases hg

theorem ofText_rest_suffix (t : Text) : (Opening.ofText t).rest <:+ t := by
  rw [Opening.ofText]
  split
  · exact List.drop_suffix _ _
  · split <;> exact List.drop_suffix _ _

theorem afterTag_suffix (t : Text) : afterTag t <:+ t := by
  unfold afterTag
  split
  · exact List.suffix_cons _ _
  · exact List.suffix_rfl

/-- A line outside of parts opens one at most, and what follows its tag goes into that. -/
theorem clean_readProse {b : Block} {line : Text} (hb : CleanContents b.contents)
    (hline : Text.Unbroken line) : (OpenBlock.readProse b line).Clean := by
  unfold OpenBlock.readProse
  split
  case h_1 =>
    refine ⟨hb, fun f hf => ?_⟩
    cases hf
  case h_2 rest hrest =>
    dsimp only
    have hsuffix : afterTag (Opening.ofText rest).rest <:+ line :=
      ((afterTag_suffix _).trans (ofText_rest_suffix rest)).trans
        ((suffix_of_after? hrest).trans (skipSpace_suffix line))
    split
    · refine ⟨hb, fun f hf => ?_⟩
      rw [← Option.some.inj hf]
      exact List.forall_mem_nil _
    · exact clean_readFenced hb (List.forall_mem_nil _) fun c hc => hline c (hsuffix.subset hc)

/-- Reading a line keeps a block clean. -/
theorem clean_read {o : OpenBlock} {line : Text} (h : o.Clean) (hline : Text.Unbroken line) :
    (o.read line).Clean := by
  unfold OpenBlock.read
  split
  case h_1 f hf => exact clean_readFenced h.contents (h.lines f hf) hline
  case h_2 => exact clean_readProse h.contents hline

/-- The blocks of any lines are clean when the one that is open is. -/
theorem clean_of_mem_blocksFrom {current : Option OpenBlock} {ls : List Text}
    (hcurrent : ∀ o ∈ current, o.Clean) (hls : ∀ l ∈ ls, Text.Unbroken l) :
    ∀ b ∈ blocksFrom current ls, CleanContents b.contents := by
  have hclosed {current : Option OpenBlock} (h : ∀ o ∈ current, o.Clean) :
      ∀ b ∈ (current.map OpenBlock.close).toList, CleanContents b.contents := by
    intro b hb
    obtain ⟨o, ho, rfl⟩ := Option.map_eq_some_iff.mp (Option.mem_toList.mp hb)
    exact clean_close (h o ho)
  induction ls generalizing current with
  | nil => exact hclosed hcurrent
  | cons l ls ih =>
    obtain ⟨hl, hrest⟩ := List.forall_mem_cons.mp hls
    rw [blocksFrom]
    split
    case h_1 path _ =>
      refine List.forall_mem_append.mpr ⟨hclosed hcurrent, ih (fun o ho => ?_) hrest⟩
      obtain rfl := Option.some.inj ho
      exact ⟨cleanContents_empty, fun f hf => by cases hf⟩
    case h_2 =>
      refine ih (fun o' ho' => ?_) hrest
      obtain ⟨o, ho, rfl⟩ := Option.map_eq_some_iff.mp ho'
      exact clean_read (hcurrent o ho) hl

theorem clean_of_mem_blocks {t : Text} : ∀ b ∈ blocks t, CleanContents b.contents :=
  clean_of_mem_blocksFrom (fun _ ho => by cases ho) fun _ hl _ hc => (Text.mem_of_mem_lines hl hc).2

/-! ### Artifacts -/

theorem clean_addContents {path : Text} {c : Contents} {as : List Artifact} (hc : CleanContents c)
    (has : ∀ a ∈ as, CleanContents a.contents) :
    ∀ a ∈ addContents path c as, CleanContents a.contents := by
  induction as with
  | nil => exact List.forall_mem_singleton.mpr hc
  | cons a as ih =>
    obtain ⟨ha, hrest⟩ := List.forall_mem_cons.mp has
    rw [addContents]
    split
    · exact List.forall_mem_cons.mpr ⟨ha.override hc, hrest⟩
    · exact List.forall_mem_cons.mpr ⟨ha, ih hrest⟩

theorem clean_addBlock {as : List Artifact} {b : Block} (hb : CleanContents b.contents)
    (has : ∀ a ∈ as, CleanContents a.contents) : ∀ a ∈ addBlock as b, CleanContents a.contents := by
  unfold addBlock
  split
  · exact has
  · split
    · exact has
    · exact clean_addContents hb has

theorem clean_of_mem_artifacts {t : Text} : ∀ a ∈ artifacts t, CleanContents a.contents := by
  have hfold (bs : List Block) (hbs : ∀ b ∈ bs, CleanContents b.contents) :
      ∀ as, (∀ a ∈ as, CleanContents a.contents) →
        ∀ a ∈ bs.foldl addBlock as, CleanContents a.contents := by
    induction bs with
    | nil => exact fun as has => has
    | cons b bs ih =>
      obtain ⟨hb, hrest⟩ := List.forall_mem_cons.mp hbs
      exact fun as has => ih hrest _ (clean_addBlock hb has)
  exact hfold _ clean_of_mem_blocks [] (List.forall_mem_nil _)

theorem kinds_ne_nil {c : Contents} (h : c.isEmpty = false) : c.kinds ≠ [] := by
  intro hnil
  have hnone : ∀ k, c.get? k = none := fun k => by
    have hk : k ∉ c.kinds := by
      rw [hnil]
      exact List.not_mem_nil
    rwa [mem_kinds_iff, Bool.not_eq_true, Option.isSome_eq_false_iff,
      Option.isNone_iff_eq_none] at hk
  have hempty : c = {} := contents_ext fun k => (hnone k).trans (by cases k <;> rfl)
  rw [hempty] at h
  cases h

/-- **Whatever the response, its artifacts are clean.**  They have different paths; each path names a
file below where it is read from, segment by segment; each holds at least one kind, and lists its kinds
in the order of writing; and each text is empty or begins with a line that is not blank, has no white
space at its end, no fence and no line boundary but newlines. -/
theorem artifacts_clean (t : Text) :
    ((artifacts t).map Artifact.path).Nodup ∧
    ∀ a ∈ artifacts t,
      (a.path ≠ [] ∧ '\\' ∉ a.path ∧ a.path.head? ≠ some '/' ∧
        ∀ s ∈ Path.split a.path, s ≠ [] ∧ s ≠ Path.here ∧ s ≠ Path.above) ∧
      (a.contents.kinds ≠ [] ∧ a.contents.kinds.Sublist [.script, .markup, .style]) ∧
      ∀ k c, a.contents.get? k = some c → IsCleanContent c := by
  refine ⟨distinct_artifacts t, fun a ha => ⟨?_, ?_, clean_of_mem_artifacts a ha⟩⟩
  · obtain ⟨hpath, -⟩ := path_of_mem_artifacts ha
    refine ⟨hpath.ne_nil, hpath.noBackslash, hpath.head_ne_slash, fun s hs => ?_⟩
    have hname := hpath.names s hs
    exact ⟨hname.nonempty, hname.notHere, hname.notAbove⟩
  · exact ⟨kinds_ne_nil (isEmpty_of_mem_artifacts ha), List.filter_sublist⟩

/-- A path in two spellings, the second with a glued tag; a closing fence of six marks, an opening one
of four, and parts that are never closed. -/
def tangledResponse : Text :=
  ("### filename: /a\\b.ts ###\n\x60\x60\x60ts  \n \r\n x \ry\x60\x60\x60\x60\x60\x60\n" ++
    "\x60\x60\x60\x60q \n\n### filename: a//./b.ts\n\x60\x60\x60html<b>\n i \n").toList

theorem artifacts_clean_tangled :
    artifacts tangledResponse =
        [⟨"a/b.ts".toList, { script := some "\x60q".toList, markup := some "<b>\n i".toList }⟩] ∧
      IsCleanContent "\x60q".toList ∧ IsCleanContent "<b>\n i".toList := by
  have hread : artifacts tangledResponse =
      [⟨"a/b.ts".toList, { script := some "\x60q".toList, markup := some "<b>\n i".toList }⟩] := by
    decide +kernel
  obtain ⟨-, hall⟩ := artifacts_clean tangledResponse
  rw [hread] at hall
  obtain ⟨-, -, hclean⟩ := hall _ (List.mem_singleton_self _)
  exact ⟨hread, hclean .script _ rfl, hclean .markup _ rfl⟩

end Response
end Graft
