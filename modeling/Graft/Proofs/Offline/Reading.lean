import Graft.Proofs.Artifact.Siblings
import Graft.Proofs.Offline.Script
import Graft.Proofs.Response.Cleanness
import Graft.Proofs.Response.RoundTrip
import Mathlib.Data.List.Nodup

/-
Replies of the model that needs no network, read back.

* `file n k` — the path of a file of a component;
* `pathFor_file`, `base_file` — it keeps its path, and is named after the component;
* `isPlainContent_lines` — lines without marks can stand between fences;
* `items n`, `replyLines_eq` — a reply is the sheet of the three files of a component;
* `parse?_reply` — **it is read back as these files, which make up one component that stands alone and
  whose class is the one that is registered**.

Design notes: what is read of a sheet is known, so all that is left to see is that the reply is one.
-/
namespace Graft.Offline

open Model Name Graft.Path Registration Response Script

theorem isSpace_of_isLineBreak {c : Char} (h : isLineBreak c = true) : isSpace c = true := by
  simp only [isLineBreak, isSpace, Bool.or_eq_true, Bool.and_eq_true, decide_eq_true_eq, beq_iff_eq] at h ⊢
  omega

theorem IsLiteral.not_lineBreak {t : Text} (h : IsLiteral t) : ∀ c ∈ t, isLineBreak c = false := fun c hc =>
  Bool.eq_false_iff.mpr fun hbreak =>
    Bool.false_ne_true ((h.not_space c hc).symm.trans (isSpace_of_isLineBreak hbreak))

/-! ### Files -/

/-- What follows the name of a component in the names of its files. -/
def ending (k : Kind) : Text := ".component.".toList ++ k.extension

/-- The path of a file of a component. -/
def file (n : Text) (k : Kind) : Text := n ++ '/' :: (n ++ ending k)

/-- An ending ends in an extension of the kind. -/
theorem ending_spec (k : Kind) : IsLiteral (ending k) ∧ '/' ∉ ending k ∧
    ∃ e, ending k = ".component".toList ++ '.' :: e ∧ '.' ∉ e ∧ Text.lowercase e ∈ k.extensions := by
  refine ⟨by cases k <;> decide, by cases k <;> decide, k.extension, rfl, ?_⟩
  cases k <;> decide

section
variable {n : Text} (hn : IsComponentName n)
include hn

theorem literal_file (k : Kind) : IsLiteral (file n k) :=
  hn.literal.append (List.forall_mem_cons.mpr ⟨by decide, hn.literal.append (ending_spec k).1⟩)

/-- A name, with something behind it, names an entry of a directory. -/
theorem isName_append {u : Text} (hu : '/' ∉ u) : IsName (n ++ u) := by
  have hslash : '/' ∉ n ++ u := fun h => (List.mem_append.mp h).elim hn.noSlash hu
  obtain ⟨c, cs, rfl⟩ := List.exists_cons_of_ne_nil hn.nonempty
  have hdot : c ≠ '.' := hn.noDot c List.mem_cons_self
  exact ⟨List.cons_ne_nil _ _, fun h => hdot (List.cons.inj h).1, fun h => hdot (List.cons.inj h).1, hslash⟩

theorem isName_leaf (k : Kind) : IsName (n ++ ending k) := isName_append hn (ending_spec k).2.1

theorem isClean_file (k : Kind) : IsClean (file n k) := by
  have hsegment {s : Text} (hs : IsName s) (hliteral : IsLiteral s) : IsClean s := by
    rw [← join_singleton s]
    exact isClean_join (List.cons_ne_nil _ _)
      (List.forall_mem_singleton.mpr ⟨hs, fun hback => (hliteral _ hback).2 rfl⟩)
  have hname := isName_append hn List.not_mem_nil
  rw [List.append_nil] at hname
  exact (hsegment hname hn.literal).append_slash (hsegment (isName_leaf hn k) (hn.literal.append (ending_spec k).1))

theorem lastSegment_file (k : Kind) : lastSegment (file n k) = n ++ ending k :=
  lastSegment_append_slash n (isName_leaf hn k).noSlash

/-- A file of a component keeps its path. -/
theorem pathFor_file (k : Kind) : Artifact.pathFor (file n k) k = file n k := by
  obtain ⟨-, -, e, hending, hdot, hmem⟩ := ending_spec k
  have hany : (n ++ ".component".toList).any (· != '.') = true :=
    List.any_eq_true.mpr ⟨'c', by simp, by decide⟩
  have hown : k.extensions.contains (extension (file n k)) = true := by
    rw [extension, lastSegment_file hn, hending, ← List.append_assoc, rawExtension_append _ hdot, if_pos hany]
    simpa using hmem
  rw [Artifact.pathFor]
  dsimp only
  rw [if_pos hown]

/-- A file of a component is named after the component. -/
theorem base_file (k : Kind) : base (file n k) = n := by
  obtain ⟨-, -, e, hending, -⟩ := ending_spec k
  have hname : ∀ c ∈ n, (c != '.') = true := fun c hc => bne_iff_ne.mpr (hn.noDot c hc)
  have hdot : (".component".toList ++ '.' :: e).takeWhile (· != '.') = [] := rfl
  rw [Artifact.base_of_isClean (isClean_file hn k), lastSegment_file hn, hending,
    List.takeWhile_append_of_pos hname, hdot, List.append_nil]

theorem isPlainPath_file (k : Kind) : IsPlainPath (file n k) := by
  have hliteral := literal_file hn k
  have hstripped : Text.stripped (file n k) = file n k :=
    Text.trim_eq_self (fun c hc => hliteral.not_space c (List.mem_of_mem_head? hc))
      fun c hc => hliteral.not_space c (List.mem_of_mem_getLast? hc)
  exact ⟨Artifact.cleanPath?_of_isClean (isClean_file hn k) hstripped, hliteral.not_lineBreak,
    fun c hc => (hliteral c (List.mem_of_mem_head? hc)).1,
    fun c hc => (hliteral c (List.mem_of_mem_getLast? hc)).1⟩

end

/-! ### Texts between fences -/

/-- A line without hashes and backticks. -/
def IsUnmarked (l : Text) : Prop := ∀ c ∈ l, isLineBreak c = false ∧ c ≠ '#' ∧ c ≠ '\x60'

instance (l : Text) : Decidable (IsUnmarked l) := List.decidableBAll _ _

theorem IsUnmarked.append {a b : Text} (ha : IsUnmarked a) (hb : IsUnmarked b) : IsUnmarked (a ++ b) :=
  List.forall_mem_append.mpr ⟨ha, hb⟩

theorem IsLiteral.isUnmarked {t : Text} (h : IsLiteral t) : IsUnmarked t := by
  intro c hc
  have hne {d : Char} (hd : isEdge d = true) : c ≠ d := by
    rintro rfl
    rw [(h c hc).1] at hd
    cases hd
  exact ⟨h.not_lineBreak c hc, hne (by decide), hne (by decide)⟩

theorem marker?_of_unmarked {l : Text} (h : IsUnmarked l) : marker? l = none := by
  have hnone : Text.after? "###".toList (skipSpace l) = none := by
    rw [Text.after?_eq_none_iff]
    intro hlead
    have hmem : '#' ∈ l := (List.dropWhile_sublist _).subset (hlead.subset (by decide))
    exact (h _ hmem).2.1 rfl
  rw [marker?, hnone]
  rfl

/-- Lines without marks, the first not blank and the last not white at its end, can stand between fences. -/
theorem isPlainContent_lines {ls : List Text} (hls : ∀ l ∈ ls, IsUnmarked l) (hne : ls ≠ [])
    (hfirst : ∀ l ∈ ls.head?, Text.isBlank l = false)
    (hlast : ∀ c ∈ (['\n'].intercalate ls).getLast?, isSpace c = false) :
    contentLines (['\n'].intercalate ls) = ls ∧ IsPlainContent (['\n'].intercalate ls) := by
  have hnewline : ∀ l ∈ ls, '\n' ∉ l := fun l hl h => by
    have hbreak := (hls l hl _ h).1
    exact absurd hbreak (by decide)
  have hlines : contentLines (['\n'].intercalate ls) = ls := by
    obtain ⟨l, more, rfl⟩ := List.exists_cons_of_ne_nil hne
    have hin : l <:+: ['\n'].intercalate (l :: more) := Text.infix_of_mem_intercalate List.mem_cons_self
    obtain ⟨c, hc, -⟩ := Text.exists_of_isBlank_eq_false (hfirst l rfl)
    rw [contentLines, if_neg (by simpa using List.ne_nil_of_mem (hin.subset hc)),
      List.splitOn_intercalate '\n' hnewline hne]
  refine ⟨hlines, ⟨by rwa [hlines], hlast, ?_, ?_, ?_⟩⟩
  · intro hfence
    rcases Text.mem_intercalate (hfence.subset (by decide : '\x60' ∈ fence)) with h | ⟨l, hl, hmem⟩
    · exact absurd h (by decide)
    · exact (hls l hl _ hmem).2.2 rfl
  · rw [hlines]
    exact fun l hl => marker?_of_unmarked (hls l hl)
  · intro c hc hbreak
    rcases Text.mem_intercalate hc with rfl | ⟨l, hl, hcl⟩
    · rfl
    · rw [(hls l hl c hcl).1] at hbreak
      cases hbreak

/-! ### The reply -/

/-- The template of a component. -/
def markup : Text := "<div class=\"p-4 rounded shadow\">\x7b\x7b title \x7d\x7d</div>".toList

/-- A file of a component, in the setting in which a reply has it. -/
def item (n : Text) (k : Kind) (tag t : Text) : Artifact × Setting :=
  (⟨file n k, Contents.set {} k t⟩, { parts := [⟨k, tag, [[]]⟩] })

/-- The files of a component, as a reply has them. -/
def items (n : Text) : List (Artifact × Setting) :=
  [item n .script "typescript".toList (script n), item n .markup "html".toList markup,
    item n .style "scss".toList []]

theorem fits_item (n : Text) {k : Kind} {tag : Text} (htag : (Text.lowerAscii tag, k) ∈ languages) (t : Text) :
    (item n k tag t).2.Fits (item n k tag t).1 where
  kinds := by cases k <;> exact List.Perm.refl _
  tags := List.forall_mem_singleton.mpr htag
  prose := List.forall_mem_nil _
  partProse := List.forall_mem_singleton.mpr (List.forall_mem_singleton.mpr ⟨by decide, by decide, by decide⟩)

theorem markup_content : contentLines markup = [markup] ∧ IsPlainContent markup := by
  have hmarkup : ∀ l ∈ [markup], IsUnmarked l := List.forall_mem_singleton.mpr (by decide)
  have hcontent := isPlainContent_lines hmarkup (List.cons_ne_nil _ _)
    (fun l hl => by rw [← Option.some.inj hl]; decide) (fun c hc => by rw [← Option.some.inj hc]; decide)
  rwa [List.intercalate_singleton] at hcontent

theorem empty_content : IsPlainContent [] :=
  ⟨by decide, fun c hc => (by cases hc), by decide, by decide, fun c hc => (by cases hc)⟩

/-- The line that announces a file. -/
theorem announcement_file (n : Text) (k : Kind) : "### filename: ".toList ++ n ++ '/' :: n ++
    ".component.".toList ++ k.extension ++ " ###".toList = announcement (file n k) := by
  -- The literals are kept opaque: reducing them is slow.
  have happend (a b c e : Text) : a ++ n ++ '/' :: n ++ b ++ e ++ c = a ++ (n ++ '/' :: (n ++ (b ++ e))) ++ c := by
    simp only [List.append_assoc, List.cons_append]
  exact happend _ _ _ _

section
variable {n : Text} (hn : IsComponentName n)
include hn

theorem writable_item (k : Kind) (tag : Text) {t : Text} (ht : IsPlainContent t) :
    Writable (item n k tag t).1 where
  path := isPlainPath_file hn k
  nonempty := by cases k <;> rfl
  content := by
    intro j u hu
    rw [item, Contents.get?_set] at hu
    split at hu
    · rwa [← Option.some.inj hu]
    · cases j <;> cases hu

theorem script_content : contentLines (script n) = scriptLines n ∧ IsPlainContent (script n) := by
  have haround {a t b : Text} (ht : IsLiteral t) (ha : IsUnmarked a) (hb : IsUnmarked b) :
      IsUnmarked (a ++ t ++ b) := (ha.append ht.isUnmarked).append hb
  have hends : scriptLines n = (scriptLines n).take 10 ++ [['\x7d']] := rfl
  refine isPlainContent_lines ?_ (List.cons_ne_nil _ _) (fun l hl => ?_) (fun c hc => ?_)
  · simp only [scriptLines, replyLines, List.drop, List.take, List.forall_mem_cons]
    exact ⟨by decide, by decide, by decide, haround hn.literal (by decide) (by decide), by decide,
      haround hn.literal (by decide) (by decide), haround hn.literal (by decide) (by decide), by decide,
      haround (isLiteral_pascal n) (by decide) (by decide), haround (isLiteral_pascal n) (by decide) (by decide),
      by decide, List.forall_mem_nil _⟩
  · rw [← Option.some.inj hl]
    decide
  · have hfront : (scriptLines n).take 10 ≠ [] := List.cons_ne_nil _ _
    rw [hends, Text.intercalate_append hfront (List.cons_ne_nil _ _), List.getLast?_append] at hc
    rw [← Option.some.inj hc]
    decide

/-- **A reply is the sheet of the files of a component.** -/
theorem replyLines_eq : replyLines n = sheetLines [] (items n) := by
  have hlines : replyLines n = (replyLines n).take 2 ++ (scriptLines n ++ (replyLines n).drop 13) := by
    rw [scriptLines, ← List.drop_drop (i := 11) (j := 2), List.take_append_drop, List.take_append_drop]
  have hfirst : (replyLines n).take 2 = [announcement (file n .script), fence ++ "typescript".toList] := by
    rw [← announcement_file]
    rfl
  have hrest : (replyLines n).drop 13 = fence :: [] :: announcement (file n .markup) :: (fence ++ "html".toList) ::
      (contentLines markup ++ fence :: [] :: announcement (file n .style) :: (fence ++ "scss".toList) ::
        (contentLines [] ++ [fence, []])) := by
    rw [← announcement_file, ← announcement_file, markup_content.1]
    rfl
  rw [hlines, hfirst, hrest, ← (script_content hn).1]
  simp only [sheetLines, items, item, List.flatMap_cons, List.flatMap_nil, Setting.lines, Part.lines,
    List.append_assoc, List.nil_append, List.append_nil, List.cons_append]
  rfl

theorem parse?_sheet_items : parse? (sheet [] (items n)) = some ((items n).map Prod.fst) := by
  have hw : ∀ i ∈ items n, Writable i.1 :=
    List.forall_mem_cons.mpr ⟨writable_item hn _ _ (script_content hn).2,
      List.forall_mem_cons.mpr ⟨writable_item hn _ _ markup_content.2,
        List.forall_mem_singleton.mpr (writable_item hn _ _ empty_content)⟩⟩
  have hf : ∀ i ∈ items n, i.2.Fits i.1 :=
    List.forall_mem_cons.mpr ⟨fits_item n (by decide) _, List.forall_mem_cons.mpr ⟨fits_item n (by decide) _,
      List.forall_mem_singleton.mpr (fits_item n (by decide) _)⟩⟩
  -- The path of a file tells its kind.
  have hmarks (k : Kind) : k.Marks (file n k) := by
    rw [← pathFor_file hn k]
    exact Artifact.marks_pathFor _ k
  have hpaths : ((items n).map fun i => i.1.path).Nodup :=
    List.Nodup.map (f := file n) (fun k j h => (hmarks k).unique (h ▸ hmarks j)) (by decide : Kind.all.Nodup)
  rw [parse?, artifacts_sheet (List.forall_mem_nil _) hpaths hw hf]
  rfl

end

/-- **The reply to a payload is read back as three files of one component.**  They are called by the name that
is asked for, or by the default name, each holds its own kind under its own path, and all have the name as their
identifier.  The component stands alone, and the class that is registered for it is the one that its script
exports. -/
theorem parse?_reply (p : Payload) : ∃ t n script markup style : Text,
    reply p = .text t.wide ∧ n = (if kebab (asked p) = [] then defaultName else kebab (asked p)) ∧
    parse? t = some [⟨file n .script, { script := some script }⟩,
      ⟨file n .markup, { markup := some markup }⟩, ⟨file n .style, { style := some style }⟩] ∧
    (∀ k, Artifact.pathFor (file n k) k = file n k ∧ Name.id (file n k) = n) ∧
    Role.ofScript script = .composed ∧
    (exported? script).getD (symbol (file n .script) componentSuffix) = pascal n ++ componentSuffix ∧
    ∀ name, Exports (tokens script) name ↔ name = pascal n ++ componentSuffix := by
  have hn := isComponentName p
  refine ⟨replyText p, componentName p, script (componentName p), markup, [], rfl, componentName_eq p, ?_,
    fun k => ⟨pathFor_file hn k, ?_⟩, ofScript_script hn, ?_, fun name => exports_script_iff hn⟩
  · rw [replyText, replyLines_eq hn]
    exact parse?_sheet_items hn
  · rw [Name.id, base_file hn, hn.kebab.kebab_eq]
  · cases h : exported? (script (componentName p)) with
    | none => rw [Option.getD_none, symbol, base_file hn]
    | some s => exact exported?_script hn h

end Graft.Offline
