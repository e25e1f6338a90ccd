import Graft.Proofs.Text.Lines
import Graft.Response.Artifacts

/-
Sheets: artifacts in their written form.

A sheet writes each artifact as the line that announces its path, followed by one fenced part for
each of its kinds, in any order.  Lines of prose may stand anywhere outside of the fences.

* `sheet lead items` — the sheet of artifacts, each with its setting;
* `Writable a`, `Setting.Fits a s` — what a sheet asks of an artifact and of its setting;
* `blocksFrom_part`, `blocksFrom_setting` — what is read of one fenced part, and of one artifact.

Design notes: a setting holds what the format leaves open (the order of the kinds, their tags and
the prose), so a sheet is a function of artifacts and settings.
-/
namespace Graft.Response

/-! ### The written form -/

/-- The line that announces a path. -/
def announcement (path : Text) : Text := "### filename: ".toList ++ path ++ " ###".toList

/-- The lines of a text between its fences; an empty text has none. -/
def contentLines (t : Text) : List Text := if t.isEmpty then [] else t.splitOn '\n'

/-- What is chosen for one fenced part: the kind, the tag and the prose after it. -/
structure Part where
  -- The kind whose text the part holds.
  kind : Kind
  -- The tag on the opening fence.
  tag : Text
  -- The lines after the closing fence.
  prose : List Text := []

/-- What is chosen for one artifact: the prose after its announcement, and its parts in order. -/
structure Setting where
  -- The lines before the first fence.
  prose : List Text := []
  parts : List Part

/-- The text that a part of an artifact holds. -/
def Part.content (a : Artifact) (p : Part) : Text := (a.contents.get? p.kind).getD []

/-- The lines of a part. -/
def Part.lines (a : Artifact) (p : Part) : List Text :=
  (fence ++ p.tag) :: (contentLines (p.content a) ++ fence :: p.prose)

/-- The lines of an artifact. -/
def Setting.lines (a : Artifact) (s : Setting) : List Text :=
  announcement a.path :: (s.prose ++ s.parts.flatMap (Part.lines a))

/-- The lines of artifacts, after some prose. -/
def sheetLines (lead : List Text) (items : List (Artifact × Setting)) : List Text :=
  lead ++ items.flatMap fun i => i.2.lines i.1

/-- The sheet of artifacts, after some prose. -/
def sheet (lead : List Text) (items : List (Artifact × Setting)) : Text :=
  ['\n'].intercalate (sheetLines lead items)

/-! ### What can be written -/

/-- A line of prose: neither a marker nor an opening fence. -/
structure IsProse (l : Text) : Prop where
  unbroken : Text.Unbroken l
  noMarker : marker? l = none
  -- It does not start with a fence.
  noFence : ¬ fence <+: skipSpace l

/-- A character that an announced path neither starts nor ends with. -/
def isEdge (c : Char) : Bool := isSpace c || isTrimming c

/-- A path that can be announced. -/
structure IsPlainPath (path : Text) : Prop where
  clean : Artifact.cleanPath? path = some path
  unbroken : Text.Unbroken path
  -- Its first character belongs to it.
  first : ∀ c ∈ path.head?, isEdge c = false
  -- Its last character belongs to it.
  last : ∀ c ∈ path.getLast?, isEdge c = false

/-- A text that can stand between fences. -/
structure IsPlainContent (t : Text) : Prop where
  -- It is empty, or its first line is not blank.
  first : ∀ l ∈ (contentLines t).head?, Text.isBlank l = false
  -- It has no white space at its end.
  last : ∀ c ∈ t.getLast?, isSpace c = false
  noFence : ¬ fence <:+: t
  -- None of its lines is a marker.
  noMarker : ∀ l ∈ contentLines t, marker? l = none
  -- Its lines end with newlines only.
  breaks : ∀ c ∈ t, isLineBreak c = true → c = '\n'

/-- An artifact that can be written. -/
structure Writable (a : Artifact) : Prop where
  -- Its path can be announced.
  path : IsPlainPath a.path
  nonempty : a.contents.isEmpty = false
  -- Its texts can stand between fences.
  content : ∀ k t, a.contents.get? k = some t → IsPlainContent t

/-- A setting for an artifact: its kinds in some order, with tags for them, and prose. -/
structure Setting.Fits (a : Artifact) (s : Setting) : Prop where
  -- Each kind of the artifact has one part.
  kinds : (s.parts.map Part.kind).Perm a.contents.kinds
  -- The tags are those of the kinds, in any letter case.
  tags : ∀ p ∈ s.parts, (Text.lowerAscii p.tag, p.kind) ∈ languages
  -- The lines before the first fence are prose.
  prose : ∀ l ∈ s.prose, IsProse l
  -- The lines after each part are prose.
  partProse : ∀ p ∈ s.parts, ∀ l ∈ p.prose, IsProse l

/-! ### Reading one line -/

theorem onlyLine?_of_unbroken {t : Text} (h : Text.Unbroken t) : onlyLine? t = some t := by
  have hnil : t.dropWhile (· != '\n') = [] := by
    rw [List.dropWhile_eq_nil_iff]
    intro c hc
    rw [bne_iff_ne]
    rintro rfl
    exact absurd (h _ hc) (by decide)
  rw [onlyLine?, hnil]

theorem isEdge_eq_false {c : Char} (h : isEdge c = false) :
    isSpace c = false ∧ isTrimming c = false := by
  simpa [isEdge] using h

theorem IsPlainPath.ne_nil {path : Text} (h : IsPlainPath path) : path ≠ [] := by
  rintro rfl
  exact absurd h.clean (by decide)

theorem trimmedPath_announced {path : Text} (h : IsPlainPath path) :
    trimmedPath (path ++ " ###".toList) = path := by
  have hstart : ∀ c ∈ path.head?, isSpace c = false := fun c hc => (isEdge_eq_false (h.first c hc)).1
  have hwhole : Text.stripped (path ++ " ###".toList) = path ++ " ###".toList := by
    apply Text.trim_eq_self
    · rw [List.head?_append_of_ne_nil _ h.ne_nil]
      exact hstart
    · rw [List.getLast?_append_of_ne_nil _ (by decide)]
      intro c hc
      rw [← Option.some.inj hc]
      decide
  have htrim : Text.trim isTrimming (path ++ " ###".toList) = path :=
    Text.trim_append h.ne_nil (fun c hc => (isEdge_eq_false (h.first c hc)).2)
      (fun c hc => (isEdge_eq_false (h.last c hc)).2) (List.all_eq_true.mp (by decide))
  rw [trimmedPath, hwhole, htrim]
  exact Text.trim_eq_self hstart fun c hc => (isEdge_eq_false (h.last c hc)).1

theorem unbroken_closing : Text.Unbroken " ###".toList := by decide

theorem unbroken_fence : Text.Unbroken fence := by decide

theorem unbroken_opening : Text.Unbroken "### filename: ".toList := by decide

theorem unbroken_announcement {path : Text} (h : IsPlainPath path) :
    Text.Unbroken (announcement path) := by
  have hopened := Text.unbroken_append.mpr ⟨unbroken_opening, h.unbroken⟩
  exact Text.unbroken_append.mpr ⟨hopened, unbroken_closing⟩

theorem marker?_announcement {path : Text} (h : IsPlainPath path) :
    marker? (announcement path) = some path := by
  have hline : Text.Unbroken (path ++ " ###".toList) :=
    Text.unbroken_append.mpr ⟨h.unbroken, unbroken_closing⟩
  have hskip : skipSpace (' ' :: (path ++ " ###".toList)) = path ++ " ###".toList := by
    rw [skipSpace, List.dropWhile_cons_of_pos (by decide)]
    apply Text.dropWhile_eq_self
    rw [List.head?_append_of_ne_nil _ h.ne_nil]
    exact fun c hc => (isEdge_eq_false (h.first c hc)).1
  have hword : marker? (announcement path) =
      (onlyLine? (skipSpace (' ' :: (path ++ " ###".toList)))).bind
        fun rest => some (trimmedPath rest) := rfl
  rw [hword, hskip, onlyLine?_of_unbroken hline, Option.bind_some, trimmedPath_announced h]

theorem marker?_fence (t : Text) : marker? (fence ++ t) = none := rfl

theorem readProse_prose {b : Block} {l : Text} (h : IsProse l) :
    OpenBlock.readProse b l = ⟨b, none⟩ := by
  rw [OpenBlock.readProse, Text.after?_eq_none_iff.mpr h.noFence]

/-- The characters of a tag are ASCII letters. -/
theorem tag_alpha {tag : Text} {k : Kind} (h : (Text.lowerAscii tag, k) ∈ languages) :
    ∀ c ∈ tag, c.isAlpha = true := by
  have hlow : ∀ c ∈ Text.lowerAscii tag, c.isLower = true := List.all_eq_true.mp
    ((by decide : ∀ l ∈ languages, l.1.all Char.isLower = true) _ h)
  intro c hc
  have hl := hlow c.toLower (List.mem_map_of_mem hc)
  have halpha : c.isAlpha = (c.isUpper || c.isLower) := rfl
  rw [halpha, Bool.or_eq_true]
  by_cases hu : c.isUpper = true
  · exact .inl hu
  · have hsame : c.toLower = c := dif_neg fun h => hu (decide_eq_true h)
    rw [hsame] at hl
    exact .inr hl

theorem tag_unbroken {tag : Text} {k : Kind} (h : (Text.lowerAscii tag, k) ∈ languages) :
    Text.Unbroken tag := by
  intro c hc
  have ha := tag_alpha h c hc
  rw [← Bool.not_eq_true]
  intro hb
  have halpha : c.isAlpha = (decide ('A'.val ≤ c.val ∧ c.val ≤ 'Z'.val) ||
      (decide ('a'.val ≤ c.val) && decide (c.val ≤ 'z'.val))) := rfl
  simp only [halpha, Bool.or_eq_true, Bool.and_eq_true, decide_eq_true_eq,
    UInt32.le_iff_toNat_le] at ha
  simp only [isLineBreak, Bool.or_eq_true, Bool.and_eq_true, decide_eq_true_eq, beq_iff_eq] at hb
  have hn : c.toNat = c.val.toNat := rfl
  rw [hn] at hb
  rcases ha with ⟨h1, h2⟩ | ⟨h1, h2⟩ <;> simp at h1 h2 <;> omega

/-- A known tag in any letter case, with nothing after it, is taken for what it stands for. -/
theorem ofText_tag {tag : Text} {k : Kind} (h : (Text.lowerAscii tag, k) ∈ languages) :
    Opening.ofText tag = ⟨some k, tag, []⟩ := by
  have hchars : ∀ c ∈ tag, isTagChar c = true := fun c hc => by
    simp [isTagChar, Char.isAlphanum, tag_alpha h c hc]
  have htake : tag.takeWhile isTagChar = tag := by
    rw [List.takeWhile_eq_self_iff]
    exact hchars
  have hfind : ∀ l ∈ languages, (languages.find? fun m => l.1 == m.1) = some l := by decide
  rw [Opening.ofText]
  simp only [htake, hfind _ h, List.drop_length]

theorem readProse_fence {b : Block} {tag : Text} {k : Kind}
    (h : (Text.lowerAscii tag, k) ∈ languages) :
    OpenBlock.readProse b (fence ++ tag) = ⟨b, some { kind := some k }⟩ := by
  have hafter : Text.after? fence (skipSpace (fence ++ tag)) = some tag := rfl
  rw [OpenBlock.readProse, hafter]
  simp only [ofText_tag h]
  rfl

end Graft.Response
