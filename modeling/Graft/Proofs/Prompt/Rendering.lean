import Graft.Proofs.Text.Filling
import Graft.Prompt

/-
The prompt as a single substitution.

The placeholders of a prompt are filled in one after the other.  So what is put in for the name is there
when the framework and the request are put in, and what is put in for the framework when the request is.

* `values name framework request` — the placeholders, each with its value;
* `Spelled t`, `spelled_template` — texts made up of placeholders and of words too short to hold one;
* `Spelled.render` — **a prompt is the template with all placeholders filled in at once**, by values that the
  later replacements have gone over;
* `render_template_eq_fill_iff` — **it is the template filled in by the values themselves exactly when the
  later replacements leave these as they are**;
* `render_template_of_unmarked` — which they do where no placeholder is in them.

Design notes: a name may hold anything, pieces of the template too, so a prompt does not show where a value
begins or ends.  But replacements lose no break, and two prompts with as many breaks at each place of the
template are the same only if the values are (`Text.eq_of_spell_eq`).
-/
namespace Graft.Prompt

open Text

/-- The framework that is asked for. -/
def chosen (framework : Text) : Text := if framework.isEmpty then defaultFramework else framework

/-- The placeholders of a prompt, each with its value. -/
def values (name framework request : Text) : List (Text × Text) :=
  [(nameMark, name), (frameworkMark, framework), (requestMark, request)]

/-! ### Placeholders -/

def marks : List Text := [nameMark, frameworkMark, requestMark]

/-- A character that no placeholder is made of. -/
def isBreak (c : Char) : Bool := !(c.isUpper || c == '[' || c == ']' || c == '_')

/-- A word that is a placeholder, or too short to hold one. -/
def Fits (w : Text) : Prop := w ∈ marks ∨ ∀ m ∈ marks, w.length < m.length

instance (w : Text) : Decidable (Fits w) := instDecidableOr

/-- Placeholders with values. -/
def OfMarks (vs : List (Text × Text)) : Prop := ∀ v ∈ vs, v.1 ∈ marks

section
variable {vs : List (Text × Text)} {m w : Text}

theorem ofMarks_values (name framework request : Text) : OfMarks (values name framework request) := by
  intro v hv
  exact List.mem_map_of_mem hv

theorem ofMarks_single (h : m ∈ marks) (x : Text) : OfMarks [(m, x)] := by
  intro v hv
  rwa [List.mem_singleton.mp hv]

theorem OfMarks.solid (h : OfMarks vs) : Solid isBreak vs := by
  have hmarks : ∀ m ∈ marks, m ≠ [] ∧ m.all (fun c => !isBreak c) = true := by decide +kernel
  intro v hv
  obtain ⟨hne, hall⟩ := hmarks v.1 (h v hv)
  exact ⟨hne, fun c hc => by simpa using List.all_eq_true.mp hall c hc⟩

theorem not_infix_of_ne (hm : m ∈ marks) (hw : Fits w) (hne : m ≠ w) : ¬ m <:+: w := by
  have hmarks : ∀ m ∈ marks, ∀ w ∈ marks, m ≠ w → ¬ m <:+: w := by decide +kernel
  rcases hw with hw | hw
  · exact hmarks m hm w hw hne
  · exact fun h => Nat.not_lt.mpr h.length_le (hw m hm)

/-- What is put in for a word: the value of a placeholder, or the word itself. -/
def valueOf : List (Text × Text) → Text → Text
  | [], w => w
  | v :: vs, w => if w = v.1 then v.2 else valueOf vs w

theorem valueOf_of_ne (h : ∀ v ∈ vs, v.1 ≠ w) : valueOf vs w = w := by
  induction vs with
  | nil => rfl
  | cons v vs ih =>
    obtain ⟨hv, hvs⟩ := List.forall_mem_cons.mp h
    rw [valueOf, if_neg hv.symm, ih hvs]

theorem valueOf_of_markAt? (h : ∀ v ∈ vs, v.1 <+: w → v.1 = w) {v : Text × Text}
    (hv : markAt? vs w = some v) : valueOf vs w = v.2 := by
  induction vs with
  | nil => cases hv
  | cons u us ih =>
    obtain ⟨hu, hus⟩ := List.forall_mem_cons.mp h
    rw [valueOf]
    rw [markAt?, List.find?_cons] at hv
    split at hv
    next hpre => rw [if_pos (hu (after?_isSome_iff.mp hpre)).symm, Option.some.inj hv]
    next hpre =>
      have hne : w ≠ u.1 := by
        rintro rfl
        exact absurd (after?_isSome_iff.mpr (List.prefix_refl u.1)) (by rw [hpre]; exact Bool.false_ne_true)
      rw [if_neg hne, ih hus hv]

/-- A word is filled in as a whole, or left as it is. -/
theorem fill_word (h : OfMarks vs) (hw : Fits w) : fill vs w = valueOf vs w := by
  have hwhole : ∀ v ∈ vs, v.1 <+: w → v.1 = w := fun v hv hpre => by
    by_contra hne
    exact not_infix_of_ne (h v hv) hw hne hpre.isInfix
  cases hm : markAt? vs w with
  | none =>
    have hne : ∀ v ∈ vs, v.1 ≠ w := fun v hv heq =>
      markAt?_eq_none_iff.mp hm v hv (heq ▸ List.prefix_refl v.1)
    rw [valueOf_of_ne hne]
    exact fill_of_no_mark fun v hv => not_infix_of_ne (h v hv) hw (hne v hv)
  | some v =>
    obtain ⟨hv, hpre⟩ := prefix_of_markAt? hm
    rw [valueOf_of_markAt? hwhole hm]
    obtain rfl := hwhole v hv hpre
    exact fill_mark (h.solid v hv).1 hm

theorem replaceAll_word (hm : m ∈ marks) (hw : Fits w) (x : Text) :
    replaceAll m x w = if w = m then x else w := by
  rw [replaceAll_eq_fill, fill_word (ofMarks_single hm x) hw]
  rfl

theorem fill_values_word (hw : Fits w) (name framework request : Text) :
    fill (values name framework request) w =
      if w = nameMark then name else if w = frameworkMark then framework
      else if w = requestMark then request else w := by
  rw [fill_word (ofMarks_values name framework request) hw]
  rfl

theorem fill_nameMark (name framework request : Text) :
    fill (values name framework request) nameMark = name := by
  rw [fill_values_word (by decide), if_pos rfl]

theorem fill_frameworkMark (name framework request : Text) :
    fill (values name framework request) frameworkMark = framework := by
  rw [fill_values_word (by decide), if_neg (by decide), if_pos rfl]

end

/-! ### One placeholder after the other -/

/-- A text with the placeholder of the request filled in. -/
def withRequest (request t : Text) : Text := replaceAll requestMark request t

/-- A text with the placeholder of the framework filled in, and that of the request after it. -/
def withFramework (framework request t : Text) : Text :=
  withRequest request (replaceAll frameworkMark framework t)

section
variable (name framework request : Text)

/-- A word in which one placeholder is filled in after the other is filled in at once, by values that the
later replacements have gone over. -/
theorem withFramework_word {w : Text} (hw : Fits w) :
    withFramework framework request (replaceAll nameMark name w) =
      fill (values (withFramework framework request name) (withRequest request framework) request) w := by
  rw [fill_values_word hw, replaceAll_word (by decide) hw]
  by_cases hname : w = nameMark
  · rw [if_pos hname, if_pos hname]
  · rw [if_neg hname, if_neg hname, withFramework, replaceAll_word (by decide) hw]
    by_cases hframework : w = frameworkMark
    · rw [if_pos hframework, if_pos hframework]
    · rw [if_neg hframework, if_neg hframework, withRequest, replaceAll_word (by decide) hw]

/-- A text that is made up of words that fit, all the placeholders among them. -/
structure Spelled (t : Text) : Prop where
  words : spell (wordsOf isBreak t) = t
  ends : ∀ w ∈ wordsOf isBreak t, isBreak w.2 = true
  fits : ∀ w ∈ wordsOf isBreak t, Fits w.1
  placeholders : ∀ m ∈ marks, ∃ w ∈ wordsOf isBreak t, w.1 = m

instance (t : Text) : Decidable (Spelled t) :=
  decidable_of_iff (spell (wordsOf isBreak t) = t ∧ (∀ w ∈ wordsOf isBreak t, isBreak w.2 = true) ∧
      (∀ w ∈ wordsOf isBreak t, Fits w.1) ∧ ∀ m ∈ marks, ∃ w ∈ wordsOf isBreak t, w.1 = m)
    ⟨fun ⟨hwords, hends, hfits, hmarks⟩ => ⟨hwords, hends, hfits, hmarks⟩,
      fun h => ⟨h.words, h.ends, h.fits, h.placeholders⟩⟩

theorem spelled_template : Spelled template := by
  -- The kernel reads characters off a literal only slowly.
  simp only [template, templateLines, List.map_cons, List.map_nil, String.toList_append]
  repeat rw [String.toList_ofList]
  decide +kernel

variable {t : Text}

/-- **The placeholders of a text, filled in one after the other, are filled in at once** by values that the
later replacements have gone over. -/
theorem Spelled.render (h : Spelled t) : render t name request framework =
    fill (values (withFramework (chosen framework) (stripped request) name)
      (withRequest (stripped request) (chosen framework)) (stripped request)) t := by
  have hstage (g : Text → Text) : ∀ w ∈ (wordsOf isBreak t).map (Prod.map g id), isBreak w.2 = true :=
    List.forall_mem_map.mpr h.ends
  show withFramework (chosen framework) (stripped request) (replaceAll nameMark name t) = _
  rw [← h.words, replaceAll_spell (ofMarks_single (by decide) name).solid h.ends, withFramework,
    replaceAll_spell (ofMarks_single (by decide) _).solid (hstage _), List.map_map, Prod.map_comp_map,
    Function.comp_id, withRequest,
    replaceAll_spell (ofMarks_single (by decide) _).solid (hstage _), List.map_map, Prod.map_comp_map,
    Function.comp_id, fill_spell (ofMarks_values _ _ _).solid h.ends]
  refine congrArg spell (List.map_congr_left fun w hw => Prod.ext ?_ rfl)
  exact withFramework_word name _ _ (h.fits w hw)

/-- Replacements lose no break. -/
theorem countP_le_withRequest (t : Text) : t.countP isBreak ≤ (withRequest request t).countP isBreak := by
  rw [withRequest, replaceAll_eq_fill]
  exact countP_le_fill (ofMarks_single (by decide) request).solid t

theorem countP_le_withFramework (t : Text) :
    t.countP isBreak ≤ (withFramework framework request t).countP isBreak := by
  have hfirst := countP_le_fill (ofMarks_single (show frameworkMark ∈ marks by decide) framework).solid t
  rw [← replaceAll_eq_fill] at hfirst
  exact hfirst.trans (countP_le_withRequest request _)

/-- What the later replacements change of the values can be seen in the text. -/
theorem Spelled.fill_eq_iff (h : Spelled t) :
    fill (values (withFramework framework request name) (withRequest request framework) request) t =
        fill (values name framework request) t ↔
      withFramework framework request name = name ∧ withRequest request framework = framework := by
  refine ⟨fun heq => ?_, fun ⟨hname, hframework⟩ => by rw [hname, hframework]⟩
  rw [← h.words, fill_spell (ofMarks_values _ _ _).solid h.ends,
    fill_spell (ofMarks_values _ _ _).solid h.ends] at heq
  have hle : ∀ w ∈ wordsOf isBreak t, (fill (values name framework request) w.1).countP isBreak ≤
      (fill (values (withFramework framework request name) (withRequest request framework) request)
        w.1).countP isBreak := by
    intro w hw
    rw [fill_values_word (h.fits w hw), fill_values_word (h.fits w hw)]
    by_cases hname : w.1 = nameMark
    · rw [if_pos hname, if_pos hname]
      exact countP_le_withFramework framework request name
    · rw [if_neg hname, if_neg hname]
      by_cases hframework : w.1 = frameworkMark
      · rw [if_pos hframework, if_pos hframework]
        exact countP_le_withRequest request framework
      · rw [if_neg hframework, if_neg hframework]
  have hwords := eq_of_spell_eq h.ends hle heq.symm
  have hmark {m : Text} (hm : m ∈ marks) :
      fill (values name framework request) m =
        fill (values (withFramework framework request name) (withRequest request framework) request) m := by
    obtain ⟨w, hw, rfl⟩ := h.placeholders m hm
    exact hwords w hw
  have hname := hmark (show nameMark ∈ marks by decide)
  have hframework := hmark (show frameworkMark ∈ marks by decide)
  rw [fill_nameMark, fill_nameMark] at hname
  rw [fill_frameworkMark, fill_frameworkMark] at hframework
  exact ⟨hname.symm, hframework.symm⟩

/-- **A prompt is the template with all its placeholders filled in at once exactly when the later
replacements leave the name and the framework as they are.** -/
theorem render_template_eq_fill_iff :
    Prompt.render template name request framework =
        fill (values name (chosen framework) (stripped request)) template ↔
      replaceAll requestMark (stripped request) (replaceAll frameworkMark (chosen framework) name) = name ∧
        replaceAll requestMark (stripped request) (chosen framework) = chosen framework := by
  rw [spelled_template.render]
  exact spelled_template.fill_eq_iff name (chosen framework) (stripped request)

/-- A name that is the placeholder of the framework is filled in itself. -/
theorem render_template_frameworkMark :
    Prompt.render template frameworkMark ['x'] [] ≠
      fill (values frameworkMark (chosen []) (stripped ['x'])) template := by
  rw [spelled_template.render, ne_eq, spelled_template.fill_eq_iff]
  exact fun h => absurd h.1 (by decide +kernel)

/-- **Values without placeholders are put in as they are**, whatever the request holds. -/
theorem render_template_of_unmarked (hname : ∀ m ∈ [frameworkMark, requestMark], ¬ m <:+: name)
    (hframework : ¬ requestMark <:+: chosen framework) :
    Prompt.render template name request framework =
      fill (values name (chosen framework) (stripped request)) template := by
  rw [spelled_template.render, spelled_template.fill_eq_iff, withFramework,
    replaceAll_of_not_infix (hname frameworkMark (by simp)), withRequest,
    replaceAll_of_not_infix (hname requestMark (by simp)), withRequest, replaceAll_of_not_infix hframework]
  exact ⟨rfl, rfl⟩

end

end Graft.Prompt
