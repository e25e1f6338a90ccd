import Graft.Proofs.Text.Lines
import Mathlib.Data.List.Find

/-
Marks in a text, and what is put in their place.

* `Text.fill values t` — `t` with the occurrences of all marks replaced, at once;
* `Text.replaceAll_eq_fill` — with a single mark this is `Text.replaceAll`;
* `Text.fill_induction` — a text is read mark by mark, and character by character where there is none;
* `Text.fill_append_break` — **a character that is in no mark cuts the work in two**;
* `Text.fill_spell` — words that are ended by such characters are filled in one by one;
* `Text.eq_of_spell_eq` — **words are read off again**, if none has fewer breaks than the one in its place.

Design notes: the value of a mark may hold anything, also breaks and marks, so a text that has been filled
in cannot be cut into its words again by looking for breaks.  `spell` keeps the words apart, and the last
statement counts breaks where it would look for them.
-/
namespace Graft.Text

/-! ### All marks at once -/

/-- The first of the marks, each with its value, that stands at the beginning of a text. -/
def markAt? (values : List (Text × Text)) (t : Text) : Option (Text × Text) :=
  values.find? fun v => (after? v.1 t).isSome

/-- A text with every occurrence of a mark, found from left to right, replaced by the value of the mark. -/
def fill (values : List (Text × Text)) (t : Text) : Text := go 0 t
where
  -- The first argument counts the characters of a found mark that are still to pass.
  go : Nat → Text → Text
    | _, [] => []
    | k + 1, _ :: cs => go k cs
    | 0, c :: cs =>
      match markAt? values (c :: cs) with
      | some v => v.2 ++ go (v.1.length - 1) cs
      | none => c :: go 0 cs

/-- Marks that are not empty and hold none of the characters `p`, the breaks. -/
def Solid (p : Char → Bool) (values : List (Text × Text)) : Prop :=
  ∀ v ∈ values, v.1 ≠ [] ∧ ∀ c ∈ v.1, p c = false

section
variable {values : List (Text × Text)} {v : Text × Text} {c : Char} {cs t : Text}

theorem markAt?_eq_none_iff : markAt? values t = none ↔ ∀ v ∈ values, ¬ v.1 <+: t := by
  simp only [markAt?, List.find?_eq_none, after?_isSome_iff]

theorem prefix_of_markAt? (h : markAt? values t = some v) : v ∈ values ∧ v.1 <+: t := by
  rw [markAt?] at h
  have hlead := List.find?_some h
  exact ⟨List.mem_of_find?_eq_some h, after?_isSome_iff.mp hlead⟩

theorem fill_nil : fill values [] = [] := rfl

theorem fill_go (k : Nat) (t : Text) : fill.go values k t = fill values (t.drop k) := by
  induction t generalizing k with
  | nil => rw [List.drop_nil, fill_nil, fill.go]
  | cons c cs ih =>
    cases k with
    | zero => rfl
    | succ k => exact ih k

theorem fill_unmarked (h : markAt? values (c :: cs) = none) :
    fill values (c :: cs) = c :: fill values cs := by
  rw [fill, fill.go, h]
  rfl

theorem fill_marked (hne : v.1 ≠ []) (h : markAt? values (v.1 ++ t) = some v) :
    fill values (v.1 ++ t) = v.2 ++ fill values t := by
  obtain ⟨c, cs, hmark⟩ := List.exists_cons_of_ne_nil hne
  rw [hmark, List.cons_append] at h ⊢
  rw [fill, fill.go, h]
  show v.2 ++ fill.go values (v.1.length - 1) (cs ++ t) = _
  rw [fill_go, hmark, List.length_cons, Nat.add_sub_cancel, List.drop_left]

/-- A text is read mark by mark, and character by character where there is none. -/
theorem fill_induction {p : Char → Bool} (hvalues : Solid p values) {P : Text → Prop} (nil : P [])
    (unmarked : ∀ c cs, markAt? values (c :: cs) = none → P cs → P (c :: cs))
    (marked : ∀ v ∈ values, ∀ t, markAt? values (v.1 ++ t) = some v → P t → P (v.1 ++ t)) (t : Text) :
    P t := by
  induction hn : t.length using Nat.strong_induction_on generalizing t with
  | h n ih =>
    cases t with
    | nil => exact nil
    | cons c cs =>
      cases hm : markAt? values (c :: cs) with
      | none => exact unmarked c cs hm (ih cs.length (by rw [← hn]; exact Nat.lt_succ_self _) cs rfl)
      | some v =>
        obtain ⟨hv, rest, hrest⟩ := prefix_of_markAt? hm
        have hpos := List.length_pos_iff.mpr (hvalues v hv).1
        rw [← hrest, List.length_append] at hn
        rw [← hrest] at hm ⊢
        exact marked v hv rest hm (ih rest.length (by omega) rest rfl)

/-- With a single mark, its occurrences are replaced and nothing else. -/
theorem replaceAll_eq_fill (old new t : Text) : replaceAll old new t = fill [(old, new)] t := by
  have hgo (k : Nat) : replaceAll.go old new k t = fill.go [(old, new)] k t := by
    induction t generalizing k with
    | nil => rw [replaceAll.go, fill.go]
    | cons c cs ih =>
      cases k with
      | succ k => rw [replaceAll.go, fill.go, ih]
      | zero =>
        rw [replaceAll.go, fill.go, markAt?, List.find?_singleton]
        by_cases h : (after? old (c :: cs)).isSome = true
        · simp only [if_pos h, ih]
        · simp only [if_neg h, ih]
  exact hgo 0

/-- A text without a mark is left as it is. -/
theorem fill_of_no_mark (h : ∀ v ∈ values, ¬ v.1 <:+: t) : fill values t = t := by
  induction t with
  | nil => rfl
  | cons c cs ih =>
    have hnone : markAt? values (c :: cs) = none :=
      markAt?_eq_none_iff.mpr fun v hv hpre => h v hv hpre.isInfix
    rw [fill_unmarked hnone, ih fun v hv hin => h v hv (hin.trans (List.suffix_cons c cs).isInfix)]

/-- A text that is a mark is replaced by its value. -/
theorem fill_mark (hne : v.1 ≠ []) (h : markAt? values v.1 = some v) : fill values v.1 = v.2 := by
  have hfill := fill_marked (t := []) hne (by rwa [List.append_nil])
  rwa [List.append_nil, fill_nil, List.append_nil] at hfill

theorem replaceAll_of_not_infix {old t : Text} (h : ¬ old <:+: t) (new : Text) :
    replaceAll old new t = t := by
  rw [replaceAll_eq_fill]
  exact fill_of_no_mark fun v hv => by rwa [List.mem_singleton.mp hv]

/-! ### Breaks -/

variable {p : Char → Bool} {d : Char}

/-- What begins before a break and does not hold one ends before it. -/
theorem prefix_append_break_iff {mark x y : Text} (hmark : ∀ c ∈ mark, p c = false) (hd : p d = true) :
    mark <+: x ++ d :: y ↔ mark <+: x := by
  refine ⟨fun h => ?_, fun h => h.trans (List.prefix_append x _)⟩
  rcases List.prefix_or_prefix_of_prefix h (List.prefix_append x (d :: y)) with hx | ⟨z, rfl⟩
  · exact hx
  · cases z with
    | nil => exact ⟨[], by simp⟩
    | cons e z =>
      obtain rfl : e = d := (List.cons_prefix_cons.mp ((List.prefix_append_right_inj x).mp h)).1
      rw [hmark e (by simp)] at hd
      cases hd

theorem markAt?_append_break (hvalues : Solid p values) (hd : p d = true) (x y : Text) :
    markAt? values (x ++ d :: y) = markAt? values x := by
  refine List.find?_congr fun v hv => ?_
  rw [Bool.eq_iff_iff, after?_isSome_iff, after?_isSome_iff, prefix_append_break_iff (hvalues v hv).2 hd]

/-- **What stands before a break and what stands behind it are filled in apart.** -/
theorem fill_append_break (hvalues : Solid p values) (hd : p d = true) (x y : Text) :
    fill values (x ++ d :: y) = fill values x ++ d :: fill values y := by
  induction x using fill_induction hvalues with
  | nil =>
    have hnone : markAt? values [] = none :=
      markAt?_eq_none_iff.mpr fun v hv h => (hvalues v hv).1 (List.prefix_nil.mp h)
    rw [List.nil_append, fill_nil, List.nil_append]
    exact fill_unmarked ((markAt?_append_break hvalues hd [] y).trans hnone)
  | unmarked c cs hm ih =>
    rw [fill_unmarked hm, List.cons_append, fill_unmarked, ih, List.cons_append]
    rw [← List.cons_append, markAt?_append_break hvalues hd, hm]
  | marked v hv t hm ih =>
    have hne := (hvalues v hv).1
    rw [fill_marked hne hm, List.append_assoc, fill_marked hne, ih, List.append_assoc]
    rw [← List.append_assoc, markAt?_append_break hvalues hd, hm]

/-- No break is lost. -/
theorem countP_le_fill (hvalues : Solid p values) (t : Text) :
    t.countP p ≤ (fill values t).countP p := by
  induction t using fill_induction hvalues with
  | nil => exact Nat.le_refl _
  | unmarked c cs hm ih =>
    rw [fill_unmarked hm, List.countP_cons, List.countP_cons]
    exact Nat.add_le_add_right ih _
  | marked v hv t hm ih =>
    have hnone : v.1.countP p = 0 := List.countP_eq_zero.mpr fun c hc => by
      rw [(hvalues v hv).2 c hc]
      exact Bool.false_ne_true
    rw [fill_marked (hvalues v hv).1 hm, List.countP_append, List.countP_append, hnone, Nat.zero_add]
    exact ih.trans (Nat.le_add_left _ _)

end

/-! ### Words -/

/-- Words, each with the character that ends it. -/
def spell (ws : List (Text × Char)) : Text := ws.flatMap fun w => w.1 ++ [w.2]

/-- The words of a text, each with the break that ends it; what follows the last break is no word. -/
def wordsOf (p : Char → Bool) : Text → List (Text × Char)
  | [] => []
  | c :: cs =>
    if p c then ([], c) :: wordsOf p cs
    else
      match wordsOf p cs with
      | [] => []
      | w :: ws => (c :: w.1, w.2) :: ws

section
variable {values : List (Text × Text)} {p : Char → Bool} {d : Char} {ws : List (Text × Char)}

theorem spell_cons (w : Text × Char) (ws : List (Text × Char)) :
    spell (w :: ws) = w.1 ++ w.2 :: spell ws := by
  rw [spell, List.flatMap_cons, List.append_assoc]
  rfl

/-- Words are filled in one by one. -/
theorem fill_spell (hvalues : Solid p values) (hws : ∀ w ∈ ws, p w.2 = true) :
    fill values (spell ws) = spell (ws.map (Prod.map (fill values) id)) := by
  induction ws with
  | nil => rfl
  | cons w ws ih =>
    obtain ⟨hw, hws⟩ := List.forall_mem_cons.mp hws
    rw [spell_cons, fill_append_break hvalues hw, ih hws, List.map_cons, spell_cons]
    rfl

theorem replaceAll_spell {mark new : Text} (hmark : Solid p [(mark, new)])
    (hws : ∀ w ∈ ws, p w.2 = true) :
    replaceAll mark new (spell ws) = spell (ws.map (Prod.map (replaceAll mark new) id)) := by
  rw [funext (replaceAll_eq_fill mark new)]
  exact fill_spell hmark hws

/-- Up to as many breaks, texts are the same when they go on to the same text. -/
theorem eq_of_append_break_eq {x x' y y' : Text} (hd : p d = true) (hcount : x.countP p = x'.countP p)
    (h : x ++ d :: y = x' ++ d :: y') : x = x' ∧ y = y' := by
  induction x generalizing x' with
  | nil =>
    cases x' with
    | nil => exact ⟨rfl, (List.cons.inj h).2⟩
    | cons c cs =>
      obtain ⟨rfl, -⟩ := List.cons.inj h
      rw [List.countP_nil, List.countP_cons_of_pos hd] at hcount
      omega
  | cons c cs ih =>
    cases x' with
    | nil =>
      obtain ⟨rfl, -⟩ := List.cons.inj h
      rw [List.countP_nil, List.countP_cons_of_pos hd] at hcount
      omega
    | cons c' cs' =>
      obtain ⟨rfl, hrest⟩ := List.cons.inj h
      rw [List.countP_cons, List.countP_cons, Nat.add_right_cancel_iff] at hcount
      obtain ⟨rfl, hy⟩ := ih hcount hrest
      exact ⟨rfl, hy⟩

theorem countP_spell_cons (w : Text × Char) (ws : List (Text × Char)) :
    (spell (w :: ws)).countP p = w.1.countP p + ([w.2].countP p + (spell ws).countP p) := by
  rw [spell_cons, List.countP_append, ← List.singleton_append, List.countP_append]

variable {f g : Text → Text}

theorem countP_spell_le (hle : ∀ w ∈ ws, (f w.1).countP p ≤ (g w.1).countP p) :
    (spell (ws.map (Prod.map f id))).countP p ≤ (spell (ws.map (Prod.map g id))).countP p := by
  induction ws with
  | nil => exact Nat.le_refl _
  | cons w ws ih =>
    obtain ⟨hw, hws⟩ := List.forall_mem_cons.mp hle
    rw [List.map_cons, List.map_cons, countP_spell_cons, countP_spell_cons]
    exact Nat.add_le_add hw (Nat.add_le_add_left (ih hws) _)

/-- **Words are read off again**, if none has fewer breaks than the one in its place. -/
theorem eq_of_spell_eq (hws : ∀ w ∈ ws, p w.2 = true)
    (hle : ∀ w ∈ ws, (f w.1).countP p ≤ (g w.1).countP p)
    (h : spell (ws.map (Prod.map f id)) = spell (ws.map (Prod.map g id))) :
    ∀ w ∈ ws, f w.1 = g w.1 := by
  induction ws with
  | nil => exact fun _ h => absurd h List.not_mem_nil
  | cons w ws ih =>
    obtain ⟨hbreak, hws⟩ := List.forall_mem_cons.mp hws
    obtain ⟨hw, hle⟩ := List.forall_mem_cons.mp hle
    -- All the breaks together are as many, so each word has as many.
    have hcount := congrArg (List.countP p) h
    rw [List.map_cons, List.map_cons, countP_spell_cons, countP_spell_cons] at hcount
    have hrest := countP_spell_le hle
    simp only [Prod.map_fst, Prod.map_snd, id_eq] at hcount
    have hword : (f w.1).countP p = (g w.1).countP p := by omega
    rw [List.map_cons, List.map_cons, spell_cons, spell_cons] at h
    obtain ⟨hfirst, hothers⟩ := eq_of_append_break_eq hbreak hword h
    exact List.forall_mem_cons.mpr ⟨hfirst, ih hws hle hothers⟩

end

end Graft.Text
