import Graft.Text.Lines
import Graft.Text.Space
import Mathlib.Data.List.DropRight

/-
Trimming, searching and cutting into lines, in terms of the list library.

* `Text.trimRight_eq_rdropWhile`, `Text.trim_eq_self`, `Text.trim_append`, `Text.isInfix_trim` — trimming;
* `Text.before?_eq_none_iff`, `Text.before?_eq_some_iff` — nothing is found exactly when the part does
  not occur, and what is found stands before its first occurrence;
* `Text.lines_intercalate` — **lines put together with newlines are read back**, but for an empty
  last line, which a text does not show;
* `Text.lines_append` — the lines of two texts with a newline between them.
-/
namespace Graft.Text

/-! ### Trimming -/

theorem trimRight_eq_rdropWhile (p : Char → Bool) (t : Text) : trimRight p t = t.rdropWhile p := by
  induction t with
  | nil => rfl
  | cons c cs ih =>
    rw [trimRight, ih]
    by_cases hall : ∀ x ∈ cs, p x = true
    · have hnil : cs.rdropWhile p = [] := List.rdropWhile_eq_nil_iff.mpr hall
      rw [hnil]
      by_cases hc : p c
      · rw [if_pos hc]
        exact (List.rdropWhile_eq_nil_iff.mpr fun x hx => by
          rcases List.mem_cons.mp hx with rfl | hx
          · exact hc
          · exact hall x hx).symm
      · rw [if_neg hc, List.rdropWhile, List.reverse_cons,
          List.dropWhile_append_of_pos (by simpa using hall), List.dropWhile_cons_of_neg hc]
        rfl
    · have hne : cs.reverse.dropWhile p ≠ [] := by
        rw [ne_eq, List.dropWhile_eq_nil_iff]
        simpa using hall
      have hcons : (c :: cs).rdropWhile p = c :: cs.rdropWhile p := by
        rw [List.rdropWhile, List.reverse_cons, List.dropWhile_append]
        rw [if_neg (by simpa using hne), List.reverse_append]
        rfl
      rw [hcons]
      have : cs.rdropWhile p ≠ [] := by simpa [List.rdropWhile] using hne
      match h : cs.rdropWhile p with
      | [] => exact absurd h this
      | d :: ds => rfl

/-- A text with nothing to trim at its end. -/
theorem trimRight_eq_self {p : Char → Bool} {t : Text} (h : ∀ c ∈ t.getLast?, p c = false) :
    trimRight p t = t := by
  rw [trimRight_eq_rdropWhile, List.rdropWhile_eq_self_iff]
  intro hne
  rw [Bool.not_eq_true]
  exact h _ (List.getLast?_eq_getLast_of_ne_nil hne)

theorem trimRight_append {p : Char → Bool} {t s : Text} (hs : ∀ c ∈ s, p c = true) :
    trimRight p (t ++ s) = trimRight p t := by
  rw [trimRight_eq_rdropWhile, trimRight_eq_rdropWhile, List.rdropWhile, List.reverse_append,
    List.dropWhile_append_of_pos (by simpa using hs)]
  rfl

theorem dropWhile_eq_self {p : Char → Bool} {t : Text} (h : ∀ c ∈ t.head?, p c = false) :
    t.dropWhile p = t := by
  cases t with
  | nil => rfl
  | cons c cs => exact List.dropWhile_cons_of_neg (by simpa using h c rfl)

/-- A text with nothing to trim at either end. -/
theorem trim_eq_self {p : Char → Bool} {t : Text} (hh : ∀ c ∈ t.head?, p c = false)
    (hl : ∀ c ∈ t.getLast?, p c = false) : trim p t = t := by
  rw [trim, dropWhile_eq_self hh, trimRight_eq_self hl]

/-- What is trimmed at the end of a text that has nothing else to trim. -/
theorem trim_append {p : Char → Bool} {t s : Text} (hne : t ≠ []) (hh : ∀ c ∈ t.head?, p c = false)
    (hl : ∀ c ∈ t.getLast?, p c = false) (hs : ∀ c ∈ s, p c = true) : trim p (t ++ s) = t := by
  have hhead : ∀ c ∈ (t ++ s).head?, p c = false := by
    rw [List.head?_append_of_ne_nil _ hne]
    exact hh
  rw [trim, dropWhile_eq_self hhead, trimRight_append hs, trimRight_eq_self hl]

theorem isInfix_trim (p : Char → Bool) (t : Text) : trim p t <:+: t := by
  rw [trim, trimRight_eq_rdropWhile]
  exact (List.rdropWhile_prefix p _).isInfix.trans (List.dropWhile_suffix p).isInfix

theorem isInfix_stripped (t : Text) : stripped t <:+: t := isInfix_trim isSpace t

/-- What stands at the end of a text behind the last character of some kind. -/
theorem rtakeWhile_append_cons {p : Char → Bool} {c : Char} (hc : p c = false) {b : Text}
    (hb : ∀ d ∈ b, p d = true) (a : Text) : (a ++ c :: b).rtakeWhile p = b := by
  rw [List.rtakeWhile, List.reverse_append, List.reverse_cons, List.append_assoc,
    List.takeWhile_append_of_pos (by simpa using hb), List.singleton_append,
    List.takeWhile_cons_of_neg (by simpa using hc), List.append_nil, List.reverse_reverse]

/-! ### Searching -/

theorem after?_isSome_iff {lead t : Text} : (after? lead t).isSome ↔ lead <+: t := by
  rw [Option.isSome_iff_exists]
  constructor
  · rintro ⟨r, h⟩
    exact ⟨r, (after?_eq_some_iff.mp h).symm⟩
  · rintro ⟨r, rfl⟩
    exact ⟨r, after?_append lead r⟩

theorem after?_eq_none_iff {lead t : Text} : after? lead t = none ↔ ¬ lead <+: t := by
  rw [← after?_isSome_iff, Bool.not_eq_true, Option.isSome_eq_false_iff, Option.isNone_iff_eq_none]

theorem before?_eq_none_iff {part t : Text} (hne : part ≠ []) :
    before? part t = none ↔ ¬ part <:+: t := by
  induction t with
  | nil => simp [before?, hne]
  | cons c cs ih =>
    rw [before?, List.infix_cons_iff, ← after?_isSome_iff]
    by_cases h : (after? part (c :: cs)).isSome
    · simp [h]
    · simp [h, ih]

/-- What stands before the first occurrence of a part: the part follows, and occurs no earlier. -/
theorem before?_eq_some_iff {part t u : Text} : before? part t = some u ↔
    (∃ r, t = u ++ (part ++ r)) ∧ ∀ v r, t = v ++ (part ++ r) → u.length ≤ v.length := by
  induction t generalizing u with
  | nil => cases part <;> cases u <;> simp [before?]
  | cons c cs ih =>
    rw [before?]
    by_cases h : (after? part (c :: cs)).isSome
    · obtain ⟨r, hr⟩ := after?_isSome_iff.mp h
      rw [if_pos h]
      constructor
      · intro hu
        obtain rfl := Option.some.inj hu
        exact ⟨⟨r, hr.symm⟩, fun v r _ => Nat.zero_le _⟩
      · rintro ⟨-, hleast⟩
        have hzero : u.length ≤ 0 := hleast [] r hr.symm
        rw [List.length_eq_zero_iff.mp (Nat.le_zero.mp hzero)]
    · have hlater (r : Text) : c :: cs ≠ part ++ r :=
        fun he => h (after?_isSome_iff.mpr ⟨r, he.symm⟩)
      rw [if_neg h, Option.map_eq_some_iff]
      constructor
      · rintro ⟨u, hu, rfl⟩
        obtain ⟨⟨r, hr⟩, hleast⟩ := ih.mp hu
        refine ⟨⟨r, congrArg (c :: ·) hr⟩, fun v r' hv => ?_⟩
        cases v with
        | nil => exact absurd hv (hlater r')
        | cons d v => exact Nat.succ_le_succ (hleast v r' (List.cons.inj hv).2)
      · rintro ⟨⟨r, hr⟩, hleast⟩
        cases u with
        | nil => exact absurd hr (hlater r)
        | cons d u =>
          obtain ⟨rfl, hcs⟩ := List.cons.inj hr
          refine ⟨u, ih.mpr ⟨⟨r, hcs⟩, fun v r' hv => ?_⟩, rfl⟩
          exact Nat.le_of_succ_le_succ (hleast (c :: v) r' (congrArg (c :: ·) hv))

/-! ### Lines -/

/-- A line: a text without a line break. -/
def Unbroken (l : Text) : Prop := ∀ c ∈ l, isLineBreak c = false

instance (l : Text) : Decidable (Unbroken l) := List.decidableBAll _ _

@[simp] theorem unbroken_append {l m : Text} : Unbroken (l ++ m) ↔ Unbroken l ∧ Unbroken m := by
  simp only [Unbroken, List.mem_append, or_imp, forall_and]

theorem lines_cons_of_not_break {c : Char} (h : isLineBreak c = false) (t : Text) :
    lines (c :: t) = consFirst c (lines t) := by
  have hc : c ≠ '\r' := by
    rintro rfl
    exact absurd h (by decide)
  rw [lines]
  · simp [h]
  · intro cs hcr
    exact fun _ => absurd hcr hc

theorem lines_newline (t : Text) : lines ('\n' :: t) = [] :: lines t := by
  rw [lines]
  · rfl
  · intro cs hcr
    exact absurd hcr (by decide)

theorem lines_append_newline {l : Text} (h : Unbroken l) (t : Text) :
    lines (l ++ '\n' :: t) = l :: lines t := by
  induction l with
  | nil => exact lines_newline t
  | cons c cs ih =>
    rw [List.cons_append, lines_cons_of_not_break (h c (by simp)),
      ih fun x hx => h x (List.mem_cons_of_mem c hx)]
    rfl

theorem lines_of_unbroken {l : Text} (h : Unbroken l) (hne : l ≠ []) : lines l = [l] := by
  induction l with
  | nil => exact absurd rfl hne
  | cons c cs ih =>
    rw [lines_cons_of_not_break (h c (by simp))]
    cases cs with
    | nil => rfl
    | cons d ds =>
      rw [ih (fun x hx => h x (List.mem_cons_of_mem c hx)) (by simp)]
      rfl

/-- **Lines put together with newlines are read back**, but for an empty last line. -/
theorem lines_intercalate : ∀ {ls : List Text}, (∀ l ∈ ls, Unbroken l) →
    lines (['\n'].intercalate ls) = ls ∨ lines (['\n'].intercalate ls) ++ [[]] = ls
  | [], _ => Or.inl rfl
  | [l], h => by
    rw [List.intercalate_singleton]
    by_cases hne : l = []
    · exact Or.inr (by rw [hne]; rfl)
    · exact Or.inl (lines_of_unbroken (h l (by simp)) hne)
  | l :: l' :: ls, h => by
    have hstep : lines (['\n'].intercalate (l :: l' :: ls)) =
        l :: lines (['\n'].intercalate (l' :: ls)) := by
      rw [List.intercalate_cons_cons, List.append_assoc]
      exact lines_append_newline (h l (by simp)) _
    rw [hstep]
    rcases lines_intercalate fun x hx => h x (List.mem_cons_of_mem l hx) with ih | ih
    · exact Or.inl (congrArg _ ih)
    · exact Or.inr (congrArg (l :: ·) ih)

theorem consFirst_append (c : Char) {ls : List Text} (h : ls ≠ []) (ms : List Text) :
    consFirst c (ls ++ ms) = consFirst c ls ++ ms := by
  cases ls with
  | nil => exact absurd rfl h
  | cons l ls => rfl

theorem lines_ne_nil {t : Text} (h : t ≠ []) : lines t ≠ [] := by
  fun_induction lines t with
  | case1 => exact absurd rfl h
  | case2 cs ih => exact List.cons_ne_nil _ _
  | case3 c cs hne hb ih => exact List.cons_ne_nil _ _
  | case4 c cs hne hb ih => cases lines cs <;> exact List.cons_ne_nil _ _

/-- The lines of two texts with a newline between them.  The newline ends the last line of the first
text, or is the second half of its last boundary; else it makes an empty line. -/
theorem lines_append (t u : Text) :
    lines (t ++ '\n' :: u) = lines t ++ lines u ∨
      lines (t ++ '\n' :: u) = lines t ++ [] :: lines u := by
  fun_induction lines t with
  | case1 => exact Or.inr (lines_newline u)
  | case2 cs ih =>
    have hstep (v : Text) : lines ('\r' :: '\n' :: v) = [] :: lines v := by rw [lines]
    rw [List.cons_append, List.cons_append, hstep]
    exact ih.imp (congrArg ([] :: ·)) (congrArg ([] :: ·))
  | case3 c cs hne hb ih =>
    by_cases hlast : c = '\r' ∧ cs = []
    · -- A carriage return and the newline after it are one boundary.
      obtain ⟨rfl, rfl⟩ := hlast
      left
      rw [List.cons_append, List.nil_append, lines]
      rfl
    · have hstep : lines (c :: (cs ++ '\n' :: u)) = [] :: lines (cs ++ '\n' :: u) := by
        rw [lines]
        · rw [if_pos hb]
        · intro ds hc hds
          cases cs with
          | nil => exact hlast ⟨hc, rfl⟩
          | cons d es => exact hne es hc (by rw [(List.cons.inj hds).1])
      rw [List.cons_append, hstep]
      exact ih.imp (congrArg ([] :: ·)) (congrArg ([] :: ·))
  | case4 c cs hne hb ih =>
    rw [Bool.not_eq_true] at hb
    rw [List.cons_append, lines_cons_of_not_break hb]
    by_cases hcs : cs = []
    · subst hcs
      left
      rw [List.nil_append, lines_newline]
      rfl
    · rcases ih with ih | ih
      · left
        rw [ih, consFirst_append c (lines_ne_nil hcs)]
      · right
        rw [ih, consFirst_append c (lines_ne_nil hcs)]

/-! ### Parts, and what they make up -/

/-- What a text is cut at is in none of the parts. -/
theorem not_of_mem_splitOnP {p : Char → Bool} {t l : Text} (h : l ∈ t.splitOnP p) :
    ∀ c ∈ l, p c = false := by
  induction t generalizing l with
  | nil =>
    rw [List.splitOnP_nil, List.mem_singleton] at h
    rw [h]
    exact fun _ hc => absurd hc List.not_mem_nil
  | cons d ds ih =>
    rw [List.splitOnP_cons_eq_if_modifyHead] at h
    split at h
    · rcases List.mem_cons.mp h with rfl | h
      · exact fun _ hc => absurd hc List.not_mem_nil
      · exact ih h
    next hd =>
      cases hs : ds.splitOnP p with
      | nil => exact absurd hs (List.splitOnP_ne_nil p ds)
      | cons m ms =>
        rw [hs, List.modifyHead_cons] at h
        rcases List.mem_cons.mp h with rfl | h
        · have hm : ∀ c ∈ m, p c = false := ih (by rw [hs]; exact List.mem_cons_self)
          exact List.forall_mem_cons.mpr ⟨Bool.eq_false_iff.mpr hd, hm⟩
        · exact ih (by rw [hs]; exact List.mem_cons_of_mem m h)

theorem not_mem_of_mem_splitOn {t l : Text} {x : Char} (h : l ∈ t.splitOn x) : x ∉ l := by
  intro hx
  rw [List.splitOn_eq_splitOnP] at h
  simpa using not_of_mem_splitOnP h x hx

/-- The parts that a text is cut into hold all the rest of it. -/
theorem flatten_splitOnP (p : Char → Bool) (t : Text) :
    (t.splitOnP p).flatten = t.filter fun c => !p c := by
  induction t with
  | nil => rfl
  | cons c cs ih =>
    rw [List.splitOnP_cons_eq_if_modifyHead]
    cases hp : p c with
    | true => simp [hp, ih]
    | false =>
      obtain ⟨w, ws, hws⟩ := List.exists_cons_of_ne_nil (List.splitOnP_ne_nil p cs)
      rw [hws, List.flatten_cons] at ih
      simp [hp, hws, ih]

/-- Parts joined to parts are joined in the same way. -/
theorem intercalate_append {ws vs : List Text} {x : Char} (hws : ws ≠ []) (hvs : vs ≠ []) :
    List.intercalate [x] (ws ++ vs) = List.intercalate [x] ws ++ x :: List.intercalate [x] vs := by
  induction ws with
  | nil => exact absurd rfl hws
  | cons w ws ih =>
    cases ws with
    | nil =>
      obtain ⟨v, vs, rfl⟩ := List.exists_cons_of_ne_nil hvs
      rw [List.singleton_append, List.intercalate_singleton, List.intercalate_cons_cons,
        List.append_assoc, List.singleton_append]
    | cons u us =>
      rw [List.cons_append, List.cons_append, List.intercalate_cons_cons, List.intercalate_cons_cons,
        ← List.cons_append, ih (List.cons_ne_nil u us)]
      simp only [List.append_assoc]

/-- The characters of joined parts are those of the parts, and what joins them. -/
theorem mem_intercalate {ws : List Text} {x c : Char} (h : c ∈ List.intercalate [x] ws) :
    c = x ∨ ∃ w ∈ ws, c ∈ w := by
  induction ws with
  | nil => cases h
  | cons w ws ih =>
    cases ws with
    | nil =>
      rw [List.intercalate_singleton] at h
      exact .inr ⟨w, List.mem_singleton_self w, h⟩
    | cons v vs =>
      rw [List.intercalate_cons_cons, List.append_assoc, List.mem_append, List.singleton_append,
        List.mem_cons] at h
      rcases h with h | h | h
      · exact .inr ⟨w, List.mem_cons_self, h⟩
      · exact .inl h
      · exact (ih h).imp_right fun ⟨u, hu, hc⟩ => ⟨u, List.mem_cons_of_mem w hu, hc⟩

/-- Joined parts are cut apart again. -/
theorem splitOnP_intercalate {p : Char → Bool} {x : Char} (hx : p x = true) {ws : List Text}
    (hne : ws ≠ []) (h : ∀ w ∈ ws, ∀ c ∈ w, p c = false) :
    (List.intercalate [x] ws).splitOnP p = ws := by
  induction ws with
  | nil => exact absurd rfl hne
  | cons w ws ih =>
    obtain ⟨hw, hws⟩ := List.forall_mem_cons.mp h
    cases ws with
    | nil => rw [List.intercalate_singleton, List.splitOnP_eq_singleton hw]
    | cons v vs =>
      rw [List.intercalate_cons_cons, List.append_assoc, List.singleton_append,
        List.splitOnP_append_cons_of_forall_mem hw x hx, ih (List.cons_ne_nil v vs) hws]

theorem infix_of_mem_intercalate {sep l : Text} : ∀ {ls : List Text}, l ∈ ls →
    l <:+: sep.intercalate ls
  | [m], h => by
    rw [List.mem_singleton] at h
    exact ⟨[], [], by rw [h, List.intercalate_singleton, List.nil_append, List.append_nil]⟩
  | m :: m' :: ms, h => by
    rw [List.intercalate_cons_cons]
    rcases List.mem_cons.mp h with rfl | h
    · exact ⟨[], sep ++ sep.intercalate (m' :: ms), by simp⟩
    · exact (infix_of_mem_intercalate h).trans (List.suffix_append _ _).isInfix

end Graft.Text
