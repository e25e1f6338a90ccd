import Graft.Proofs.Script.Nesting

/-
The entries of lists.

* `parts d ts` — the parts of tokens between commas, empty ones included, from `d` open brackets on;
* `parts_append` — the parts of tokens put together: the last and the first of them become one;
* `split_parts` — **the tokens before a part, and those after it**, to put another in its place;
* `Flat ts`, `flat_group` — tokens that no comma separates, as those of a bracketed group;
* `exists_entries_flat` — flat tokens belong to one entry, and others may take their place there;
* `entries_append_comma`, `entries_single` — a new last entry.

Design notes: a comma counts where no bracket is open, so everything is stated with the number of
open brackets `depthAfter d ts`, which nested tokens do not change.
-/
namespace Graft.Script

/-! ### Open brackets, counted -/

/-- The number of open brackets after a token. -/
def shift (d : Int) (t : Token) : Int :=
  if t.opens then d + 1 else if t.closes then d - 1 else d

/-- The number of open brackets after tokens. -/
def depthAfter (d : Int) : List Token → Int
  | [] => d
  | t :: ts => depthAfter (shift d t) ts

theorem depthAfter_append (d : Int) (a b : List Token) :
    depthAfter d (a ++ b) = depthAfter (depthAfter d a) b := by
  induction a generalizing d with
  | nil => rfl
  | cons t ts ih => exact ih _

/-- Where brackets are settled the count is that of the open brackets. -/
theorem shift_of_settleOne {t : Token} {s s' : List Char} (h : settleOne t s = some s') (d : Int) :
    shift (d + s.length) t = d + s'.length := by
  rcases settleOne_cases h with ⟨c, hc, rfl⟩ | ⟨hc, hcl, c, -, rfl⟩ | ⟨hc, hcl, rfl⟩
  · rw [shift, if_pos (opens_of_closer? hc), List.length_cons]
    omega
  · rw [shift, if_neg (not_opens_of_closer? hc), if_pos hcl, List.length_cons]
    omega
  · rw [shift, if_neg (not_opens_of_closer? hc), if_neg hcl]

theorem depthAfter_of_settle {ts : List Token} {s s' : List Char} (h : settle s ts = some s')
    (d : Int) : depthAfter (d + s.length) ts = d + s'.length := by
  induction ts generalizing s with
  | nil =>
    rw [settle, Option.some.injEq] at h
    rw [h]
    rfl
  | cons t ts ih =>
    rw [settle, Option.bind_eq_some_iff] at h
    obtain ⟨m, hone, hrest⟩ := h
    rw [depthAfter, shift_of_settleOne hone, ih hrest]

theorem Nested.depthAfter {ts : List Token} (h : Nested ts) (d : Int) :
    depthAfter d ts = d := by
  have := depthAfter_of_settle h d
  simpa using this

/-! ### Parts -/

/-- The parts of tokens between commas, from `d` open brackets on. -/
def parts (d : Int) (ts : List Token) : List (List Token) :=
  (commaParts d ts).1 :: (commaParts d ts).2

theorem entries_eq (ts : List Token) : entries ts = (parts 0 ts).filter fun e => !e.isEmpty := rfl

theorem parts_nil (d : Int) : parts d [] = [[]] := rfl

theorem parts_comma {t : Token} (h : t.isMark ',' = true) (ts : List Token) :
    parts 0 (t :: ts) = [] :: parts 0 ts := by
  simp [parts, commaParts, h]

theorem parts_cons {d : Int} {t : Token} (h : ¬ (d = 0 ∧ t.isMark ',' = true)) {ts p : List Token}
    {q : List (List Token)} (hts : parts (shift d t) ts = p :: q) :
    parts d (t :: ts) = (t :: p) :: q := by
  rw [parts, List.cons.injEq] at hts
  have hcond : ¬ (decide (d = 0) && t.isMark ',') = true := by simpa using h
  rw [parts, commaParts, if_neg hcond]
  show (t :: (commaParts (shift d t) ts).1) :: (commaParts (shift d t) ts).2 = _
  rw [hts.1, hts.2]

theorem shift_plain {t : Token} (h : Plain t) (d : Int) : shift d t = d := by
  rw [shift, h.1, h.2]
  rfl

theorem shift_comma {t : Token} (h : t.isMark ',' = true) (d : Int) : shift d t = d :=
  shift_plain (plain_of_isMark h (by decide)) d

/-- The parts of tokens put together: the last of the first and the first of the last are one. -/
theorem parts_append {d : Int} {a b x y : List Token} {P Q : List (List Token)}
    (ha : parts d a = P ++ [x]) (hb : parts (depthAfter d a) b = y :: Q) :
    parts d (a ++ b) = P ++ (x ++ y) :: Q := by
  induction a generalizing d P x with
  | nil =>
    rw [parts_nil] at ha
    obtain ⟨rfl, rfl⟩ : P = [] ∧ x = [] := by
      cases P with
      | nil => simpa [eq_comm] using ha
      | cons p ps => simp at ha
    exact hb
  | cons t ts ih =>
    by_cases hk : d = 0 ∧ t.isMark ',' = true
    · obtain ⟨rfl, hk⟩ := hk
      rw [depthAfter, shift_comma hk] at hb
      rw [parts_comma hk] at ha
      rw [List.cons_append, parts_comma hk]
      cases P with
      | nil =>
        rw [List.nil_append, List.cons.injEq] at ha
        exact absurd ha.2 (List.cons_ne_nil _ _)
      | cons p ps =>
        rw [List.cons_append, List.cons.injEq] at ha
        rw [ih ha.2 hb, ← ha.1]
        rfl
    · have hts : parts (shift d t) ts = (commaParts (shift d t) ts).1 :: (commaParts (shift d t) ts).2 :=
        rfl
      rw [parts_cons hk hts] at ha
      rw [List.cons_append]
      cases P with
      | nil =>
        rw [List.nil_append, List.cons.injEq] at ha
        rw [ha.2] at hts
        rw [parts_cons hk (ih (P := []) hts hb), ← ha.1]
        rfl
      | cons p ps =>
        rw [List.cons_append, List.cons.injEq] at ha
        rw [ha.2] at hts
        rw [parts_cons hk (ih (P := _ :: ps) hts hb), ← ha.1]
        rfl

/-- The tokens before a part, and those after it.  Both end with commas, or are empty. -/
structure PartSplit (d : Int) (P : List (List Token)) (e : List Token) (Q : List (List Token))
    (X Y : List Token) : Prop where
  -- The tokens before the part hold the parts before it.
  before : parts d X = P ++ [[]]
  -- The tokens of the part are no other part.
  part : parts (depthAfter d X) e = [e]
  -- The tokens after the part hold the parts after it.
  after : parts (depthAfter (depthAfter d X) e) Y = [] :: Q
  -- There is nothing before the first part.
  first : P = [] → X = []
  -- There is nothing after the last part.
  last : Q = [] → Y = []
  -- A part that has one before it begins outside of brackets.
  opening : P ≠ [] → depthAfter d X = 0
  -- A part that has one after it ends outside of brackets.
  closing : Q ≠ [] → depthAfter (depthAfter d X) e = 0

theorem split_parts {d : Int} {ts e : List Token} {P Q : List (List Token)}
    (h : parts d ts = P ++ e :: Q) : ∃ X Y, ts = X ++ (e ++ Y) ∧ PartSplit d P e Q X Y := by
  induction ts generalizing d P e with
  | nil =>
    rw [parts_nil] at h
    obtain ⟨rfl, rfl, rfl⟩ : P = [] ∧ e = [] ∧ Q = [] := by
      cases P with
      | nil => simpa [eq_comm] using h
      | cons p ps => simp at h
    exact ⟨[], [], rfl, rfl, rfl, rfl, fun _ => rfl, fun _ => rfl, fun h => absurd rfl h,
      fun h => absurd rfl h⟩
  | cons t ts ih =>
    by_cases hk : d = 0 ∧ t.isMark ',' = true
    · obtain ⟨rfl, hk⟩ := hk
      rw [parts_comma hk] at h
      cases P with
      | nil =>
        rw [List.nil_append, List.cons.injEq] at h
        obtain ⟨rfl, rfl⟩ := h
        refine ⟨[], t :: ts, rfl, rfl, rfl, parts_comma hk ts, fun _ => rfl, fun h => ?_,
          fun h => absurd rfl h, fun _ => rfl⟩
        exact absurd h (List.cons_ne_nil _ _)
      | cons p ps =>
        rw [List.cons_append, List.cons.injEq] at h
        obtain ⟨rfl, h⟩ := h
        obtain ⟨X, Y, rfl, hs⟩ := ih h
        have hdepth : depthAfter 0 (t :: X) = depthAfter 0 X := by
          rw [depthAfter, shift_comma hk]
        refine ⟨t :: X, Y, rfl, ?_, ?_, ?_, fun h => ?_, hs.last, fun _ => ?_, ?_⟩
        · rw [parts_comma hk, hs.before]
          rfl
        · rw [hdepth]
          exact hs.part
        · rw [hdepth]
          exact hs.after
        · exact absurd h (List.cons_ne_nil _ _)
        · rw [hdepth]
          cases ps with
          | nil =>
            rw [hs.first rfl]
            rfl
          | cons q qs => exact hs.opening (List.cons_ne_nil _ _)
        · rw [hdepth]
          exact hs.closing
    · have hts : parts (shift d t) ts =
          (commaParts (shift d t) ts).1 :: (commaParts (shift d t) ts).2 := rfl
      rw [parts_cons hk hts] at h
      cases P with
      | nil =>
        rw [List.nil_append, List.cons.injEq] at h
        obtain ⟨rfl, hq⟩ := h
        rw [hq] at hts
        obtain ⟨X, Y, hXY, hs⟩ := ih (P := []) hts
        obtain rfl := hs.first rfl
        exact ⟨[], Y, congrArg (t :: ·) hXY, rfl, parts_cons hk hs.part, hs.after, fun _ => rfl,
          hs.last, fun h => absurd rfl h, hs.closing⟩
      | cons p ps =>
        rw [List.cons_append, List.cons.injEq] at h
        obtain ⟨rfl, hq⟩ := h
        rw [hq] at hts
        obtain ⟨X, Y, rfl, hs⟩ := ih (P := _ :: ps) hts
        refine ⟨t :: X, Y, rfl, ?_, hs.part, hs.after, fun h => ?_, hs.last, fun _ => ?_, hs.closing⟩
        · rw [parts_cons hk hs.before]
          rfl
        · exact absurd h (List.cons_ne_nil _ _)
        · exact hs.opening (List.cons_ne_nil _ _)

/-- Where every part is empty there are only commas. -/
theorem isMark_of_parts_nil {d : Int} {ts : List Token} (h : ∀ p ∈ parts d ts, p = []) :
    ∀ t ∈ ts, t.isMark ',' = true := by
  induction ts generalizing d with
  | nil => simp
  | cons t ts ih =>
    by_cases hk : d = 0 ∧ t.isMark ',' = true
    · obtain ⟨rfl, hk⟩ := hk
      rw [parts_comma hk] at h
      rw [List.forall_mem_cons]
      exact ⟨hk, ih fun p hp => h p (List.mem_cons_of_mem _ hp)⟩
    · rw [parts_cons hk rfl] at h
      exact absurd (h _ List.mem_cons_self) (List.cons_ne_nil _ _)

theorem parts_of_isMark {ts : List Token} (h : ∀ t ∈ ts, t.isMark ',' = true) :
    ∀ p ∈ parts 0 ts, p = [] := by
  induction ts with
  | nil => simp [parts_nil]
  | cons t ts ih =>
    rw [List.forall_mem_cons] at h
    rw [parts_comma h.1, List.forall_mem_cons]
    exact ⟨rfl, ih h.2⟩

/-! ### Flat tokens -/

theorem parts_ne_nil (d : Int) (ts : List Token) : parts d ts ≠ [] := List.cons_ne_nil _ _

theorem exists_parts_concat (d : Int) (ts : List Token) : ∃ P x, parts d ts = P ++ [x] :=
  ⟨_, _, (List.dropLast_concat_getLast (parts_ne_nil d ts)).symm⟩

theorem eq_of_parts_singleton {d : Int} {ts e : List Token} (h : parts d ts = [e]) : ts = e := by
  obtain ⟨X, Y, rfl, hs⟩ := split_parts (P := []) h
  rw [hs.first rfl, hs.last rfl, List.nil_append, List.append_nil]

theorem parts_of_settle {ts : List Token} {s s' : List Char} (h : settle s ts = some s') {d : Int}
    (hd : 0 < d) : parts (d + s.length) ts = [ts] := by
  induction ts generalizing s with
  | nil => rfl
  | cons t ts ih =>
    rw [settle, Option.bind_eq_some_iff] at h
    obtain ⟨m, hone, hrest⟩ := h
    refine parts_cons (by omega) ?_
    rw [shift_of_settleOne hone, ih hrest]

/-- Nested tokens that no comma separates, wherever they are put. -/
structure Flat (ts : List Token) : Prop where
  nested : Nested ts
  parts_eq : ∀ d : Int, 0 ≤ d → parts d ts = [ts]

theorem Flat.append {a b : List Token} (ha : Flat a) (hb : Flat b) : Flat (a ++ b) where
  nested := ha.nested.append hb.nested
  parts_eq d hd := by
    refine parts_append (P := []) (ha.parts_eq d hd) ?_
    rw [ha.nested.depthAfter]
    exact hb.parts_eq d hd

theorem nested_plain {t : Token} (h : Plain t) : Nested [t] := by
  have hc : t.closer? = none := by
    have ho := h.1
    rwa [Token.opens, Option.isSome_eq_false_iff, Option.isNone_iff_eq_none] at ho
  rw [Nested, settle, settleOne_plain hc (ne_true_of_eq_false h.2)]
  rfl

theorem flat_plain {t : Token} (h : Plain t) (hcomma : ¬ t.isMark ',' = true) : Flat [t] where
  nested := nested_plain h
  parts_eq _ _ := parts_cons (fun hm => hcomma hm.2) (parts_nil _)

theorem flat_group {o c : Token} {k : Char} {I : List Token} (ho : o.closer? = some k)
    (hI : Nested I) (hc : c.isMark k = true) : Flat (o :: (I ++ [c])) where
  nested := by
    have hk := isCloser_of_closer? ho
    rw [Nested, settle, settleOne_opening ho, Option.bind_some, settle_append, hI.settle,
      Option.bind_some, settle, settleOne_closing hk hc]
    rfl
  parts_eq d hd := by
    have hopens := opens_of_closer? ho
    have hnot : ¬ o.isMark ',' = true := by
      intro hm
      rw [(plain_of_isMark hm (by decide)).1] at hopens
      cases hopens
    refine parts_cons (fun h => hnot h.2) ?_
    have hshift : shift d o = d + 1 := by rw [shift, if_pos hopens]
    have hset : settle [k] (I ++ [c]) = some [] := by
      rw [settle_append, hI.settle, Option.bind_some, settle,
        settleOne_closing (isCloser_of_closer? ho) hc]
      rfl
    have hinner := parts_of_settle hI (show 0 < d + 1 by omega)
    have hclosing : parts (depthAfter (d + 1) I) [c] = [[c]] := by
      have hcomma : ¬ c.isMark ',' = true := fun hm =>
        absurd (isMark_unique hc hm ▸ isCloser_of_closer? ho) (by decide)
      exact parts_cons (fun h => hcomma h.2) (parts_nil _)
    rw [hshift]
    exact parts_append (P := []) (by simpa using hinner) hclosing

theorem depthAfter_nonneg {a b : List Token} (h : Nested (a ++ b)) : 0 ≤ depthAfter 0 a := by
  rw [Nested, settle_append, Option.bind_eq_some_iff] at h
  obtain ⟨s, hs, -⟩ := h
  have h : depthAfter (0 + (0 : Nat)) a = 0 + s.length := depthAfter_of_settle hs 0
  rw [Int.zero_add, Int.natCast_zero] at h
  omega

/-- Flat tokens among others belong to one part. -/
theorem parts_flat {d : Int} {a b x y : List Token} {P Q : List (List Token)}
    (ha : parts d a = P ++ [x]) (hb : parts (depthAfter d a) b = y :: Q)
    (hd : 0 ≤ depthAfter d a) {G : List Token} (hG : Flat G) :
    parts d (a ++ (G ++ b)) = P ++ (x ++ (G ++ y)) :: Q := by
  have hrest : parts (depthAfter d a) (G ++ b) = (G ++ y) :: Q := by
    refine parts_append (P := []) (hG.parts_eq _ hd) ?_
    rwa [hG.nested.depthAfter]
  exact parts_append ha hrest

/-- Flat tokens in one part may be replaced by others, and it is still one part. -/
theorem parts_flat_replace {d : Int} {a b G G' : List Token} (hd : 0 ≤ depthAfter d a)
    (hG : Flat G) (hG' : Flat G') (h : parts d (a ++ (G ++ b)) = [a ++ (G ++ b)]) :
    parts d (a ++ (G' ++ b)) = [a ++ (G' ++ b)] := by
  obtain ⟨P, x, hP⟩ := exists_parts_concat d a
  obtain ⟨y, Q, hQ⟩ := List.exists_cons_of_ne_nil (parts_ne_nil (depthAfter d a) b)
  rw [parts_flat hP hQ hd hG] at h
  have hpart := parts_flat hP hQ hd hG'
  obtain ⟨rfl, hone⟩ | ⟨-, hone⟩ := List.append_eq_singleton_iff.mp h
  · obtain rfl : Q = [] := (List.cons.inj hone).2
    rw [hpart, eq_of_parts_singleton hP, eq_of_parts_singleton hQ]
    rfl
  · exact absurd hone (List.cons_ne_nil _ _)

theorem depthAfter_nested_replace {G G' : List Token} (hG : Nested G) (hG' : Nested G') (d : Int)
    (a b : List Token) : depthAfter d (a ++ (G' ++ b)) = depthAfter d (a ++ (G ++ b)) := by
  rw [depthAfter_append, depthAfter_append, depthAfter_append, depthAfter_append, hG.depthAfter,
    hG'.depthAfter]

/-! ### Entries -/

/-- A list without entries holds only commas. -/
theorem entries_eq_nil_iff {ts : List Token} :
    entries ts = [] ↔ ∀ t ∈ ts, t.isMark ',' = true := by
  rw [entries_eq, List.filter_eq_nil_iff]
  constructor
  · intro h
    refine isMark_of_parts_nil (d := 0) fun p hp => ?_
    simpa using h p hp
  · intro h p hp
    simp [parts_of_isMark h p hp]

theorem exists_part_of_entries {ts e : List Token} {E F : List (List Token)}
    (h : entries ts = E ++ e :: F) : e ≠ [] ∧ ∃ P Q, parts 0 ts = P ++ e :: Q ∧
      P.filter (fun p => !p.isEmpty) = E ∧ Q.filter (fun p => !p.isEmpty) = F := by
  rw [entries_eq, List.filter_eq_append_iff] at h
  obtain ⟨P, l, hparts, hP, hl⟩ := h
  rw [List.filter_eq_cons_iff] at hl
  obtain ⟨P', Q, rfl, hP', he, hQ⟩ := hl
  refine ⟨by simpa using he, P ++ P', Q, ?_, ?_, hQ⟩
  · rw [hparts, List.append_assoc]
  · rw [List.filter_append, hP, List.filter_eq_nil_iff.mpr hP', List.append_nil]

theorem nonempty_filter_ne_nil {P : List (List Token)} {e : List Token} (he : e ≠ [])
    (Q : List (List Token)) : (P ++ e :: Q).filter (fun p => !p.isEmpty) =
      P.filter (fun p => !p.isEmpty) ++ e :: Q.filter fun p => !p.isEmpty := by
  rw [List.filter_append, List.filter_cons_of_pos (by simpa using he)]

/-- A part of a list may be replaced by other tokens that are one part. -/
theorem PartSplit.parts_replace {P Q : List (List Token)} {e X Y : List Token}
    (h : PartSplit 0 P e Q X Y) {e' : List Token} (hpart : parts (depthAfter 0 X) e' = [e'])
    (hdepth : depthAfter (depthAfter 0 X) e' = depthAfter (depthAfter 0 X) e) :
    parts 0 (X ++ (e' ++ Y)) = P ++ e' :: Q := by
  have hrest : parts (depthAfter 0 X) (e' ++ Y) = e' :: Q := by
    have := parts_append (P := []) hpart (by rw [hdepth]; exact h.after)
    rwa [List.append_nil] at this
  exact parts_append h.before hrest

/-- An entry is a part of its list, and nested when the list is. -/
theorem exists_of_mem_entries {ts e : List Token} (h : e ∈ entries ts) :
    ∃ X Y, ts = X ++ (e ++ Y) ∧ (Nested ts → Nested e) := by
  obtain ⟨E, F, hentries⟩ := List.append_of_mem h
  obtain ⟨-, P, Q, hparts, -, -⟩ := exists_part_of_entries hentries
  obtain ⟨X, Y, rfl, hs⟩ := split_parts hparts
  refine ⟨X, Y, rfl, fun hnested => ?_⟩
  -- The list is settled up to the entry, and again behind it, with no bracket open at either place.
  have hwhole := hnested.depthAfter 0
  rw [Nested, settle_append, Option.bind_eq_some_iff] at hnested
  obtain ⟨s, hX, hrest⟩ := hnested
  rw [settle_append, Option.bind_eq_some_iff] at hrest
  obtain ⟨s', he, -⟩ := hrest
  have hdepth : depthAfter 0 X = 0 := by
    cases P with
    | nil =>
      rw [hs.first rfl]
      rfl
    | cons p ps => exact hs.opening (List.cons_ne_nil _ _)
  have hdepth' : depthAfter 0 e = 0 := by
    cases Q with
    | nil => rwa [hs.last rfl, List.append_nil, depthAfter_append, hdepth] at hwhole
    | cons q qs => rw [← hdepth, hs.closing (List.cons_ne_nil _ _), hdepth]
  have hs0 : depthAfter (0 + (0 : Nat)) X = 0 + s.length := depthAfter_of_settle hX 0
  rw [Int.natCast_zero, Int.add_zero, hdepth, Int.zero_add] at hs0
  obtain rfl : s = [] := List.length_eq_zero_iff.mp (by omega)
  have hs0' : depthAfter (0 + (0 : Nat)) e = 0 + s'.length := depthAfter_of_settle he 0
  rw [Int.natCast_zero, Int.add_zero, hdepth', Int.zero_add] at hs0'
  obtain rfl : s' = [] := List.length_eq_zero_iff.mp (by omega)
  exact he

/-- The tokens around the last entry of a list: those after it are commas. -/
theorem exists_last_entry {ts e : List Token} {E : List (List Token)}
    (h : entries ts = E ++ [e]) : e ≠ [] ∧ ∃ X Y, ts = X ++ (e ++ Y) ∧
      (∀ y ∈ Y, y.isMark ',' = true) ∧ entries (X ++ e) = E ++ [e] := by
  obtain ⟨he, P, Q, hparts, hP, hQ⟩ := exists_part_of_entries h
  obtain ⟨X, Y, hts, hs⟩ := split_parts hparts
  refine ⟨he, X, Y, hts, ?_, ?_⟩
  · refine isMark_of_parts_nil (d := depthAfter (depthAfter 0 X) e) fun p hp => ?_
    rw [hs.after, List.mem_cons] at hp
    rcases hp with rfl | hp
    · rfl
    · simpa using List.filter_eq_nil_iff.mp hQ p hp
  · have hXe : parts 0 (X ++ e) = P ++ [e] := parts_append hs.before hs.part
    rw [entries_eq, hXe, nonempty_filter_ne_nil he, hP]
    rfl

/-- A comma outside of brackets separates the entries before it from those after it. -/
theorem entries_append_comma {a : List Token} (ha : depthAfter 0 a = 0) {k : Token}
    (hk : k.isMark ',' = true) (b : List Token) :
    entries (a ++ k :: b) = entries a ++ entries b := by
  obtain ⟨P, x, hP⟩ : ∃ P x, parts 0 a = P ++ [x] :=
    ⟨_, _, (List.dropLast_concat_getLast (List.cons_ne_nil _ _)).symm⟩
  have hb : parts (depthAfter 0 a) (k :: b) = [] :: parts 0 b := by rw [ha, parts_comma hk]
  rw [entries_eq, parts_append hP hb, List.append_nil, entries_eq, hP, entries_eq,
    ← List.filter_append]
  rw [List.append_assoc]
  rfl

/-- Flat tokens among others belong to one entry. -/
theorem exists_entries_flat {a : List Token} (ha : 0 ≤ depthAfter 0 a) (b : List Token) :
    ∃ E x y F, ∀ G, Flat G → G ≠ [] → entries (a ++ (G ++ b)) = E ++ (x ++ (G ++ y)) :: F := by
  obtain ⟨P, x, hP⟩ := exists_parts_concat 0 a
  obtain ⟨y, Q, hQ⟩ := List.exists_cons_of_ne_nil (parts_ne_nil (depthAfter 0 a) b)
  refine ⟨P.filter fun p => !p.isEmpty, x, y, Q.filter fun p => !p.isEmpty, fun G hG hne => ?_⟩
  rw [entries_eq, parts_flat hP hQ ha hG, nonempty_filter_ne_nil (by simp [hne])]

theorem depthAfter_of_isMark {ts : List Token} (h : ∀ t ∈ ts, t.isMark ',' = true) (d : Int) :
    depthAfter d ts = d := by
  induction ts with
  | nil => rfl
  | cons t ts ih =>
    obtain ⟨ht, hts⟩ := List.forall_mem_cons.mp h
    rw [depthAfter, shift_comma ht, ih hts]

/-- Flat tokens between commas are the only entry. -/
theorem entries_single {X Y : List Token} (hX : ∀ t ∈ X, t.isMark ',' = true)
    (hY : ∀ t ∈ Y, t.isMark ',' = true) {G : List Token} (hG : Flat G) (hne : G ≠ []) :
    entries (X ++ (G ++ Y)) = [G] := by
  have hdepth : depthAfter 0 X = 0 := depthAfter_of_isMark hX 0
  obtain ⟨P, x, hP⟩ := exists_parts_concat 0 X
  obtain ⟨y, Q, hQ⟩ := List.exists_cons_of_ne_nil (parts_ne_nil 0 Y)
  have hempty : ∀ p ∈ P ++ [x], p = [] := hP ▸ parts_of_isMark hX
  have hempty' : ∀ p ∈ y :: Q, p = [] := hQ ▸ parts_of_isMark hY
  obtain rfl : x = [] := hempty x (by simp)
  obtain rfl : y = [] := hempty' y List.mem_cons_self
  have hP' : P.filter (fun p => !p.isEmpty) = [] := by
    rw [List.filter_eq_nil_iff]
    intro p hp
    simp [hempty p (List.mem_append_left _ hp)]
  have hQ' : Q.filter (fun p => !p.isEmpty) = [] := by
    rw [List.filter_eq_nil_iff]
    intro p hp
    simp [hempty' p (List.mem_cons_of_mem _ hp)]
  rw [entries_eq, parts_flat hP (by rwa [hdepth]) (Int.le_of_eq hdepth.symm) hG,
    nonempty_filter_ne_nil (by simp [hne]), hP', hQ']
  simp

theorem entries_flat {G : List Token} (hG : Flat G) (hne : G ≠ []) : entries G = [G] := by
  have h := entries_single (X := []) (Y := []) (by simp) (by simp) hG hne
  rwa [List.nil_append, List.append_nil] at h

end Graft.Script
