import Graft.Proofs.Script.Spans
import Graft.Script.Bracket

/-
Properly nested brackets.

* `settle stack ts` — the brackets still to be closed after tokens, innermost first;
* `Nested ts` — tokens that close every bracket they open, and no other;
* `enclosed?_eq_some_iff` — **a group is a bracket, nested tokens and the bracket that closes it**;
* `enclosed?_around` — what nested tokens stand in a group, or behind it, does not matter to its end;
* `Moves f`, `enclosed?_map` — groups do not depend on where tokens stand.

Design notes: `settle` is `enclosedBy` without the search for an end, so that it can be run over
tokens part by part (`settle_append`) and on top of other open brackets (`settle_stack`).
-/
namespace Graft.Script

/-! ### Open brackets -/

/-- The brackets still to be closed after one token. -/
def settleOne (t : Token) (stack : List Char) : Option (List Char) :=
  match t.closer? with
  | some c => some (c :: stack)
  | none =>
    if t.closes then
      match stack with
      | [] => none
      | c :: stack => if t.isMark c then some stack else none
    else some stack

/-- The brackets still to be closed after tokens, innermost first; none when a bracket is closed
that is not the innermost open one. -/
def settle (stack : List Char) : List Token → Option (List Char)
  | [] => some stack
  | t :: ts => (settleOne t stack).bind fun s => settle s ts

theorem settleOne_opening {t : Token} {c : Char} (h : t.closer? = some c) (s : List Char) :
    settleOne t s = some (c :: s) := by
  simp only [settleOne, h]

theorem settleOne_plain {t : Token} (h : t.closer? = none) (hcl : ¬ t.closes = true)
    (s : List Char) : settleOne t s = some s := by
  simp only [settleOne, h, if_neg hcl]

theorem settleOne_nil {t : Token} (h : t.closer? = none) (hcl : t.closes = true) :
    settleOne t [] = none := by
  simp only [settleOne, h, if_pos hcl]

theorem settleOne_cons {t : Token} (h : t.closer? = none) (hcl : t.closes = true) (c : Char)
    (s : List Char) : settleOne t (c :: s) = if t.isMark c then some s else none := by
  simp only [settleOne, h, if_pos hcl]

/-- What one token does to the open brackets: it opens one, it closes the innermost, or it is none. -/
theorem settleOne_cases {t : Token} {s s' : List Char} (h : settleOne t s = some s') :
    (∃ c, t.closer? = some c ∧ s' = c :: s) ∨
      (t.closer? = none ∧ t.closes = true ∧ ∃ c, t.isMark c = true ∧ s = c :: s') ∨
      (t.closer? = none ∧ ¬ t.closes = true ∧ s' = s) := by
  cases hc : t.closer? with
  | some c =>
    rw [settleOne_opening hc, Option.some.injEq] at h
    exact .inl ⟨c, rfl, h.symm⟩
  | none =>
    by_cases hcl : t.closes = true
    · cases s with
      | nil =>
        rw [settleOne_nil hc hcl] at h
        cases h
      | cons d ds =>
        rw [settleOne_cons hc hcl] at h
        split at h
        next hm => exact .inr (.inl ⟨rfl, hcl, d, hm, by rw [Option.some.inj h]⟩)
        next => cases h
    · rw [settleOne_plain hc hcl, Option.some.injEq] at h
      exact .inr (.inr ⟨rfl, hcl, h.symm⟩)

theorem opens_of_closer? {t : Token} {c : Char} (h : t.closer? = some c) : t.opens = true := by
  rw [Token.opens, h]
  rfl

theorem not_opens_of_closer? {t : Token} (h : t.closer? = none) : ¬ t.opens = true := by
  rw [Token.opens, h]
  decide

/-- Tokens that close every bracket they open, and no other. -/
def Nested (ts : List Token) : Prop := settle [] ts = some []

theorem settle_append (stack : List Char) (a b : List Token) :
    settle stack (a ++ b) = (settle stack a).bind fun s => settle s b := by
  induction a generalizing stack with
  | nil => rfl
  | cons t ts ih =>
    rw [List.cons_append, settle, settle, Option.bind_assoc]
    congr 1
    exact funext fun s => ih s

theorem settleOne_stack {t : Token} {s s' : List Char} (h : settleOne t s = some s')
    (u : List Char) : settleOne t (s ++ u) = some (s' ++ u) := by
  rcases settleOne_cases h with ⟨c, hc, rfl⟩ | ⟨hc, hcl, c, hm, rfl⟩ | ⟨hc, hcl, rfl⟩
  · rw [settleOne_opening hc]
    rfl
  · rw [List.cons_append, settleOne_cons hc hcl, if_pos hm]
  · rw [settleOne_plain hc hcl]

/-- Brackets that are open already stay open. -/
theorem settle_stack {ts : List Token} {s s' : List Char} (h : settle s ts = some s')
    (u : List Char) : settle (s ++ u) ts = some (s' ++ u) := by
  induction ts generalizing s with
  | nil =>
    rw [settle, Option.some.injEq] at h ⊢
    rw [h]
  | cons t ts ih =>
    rw [settle, Option.bind_eq_some_iff] at h
    obtain ⟨m, hone, hrest⟩ := h
    rw [settle, settleOne_stack hone u, Option.bind_some, ih hrest]

theorem Nested.settle {ts : List Token} (h : Nested ts) (s : List Char) :
    settle s ts = some s := settle_stack h s

theorem nested_nil : Nested [] := rfl

theorem Nested.append {a b : List Token} (ha : Nested a) (hb : Nested b) : Nested (a ++ b) := by
  rw [Nested, settle_append, ha.settle, Option.bind_some, hb.settle]

/-- Nested tokens change nothing where they are put. -/
theorem settle_splice {r : List Token} (hr : Nested r) (s : List Char) (a b : List Token) :
    settle s (a ++ (r ++ b)) = settle s (a ++ b) := by
  rw [settle_append, settle_append]
  congr 1
  exact funext fun m => by rw [settle_append, hr.settle, Option.bind_some]

theorem nested_splice {r : List Token} (hr : Nested r) (a b : List Token) :
    Nested (a ++ (r ++ b)) ↔ Nested (a ++ b) := by
  rw [Nested, settle_splice hr]
  rfl

/-! ### Groups -/

theorem isMark_iff {t : Token} {c : Char} : t.isMark c = true ↔ t.kind = .punct ∧ t.text = [c] := by
  rw [Token.isMark, Bool.and_eq_true, beq_iff_eq, beq_iff_eq]

theorem isMark_unique {t : Token} {c d : Char} (hc : t.isMark c = true) (hd : t.isMark d = true) :
    c = d := by
  rw [isMark_iff] at hc hd
  exact List.head_eq_of_cons_eq (hc.2.symm.trans hd.2)

theorem not_isMark_of_isMark {t : Token} {c d : Char} (h : t.isMark c = true) (hcd : c ≠ d) :
    ¬ t.isMark d = true := fun hd => hcd (isMark_unique h hd)

/-- A closing bracket. -/
def isCloser (c : Char) : Bool := c = ')' || c = ']' || c = '}'

theorem isCloser_of_closer? {t : Token} {c : Char} (h : t.closer? = some c) :
    isCloser c = true := by
  unfold Token.closer? at h
  split at h
  · cases h; rfl
  split at h
  · cases h; rfl
  split at h
  · cases h; rfl
  · cases h

theorem closer?_of_isMark {t : Token} {c : Char} (hc : isCloser c = true)
    (h : t.isMark c = true) : t.closer? = none := by
  have hne {d : Char} (hd : isCloser d = false) : ¬ t.isMark d = true := by
    intro hm
    rw [isMark_unique hm h, hc] at hd
    cases hd
  rw [Token.closer?, if_neg (hne (by decide)), if_neg (hne (by decide)), if_neg (hne (by decide))]

theorem closes_of_isMark {t : Token} {c : Char} (hc : isCloser c = true) (h : t.isMark c = true) :
    t.closes = true := by
  simp only [isCloser, Bool.or_eq_true, decide_eq_true_eq] at hc
  rcases hc with (rfl | rfl) | rfl <;> simp [Token.closes, h]

/-- A bracket. -/
def isBracket (c : Char) : Bool := c = '(' || c = '[' || c = '{' || isCloser c

/-- A token that is no bracket. -/
def Plain (t : Token) : Prop := t.opens = false ∧ t.closes = false

theorem plain_of_not_isMark {t : Token} (h : ∀ c, isBracket c = true → t.isMark c = false) :
    Plain t := by
  have hno {c : Char} (hc : isBracket c = true) : ¬ t.isMark c = true := by
    rw [h c hc]
    decide
  constructor
  · rw [Token.opens, Token.closer?, if_neg (hno (by decide)), if_neg (hno (by decide)),
      if_neg (hno (by decide))]
    rfl
  · rw [Token.closes, h _ (by decide), h _ (by decide), h _ (by decide)]
    rfl

theorem plain_of_kind {t : Token} (h : t.kind ≠ .punct) : Plain t := by
  refine plain_of_not_isMark fun c _ => ?_
  rw [← Bool.not_eq_true, isMark_iff]
  exact fun hm => h hm.1

theorem plain_of_isMark {t : Token} {c : Char} (h : t.isMark c = true) (hc : isBracket c = false) :
    Plain t := by
  refine plain_of_not_isMark fun d hd => ?_
  rw [← Bool.not_eq_true]
  intro hm
  rw [isMark_unique hm h, hc] at hd
  cases hd

theorem plain_of_isWord {t : Token} {w : Text} (h : t.isWord w = true) : Plain t := by
  rw [Token.isWord, Bool.and_eq_true, beq_iff_eq] at h
  exact plain_of_kind (by rw [h.1]; decide)

theorem opens_of_closes {t : Token} (h : t.closes = true) : ¬ t.opens = true := by
  have hmark : ∃ c, isCloser c = true ∧ t.isMark c = true := by
    rw [Token.closes, Bool.or_eq_true, Bool.or_eq_true] at h
    rcases h with (h | h) | h
    · exact ⟨_, rfl, h⟩
    · exact ⟨_, rfl, h⟩
    · exact ⟨_, rfl, h⟩
  obtain ⟨c, hc, hm⟩ := hmark
  exact not_opens_of_closer? (closer?_of_isMark hc hm)

theorem settleOne_closing {t : Token} {c : Char} (hc : isCloser c = true) (h : t.isMark c = true)
    (s : List Char) : settleOne t (c :: s) = some s := by
  rw [settleOne_cons (closer?_of_isMark hc h) (closes_of_isMark hc h), if_pos h]

/-- With open brackets before its own, a group ends with a token, or goes on with the brackets that the
token leaves open. -/
theorem enclosedBy_cons {c : Char} (hc : isCloser c = true) (s : List Char) (t : Token) (ts : List Token) :
    enclosedBy (s ++ [c]) (t :: ts) = if s = [] ∧ t.isMark c = true then some ⟨[], t, ts⟩ else
      (settleOne t s).bind fun s' => (enclosedBy (s' ++ [c]) ts).map (Group.cons t) := by
  cases hopen : t.closer? with
  | some d =>
    have hend : ¬ (s = [] ∧ t.isMark c = true) := by
      rintro ⟨-, hm⟩
      rw [closer?_of_isMark hc hm] at hopen
      cases hopen
    rw [if_neg hend, settleOne_opening hopen]
    simp only [enclosedBy, hopen, List.cons_append, Option.bind_some]
  | none =>
    by_cases hcl : t.closes = true
    · cases s with
      | nil =>
        simp only [List.nil_append, enclosedBy, hopen, hcl, if_true, true_and, settleOne_nil hopen hcl,
          Option.bind_none]
      | cons d ds =>
        have hread : enclosedBy (d :: ds ++ [c]) (t :: ts) =
            if t.isMark d then (enclosedBy (ds ++ [c]) ts).map (Group.cons t) else none := by
          cases ds <;> simp only [List.cons_append, List.nil_append, enclosedBy, hopen, if_pos hcl]
        have hend : ¬ (d :: ds = [] ∧ t.isMark c = true) := fun h => absurd h.1 (by simp)
        rw [hread, if_neg hend, settleOne_cons hopen hcl]
        split <;> rfl
    · rw [if_neg fun h => hcl (closes_of_isMark hc h.2), settleOne_plain hopen hcl]
      simp only [enclosedBy, hopen, if_neg hcl, Option.bind_some]

/-- Where a group does not end with the first token, that is the first token inside of it. -/
theorem split_cons_iff {s : List Char} {c : Char} {t : Token} {ts : List Token} {g : Group}
    (hend : ¬ (s = [] ∧ t.isMark c = true)) :
    (t :: ts = g.inside ++ g.closing :: g.after ∧ settle s g.inside = some [] ∧
      g.closing.isMark c = true) ↔
    ∃ s', settleOne t s = some s' ∧ ∃ g' : Group, (ts = g'.inside ++ g'.closing :: g'.after ∧
      settle s' g'.inside = some [] ∧ g'.closing.isMark c = true) ∧ Group.cons t g' = g := by
  constructor
  · rintro ⟨hts, hset, hm⟩
    obtain ⟨inside, closing, after⟩ := g
    cases inside with
    | nil =>
      rw [settle, Option.some.injEq] at hset
      simp only [List.nil_append, List.cons.injEq] at hts
      exact absurd ⟨hset, hts.1 ▸ hm⟩ hend
    | cons u us =>
      simp only [List.cons_append, List.cons.injEq] at hts
      obtain ⟨rfl, hts⟩ := hts
      obtain ⟨s', hone, hset⟩ := Option.bind_eq_some_iff.mp hset
      exact ⟨s', hone, ⟨us, closing, after⟩, ⟨hts, hset, hm⟩, rfl⟩
  · rintro ⟨s', hone, g', ⟨rfl, hset, hm⟩, rfl⟩
    exact ⟨rfl, Option.bind_eq_some_iff.mpr ⟨s', hone, hset⟩, hm⟩

/-- A group with open brackets before its own: what stands inside closes these, and what follows
closes its own. -/
theorem enclosedBy_eq_some_iff {s : List Char} {c : Char} (hc : isCloser c = true)
    {ts : List Token} {g : Group} : enclosedBy (s ++ [c]) ts = some g ↔
      ts = g.inside ++ g.closing :: g.after ∧ settle s g.inside = some [] ∧
        g.closing.isMark c = true := by
  induction ts generalizing s g with
  | nil =>
    rw [enclosedBy]
    exact iff_of_false (by simp) fun h => absurd h.1.symm (by simp)
  | cons t ts ih =>
    rw [enclosedBy_cons hc]
    split
    next hend =>
      obtain ⟨rfl, hm⟩ := hend
      rw [Option.some.injEq]
      constructor
      · rintro rfl
        exact ⟨rfl, rfl, hm⟩
      · rintro ⟨hts, hset, -⟩
        obtain ⟨inside, closing, after⟩ := g
        cases inside with
        | nil =>
          simp only [List.nil_append, List.cons.injEq] at hts
          rw [hts.1, hts.2]
        | cons u us =>
          -- No bracket is open that the first token could close.
          simp only [List.cons_append, List.cons.injEq] at hts
          rw [settle, ← hts.1, settleOne_nil (closer?_of_isMark hc hm) (closes_of_isMark hc hm)] at hset
          cases hset
    next hend =>
      rw [split_cons_iff hend]
      simp only [Option.bind_eq_some_iff, Option.map_eq_some_iff, ih]

/-- **A group is a bracket, nested tokens and the bracket that closes it.** -/
theorem enclosed?_eq_some_iff {o : Token} {ts : List Token} {g : Group} :
    enclosed? (o :: ts) = some g ↔ ∃ c, o.closer? = some c ∧
      ts = g.inside ++ g.closing :: g.after ∧ Nested g.inside ∧ g.closing.isMark c = true := by
  rw [enclosed?, Option.bind_eq_some_iff]
  constructor
  · rintro ⟨c, hc, hg⟩
    exact ⟨c, hc, (enclosedBy_eq_some_iff (s := []) (isCloser_of_closer? hc)).mp hg⟩
  · rintro ⟨c, hc, hg⟩
    exact ⟨c, hc, (enclosedBy_eq_some_iff (s := []) (isCloser_of_closer? hc)).mpr hg⟩

/-- What follows a group does not matter to it. -/
theorem enclosed?_append {o : Token} {ts : List Token} {g : Group} (h : enclosed? (o :: ts) = some g)
    (more : List Token) :
    enclosed? (o :: (ts ++ more)) = some { g with after := g.after ++ more } := by
  obtain ⟨c, hc, hts, hin, hm⟩ := enclosed?_eq_some_iff.mp h
  refine enclosed?_eq_some_iff.mpr ⟨c, hc, ?_, hin, hm⟩
  rw [hts, List.append_assoc]
  rfl

/-- The tokens of a group, one after the other. -/
theorem eq_of_enclosed? {o : Token} {ts : List Token} {g : Group}
    (h : enclosed? (o :: ts) = some g) : ts = g.inside ++ g.closing :: g.after := by
  obtain ⟨c, -, hts, -, -⟩ := enclosed?_eq_some_iff.mp h
  exact hts

/-! ### Groups and nested tokens -/

/-- Brackets that are closed in the end are closed somewhere: where the innermost open one is. -/
theorem settle_pop {ts : List Token} {σ s s' : List Char} {c : Char}
    (h : settle (σ ++ c :: s) ts = some s') (hlen : s'.length ≤ s.length) :
    ∃ X cl Y, ts = X ++ cl :: Y ∧ settle σ X = some [] ∧ cl.isMark c = true ∧
      settle s Y = some s' := by
  induction ts generalizing σ with
  | nil =>
    rw [settle, Option.some.injEq] at h
    rw [← h, List.length_append, List.length_cons] at hlen
    omega
  | cons t ts ih =>
    rw [settle, Option.bind_eq_some_iff] at h
    obtain ⟨m, hone, hrest⟩ := h
    have hstep {σ' : List Char} (hσ : settleOne t σ = some σ') (hm : m = σ' ++ c :: s) :
        ∃ X cl Y, t :: ts = X ++ cl :: Y ∧ settle σ X = some [] ∧ cl.isMark c = true ∧
          settle s Y = some s' := by
      obtain ⟨X, cl, Y, rfl, hX, hcl, hY⟩ := ih (hm ▸ hrest)
      refine ⟨t :: X, cl, Y, rfl, ?_, hcl, hY⟩
      rw [settle, hσ]
      exact hX
    rcases settleOne_cases hone with ⟨d, hc, rfl⟩ | ⟨hc, hcl, d, hm, hσ⟩ | ⟨hc, hcl, rfl⟩
    · exact hstep (settleOne_opening hc σ) rfl
    · cases σ with
      | nil =>
        obtain ⟨rfl, rfl⟩ := List.cons.inj hσ
        exact ⟨[], t, ts, rfl, rfl, hm, hrest⟩
      | cons e σ =>
        obtain ⟨rfl, rfl⟩ := List.cons.inj hσ
        exact hstep (by rw [settleOne_cons hc hcl, if_pos hm]) rfl
    · exact hstep (settleOne_plain hc hcl σ) rfl

/-- Among nested tokens every bracket that opens begins a group. -/
theorem exists_group_of_nested {A X : List Token} {x : Token} {c : Char}
    (h : Nested (A ++ x :: X)) (hx : x.closer? = some c) :
    ∃ I cl Y, X = I ++ cl :: Y ∧ Nested I ∧ cl.isMark c = true := by
  rw [Nested, settle_append, Option.bind_eq_some_iff] at h
  obtain ⟨σ, -, h⟩ := h
  have hopen : settle ([] ++ c :: σ) X = some [] := by
    rw [← h, settle, settleOne_opening hx]
    rfl
  obtain ⟨I, cl, Y, hX, hI, hcl, -⟩ := settle_pop hopen (Nat.zero_le _)
  exact ⟨I, cl, Y, hX, hI, hcl⟩

theorem exists_enclosed?_of_nested {A X : List Token} {x : Token} (h : Nested (A ++ x :: X))
    (hx : x.opens = true) : ∃ g, enclosed? (x :: X) = some g := by
  obtain ⟨c, hc⟩ := Option.isSome_iff_exists.mp hx
  obtain ⟨I, cl, Y, rfl, hI, hcl⟩ := exists_group_of_nested h hc
  exact ⟨⟨I, cl, Y⟩, enclosed?_eq_some_iff.mpr ⟨c, hc, rfl, hI, hcl⟩⟩

variable {r : List Token} {o : Token} {a b : List Token}

/-- Nested tokens put among others stand after a group, or inside of it. -/
theorem enclosed?_splice_some (hr : Nested r) {g : Group}
    (h : enclosed? (o :: (a ++ b)) = some g) :
    (∃ y, a = g.inside ++ g.closing :: y ∧
      enclosed? (o :: (a ++ (r ++ b))) = some ⟨g.inside, g.closing, y ++ (r ++ b)⟩) ∨
    ∃ y, g.inside = a ++ y ∧ b = y ++ g.closing :: g.after ∧
      enclosed? (o :: (a ++ (r ++ b))) = some ⟨a ++ (r ++ y), g.closing, g.after⟩ := by
  obtain ⟨c, hc, hts, hin, hm⟩ := enclosed?_eq_some_iff.mp h
  have hinside {y : List Token} (hy : g.inside = a ++ y) (hb : b = y ++ g.closing :: g.after) :
      enclosed? (o :: (a ++ (r ++ b))) = some ⟨a ++ (r ++ y), g.closing, g.after⟩ := by
    refine enclosed?_eq_some_iff.mpr ⟨c, hc, ?_, ?_, hm⟩
    · rw [hb]
      simp only [List.append_assoc]
    · rw [hy] at hin
      exact (nested_splice hr a y).mpr hin
  rcases List.append_eq_append_iff.mp hts with ⟨y, hy, hb⟩ | ⟨y, ha, hb⟩
  · exact .inr ⟨y, hy, hb, hinside hy hb⟩
  · cases y with
    | nil =>
      have hy : g.inside = a ++ [] := by rw [ha, List.append_nil, List.append_nil]
      exact .inr ⟨[], hy, hb.symm, hinside hy hb.symm⟩
    | cons y ys =>
      rw [List.cons_append, List.cons.injEq] at hb
      obtain ⟨rfl, hb⟩ := hb
      refine .inl ⟨ys, ha, enclosed?_eq_some_iff.mpr ⟨c, hc, ?_, hin, hm⟩⟩
      rw [ha]
      simp only [List.append_assoc, List.cons_append]

/-- Nested tokens do not close a bracket before them. -/
theorem enclosed?_splice_none (hr : Nested r) (h : enclosed? (o :: (a ++ b)) = none) :
    enclosed? (o :: (a ++ (r ++ b))) = none := by
  cases hg : enclosed? (o :: (a ++ (r ++ b))) with
  | none => rfl
  | some g =>
    obtain ⟨c, hc, hts, hin, hm⟩ := enclosed?_eq_some_iff.mp hg
    have hnone {i y : List Token} (hi : Nested i) (hy : a ++ b = i ++ g.closing :: y) : False := by
      have hsome : enclosed? (o :: (a ++ b)) = some ⟨i, g.closing, y⟩ :=
        enclosed?_eq_some_iff.mpr ⟨c, hc, hy, hi, hm⟩
      rw [h] at hsome
      cases hsome
    -- A closing bracket in the nested tokens would close one of theirs.
    have hmiddle {y z : List Token} (hy : Nested (a ++ y)) (hz : r = y ++ g.closing :: z) : False := by
      rw [hz, Nested, settle_append, Option.bind_eq_some_iff] at hr
      obtain ⟨ρ, hρ, hr⟩ := hr
      rw [Nested, settle_append, Option.bind_eq_some_iff] at hy
      obtain ⟨σ, -, hy⟩ := hy
      have hboth := settle_stack hρ σ
      rw [List.nil_append, hy, Option.some.injEq, eq_comm, List.append_eq_nil_iff] at hboth
      have hcl := isCloser_of_closer? hc
      rw [hboth.1, settle, settleOne_nil (closer?_of_isMark hcl hm) (closes_of_isMark hcl hm)] at hr
      cases hr
    rcases List.append_eq_append_iff.mp hts with ⟨y, hy, hb⟩ | ⟨y, ha, hb⟩
    · rcases List.append_eq_append_iff.mp hb with ⟨z, rfl, rfl⟩ | ⟨z, hr', hz⟩
      · rw [hy] at hin
        exact (hnone ((nested_splice hr a z).mp hin) (by rw [List.append_assoc])).elim
      · cases z with
        | nil =>
          rw [List.append_nil] at hr'
          rw [hy, ← hr'] at hin
          have hin' : Nested (a ++ (r ++ [])) := by rwa [List.append_nil]
          have ha := (nested_splice hr a []).mp hin'
          rw [List.append_nil] at ha
          exact (hnone ha (y := g.after) (by rw [hz]; rfl)).elim
        | cons z zs =>
          rw [List.cons_append, List.cons.injEq] at hz
          rw [hy] at hin
          exact (hmiddle hin (by rw [hr', hz.1])).elim
    · cases y with
      | nil =>
        rw [List.append_nil] at ha
        rw [← ha] at hin
        rw [List.nil_append] at hb
        cases r with
        | nil => exact (hnone hin (by rw [hb]; rfl)).elim
        | cons t ts =>
          rw [List.cons_append, List.cons.injEq] at hb
          exact (hmiddle (y := []) (by rwa [List.append_nil]) (by rw [hb.1]; rfl)).elim
      | cons y ys =>
        rw [List.cons_append, List.cons.injEq] at hb
        refine (hnone hin (y := ys ++ b) ?_).elim
        rw [ha, ← hb.1]
        simp only [List.append_assoc, List.cons_append]

/-- Whatever nested tokens are put at a place, a group ends before it, or goes on over it. -/
theorem enclosed?_around (o : Token) (a b : List Token) :
    (∀ r, Nested r → enclosed? (o :: (a ++ (r ++ b))) = none) ∨
    (∃ I c y, a = I ++ c :: y ∧ c.closes = true ∧
      ∀ r, Nested r → enclosed? (o :: (a ++ (r ++ b))) = some ⟨I, c, y ++ (r ++ b)⟩) ∨
    ∃ y c z, b = y ++ c :: z ∧ ∀ r, Nested r → Nested (a ++ (r ++ y)) ∧
      enclosed? (o :: (a ++ (r ++ b))) = some ⟨a ++ (r ++ y), c, z⟩ := by
  cases h : enclosed? (o :: (a ++ b)) with
  | none => exact .inl fun r hr => enclosed?_splice_none hr h
  | some g =>
    obtain ⟨k, hk, -, hin, hm⟩ := enclosed?_eq_some_iff.mp h
    rcases enclosed?_splice_some nested_nil h with ⟨y, ha, -⟩ | ⟨y, hy, hb, -⟩
    · refine .inr (.inl ⟨g.inside, g.closing, y, ha, ?_, fun r _ => ?_⟩)
      · exact closes_of_isMark (isCloser_of_closer? hk) hm
      · refine enclosed?_eq_some_iff.mpr ⟨k, hk, ?_, hin, hm⟩
        rw [ha]
        simp only [List.append_assoc, List.cons_append]
    · rw [hy] at hin
      refine .inr (.inr ⟨y, g.closing, g.after, hb, fun r hr => ?_⟩)
      have hin' : Nested (a ++ (r ++ y)) := (nested_splice hr a y).mpr hin
      refine ⟨hin', enclosed?_eq_some_iff.mpr ⟨k, hk, ?_, hin', hm⟩⟩
      rw [hb]
      simp only [List.append_assoc]

theorem enclosed?_change_after {ts : List Token} {g : Group} (h : enclosed? (o :: ts) = some g)
    (after : List Token) : enclosed? (o :: (g.inside ++ g.closing :: after)) =
      some ⟨g.inside, g.closing, after⟩ := by
  obtain ⟨c, hc, -, hin, hm⟩ := enclosed?_eq_some_iff.mp h
  exact enclosed?_eq_some_iff.mpr ⟨c, hc, rfl, hin, hm⟩

/-! ### Groups elsewhere -/

/-- A map that changes the offsets of tokens and nothing else. -/
def Moves (f : Token → Token) : Prop := ∀ t, (f t).bare = t.bare

theorem moves_bare : Moves Token.bare := fun _ => rfl

/-- A group with the offsets of its tokens changed. -/
def Group.map (f : Token → Token) (g : Group) : Group := ⟨g.inside.map f, f g.closing, g.after.map f⟩

section
variable {f : Token → Token} (hf : Moves f)

include hf

/-- What is read off a token without its offset is the same. -/
theorem Moves.congr {α : Type} {g : Token → α} (hg : ∀ t, g t.bare = g t) (t : Token) :
    g (f t) = g t := by
  rw [← hg, hf, hg]

theorem Moves.isMark (c : Char) (t : Token) : (f t).isMark c = t.isMark c := hf.congr (fun _ => rfl) t

theorem Moves.closer? (t : Token) : (f t).closer? = t.closer? := hf.congr (fun _ => rfl) t

theorem Moves.closes (t : Token) : (f t).closes = t.closes := hf.congr (fun _ => rfl) t

theorem Moves.map_bare (ts : List Token) : (ts.map f).map Token.bare = ts.map Token.bare := by
  rw [List.map_map]
  exact List.map_congr_left fun t _ => hf t

theorem settle_map (s : List Char) (ts : List Token) : settle s (ts.map f) = settle s ts := by
  have hone (t : Token) (s : List Char) : settleOne (f t) s = settleOne t s :=
    hf.congr (g := fun t => settleOne t s) (fun _ => rfl) t
  induction ts generalizing s with
  | nil => rfl
  | cons t ts ih =>
    rw [List.map_cons, settle, settle, hone]
    congr 1
    exact funext fun m => ih m

theorem enclosedBy_map (s : List Char) (ts : List Token) :
    enclosedBy s (ts.map f) = (enclosedBy s ts).map (Group.map f) := by
  have hcons (t : Token) (o : Option Group) :
      (o.map (Group.map f)).map (Group.cons (f t)) = (o.map (Group.cons t)).map (Group.map f) := by
    cases o <;> rfl
  fun_induction enclosedBy s ts with
  | case1 => rfl
  | case2 s t ts c hc ih => simp only [List.map_cons, enclosedBy, hf.closer?, hc, ih, hcons]
  | case3 t ts hc hcl => simp [enclosedBy, hf.closer?, hf.closes, hc, hcl]
  | case4 t ts hc hcl c hm =>
    simp [enclosedBy, hf.closer?, hf.closes, hf.isMark, hc, hcl, hm, Group.map]
  | case5 t ts hc hcl c hm => simp [enclosedBy, hf.closer?, hf.closes, hf.isMark, hc, hcl, hm]
  | case6 t ts hc hcl c d s hm ih =>
    simp only [List.map_cons, enclosedBy, hf.closer?, hc, hf.closes, hcl, if_true, hf.isMark, hm, ih,
      hcons]
  | case7 t ts hc hcl c d s hm => simp [enclosedBy, hf.closer?, hf.closes, hf.isMark, hc, hcl, hm]
  | case8 s t ts hc hcl ih =>
    simp only [List.map_cons, enclosedBy, hf.closer?, hc, hf.closes, hcl, ih, hcons]
    rfl

/-- Groups do not depend on where tokens stand. -/
theorem enclosed?_map (ts : List Token) :
    enclosed? (ts.map f) = (enclosed? ts).map (Group.map f) := by
  cases ts with
  | nil => rfl
  | cons t ts =>
    rw [List.map_cons, enclosed?, enclosed?, hf.closer?]
    cases t.closer? with
    | none => rfl
    | some c => exact enclosedBy_map hf [c] ts

end

theorem nested_congr {ts ts' : List Token} (h : ts.map Token.bare = ts'.map Token.bare) :
    Nested ts ↔ Nested ts' := by
  rw [Nested, Nested, ← settle_map moves_bare, h, settle_map moves_bare]

/-- Whether a group begins does not depend on where tokens stand. -/
theorem enclosed?_eq_none_congr {ts ts' : List Token} (h : ts.map Token.bare = ts'.map Token.bare) :
    enclosed? ts = none ↔ enclosed? ts' = none := by
  have hbare := congrArg enclosed? h
  rw [enclosed?_map moves_bare, enclosed?_map moves_bare] at hbare
  rw [← Option.map_eq_none_iff, hbare, Option.map_eq_none_iff]

end Graft.Script
