import Graft.Proofs.Script.Listing

/-
Brackets and entries by their indices.

Tokens may also be read by index, each where it stands among all of them.  A look-up can then go wrong:
there may be no token at the index.  What is read here is what is read of lists, and no look-up goes
wrong.

* `lookUp xs i` — the element at an index, or the index when there is none;
* `closingAt ts i` — the index of the bracket that closes the one at an index;
* `closingAt_eq` — **it is found where the group ends that begins there**;
* `spansAt ts i j` — the entries between two brackets, each by the indices of its first and last token;
* `exists_spansAt` — **they are the entries of the list**, and each ends before a comma or the closing
  bracket.

Design notes: what is still to be read from an index on is `ts.drop i`, so the inductions are those of the
readers of lists.
-/
namespace Graft.Script

/-! ### Look-ups -/

/-- The element at an index, or the index when there is none. -/
def lookUp {α : Type} (xs : List α) (i : Nat) : Except Nat α :=
  match xs[i]? with
  | some x => .ok x
  | none => .error i

theorem ok_bind {ε α β : Type} (a : α) (f : α → Except ε β) : (Except.ok a >>= f) = f a := rfl

theorem bind_eq_ok {ε α β : Type} {x : Except ε α} {f : α → Except ε β} {b : β} :
    (x >>= f) = .ok b ↔ ∃ a, x = .ok a ∧ f a = .ok b := by
  cases x with
  | error e =>
    constructor
    · intro h
      cases h
    · rintro ⟨a, h, -⟩
      cases h
  | ok a =>
    constructor
    · exact fun h => ⟨a, rfl, h⟩
    · rintro ⟨_, h, hf⟩
      rwa [← Except.ok.inj h] at hf

section
variable {α : Type} {xs rest : List α} {x : α} {i : Nat}

theorem lookUp_of_drop (h : xs.drop i = x :: rest) : lookUp xs i = .ok x := by
  rw [lookUp, ← List.head?_drop, h]
  rfl

theorem drop_succ_of_drop (h : xs.drop i = x :: rest) : xs.drop (i + 1) = rest := by
  rw [← List.tail_drop, h]
  rfl

theorem lt_of_drop (h : xs.drop i = x :: rest) : i < xs.length := by
  by_contra hle
  rw [List.drop_of_length_le (Nat.not_lt.mp hle)] at h
  cases h

theorem not_lt_of_drop (h : xs.drop i = []) : ¬ i < xs.length :=
  Nat.not_lt.mpr (List.drop_eq_nil_iff.mp h)

theorem drop_append_of_drop {a : List α} (h : xs.drop i = a ++ rest) :
    xs.drop (i + a.length) = rest := by
  rw [← List.drop_drop, h, List.drop_left]

/-- Reading that goes well for each element goes well for all. -/
theorem mapM_eq_ok {β : Type} {f : α → Except Nat β} {g : α → β} (h : ∀ x ∈ xs, f x = .ok (g x)) :
    xs.mapM f = .ok (xs.map g) := by
  induction xs with
  | nil => rfl
  | cons x xs ih =>
    obtain ⟨hx, hxs⟩ := List.forall_mem_cons.mp h
    rw [List.mapM_cons, hx, ih hxs]
    rfl

end

/-! ### Brackets -/

/-- The index of the bracket with which every bracket that is open is closed, looked for from an index
on. -/
def closingFrom (ts : List Token) (stack : List Char) (i : Nat) : Except Nat (Option Nat) :=
  if _h : i < ts.length then do
    let t ← lookUp ts i
    match t.closer? with
    | some c => closingFrom ts (c :: stack) (i + 1)
    | none =>
      if t.closes then
        match stack with
        | [] => .ok none
        | c :: stack =>
          if t.isMark c then
            if stack.isEmpty then .ok (some i) else closingFrom ts stack (i + 1)
          else .ok none
      else closingFrom ts stack (i + 1)
  else .ok none
termination_by ts.length - i

/-- The index of the bracket that closes the one at an index. -/
def closingAt (ts : List Token) (i : Nat) : Except Nat (Option Nat) := closingFrom ts [] i

section
variable {ts rest : List Token} {t : Token} {i : Nat}

theorem closingFrom_cons (h : ts.drop i = t :: rest) (stack : List Char) :
    closingFrom ts stack i =
      match t.closer? with
      | some c => closingFrom ts (c :: stack) (i + 1)
      | none =>
        if t.closes then
          match stack with
          | [] => .ok none
          | c :: stack =>
            if t.isMark c then
              if stack.isEmpty then .ok (some i) else closingFrom ts stack (i + 1)
            else .ok none
        else closingFrom ts stack (i + 1) := by
  rw [closingFrom, dif_pos (lt_of_drop h), lookUp_of_drop h]
  rfl

/-- From an index on, the closing bracket is found where the group ends. -/
theorem closingFrom_eq {stack : List Char} (h : ts.drop i = rest) :
    closingFrom ts stack i = .ok ((enclosedBy stack rest).map fun g => i + g.inside.length) := by
  -- A token in front of what stands inside moves the end by one.
  have hstep {t : Token} {i : Nat} {o : Option Group} :
      (o.map (Group.cons t)).map (fun g => i + g.inside.length) =
        o.map fun g => i + 1 + g.inside.length := by
    rw [Option.map_map]
    refine congrArg (fun f => Option.map f o) (funext fun g => ?_)
    show i + (g.inside.length + 1) = i + 1 + g.inside.length
    omega
  fun_induction enclosedBy stack rest generalizing i with
  | case1 => rw [closingFrom, dif_neg (not_lt_of_drop h)]; rfl
  | case2 stack t rest c hc ih =>
    rw [closingFrom_cons h, hc, hstep]
    exact ih (drop_succ_of_drop h)
  | case3 t rest hc hcl =>
    rw [closingFrom_cons h, hc]
    simp only [hcl, if_true, Option.map_none]
  | case4 t rest hc hcl c hm =>
    rw [closingFrom_cons h, hc]
    simp only [hcl, hm, if_true, List.isEmpty_nil, Option.map_some, List.length_nil, Nat.add_zero]
  | case5 t rest hc hcl c hm =>
    rw [closingFrom_cons h, hc]
    simp only [hcl, hm, if_true, Option.map_none]
    rfl
  | case6 t rest hc hcl c d stack hm ih =>
    rw [closingFrom_cons h, hc, hstep]
    simp only [hcl, hm, if_true, List.isEmpty_cons]
    exact ih (drop_succ_of_drop h)
  | case7 t rest hc hcl c d stack hm =>
    rw [closingFrom_cons h, hc]
    simp only [hcl, hm, if_true, Option.map_none]
    rfl
  | case8 stack t rest hc hcl ih =>
    rw [closingFrom_cons h, hc, hstep]
    simp only [hcl]
    exact ih (drop_succ_of_drop h)

/-- **The bracket that closes the one at an index is found where the group ends that begins there.** -/
theorem closingAt_eq {c : Char} (h : ts.drop i = t :: rest) (ht : t.closer? = some c) :
    closingAt ts i = .ok ((enclosed? (t :: rest)).map fun g => i + 1 + g.inside.length) := by
  have hgroup : enclosed? (t :: rest) = enclosedBy [c] rest := by rw [enclosed?, ht]; rfl
  rw [closingAt, closingFrom_cons h, ht, hgroup]
  exact closingFrom_eq (drop_succ_of_drop h)

theorem le_of_closingFrom {stack : List Char} {j : Nat} (h : closingFrom ts stack i = .ok (some j)) :
    i ≤ j := by
  rw [closingFrom_eq rfl, Except.ok.injEq, Option.map_eq_some_iff] at h
  obtain ⟨g, -, rfl⟩ := h
  exact Nat.le_add_right _ _

end

/-! ### Entries -/

/-- The entries up to an index, each by the indices of its first and last token; `depth` counts the
brackets that are open, and `first` is where the current entry begins. -/
def spansFrom (ts : List Token) (close : Nat) (depth : Int) (first : Option Nat) (i : Nat) :
    Except Nat (List (Nat × Nat)) :=
  if _h : i < close then do
    let t ← lookUp ts i
    if t.opens then spansFrom ts close (depth + 1) (some (first.getD i)) (i + 1)
    else if t.closes then spansFrom ts close (depth - 1) (some (first.getD i)) (i + 1)
    else if depth = 0 && t.isMark ',' then
      let spans ← spansFrom ts close depth none (i + 1)
      return (first.map fun a => (a, i - 1)).toList ++ spans
    else spansFrom ts close depth (some (first.getD i)) (i + 1)
  else .ok (first.map fun a => (a, close - 1)).toList
termination_by close - i

/-- The entries between the brackets at two indices. -/
def spansAt (ts : List Token) (opening closing : Nat) : Except Nat (List (Nat × Nat)) :=
  spansFrom ts closing 0 none (opening + 1)

/-- The tokens of an entry. -/
def cut (ts : List Token) (s : Nat × Nat) : List Token := (ts.take (s.2 + 1)).drop s.1

/-- The indices of an entry before the index of a closing bracket. -/
structure IsSpan (ts : List Token) (close : Nat) (s : Nat × Nat) : Prop where
  le : s.1 ≤ s.2
  lt : s.2 < close
  -- A comma follows, or the bracket.
  next : s.2 + 1 = close ∨ ∃ t, ts[s.2 + 1]? = some t ∧ t.isMark ',' = true

/-- The tokens of the current entry, as far as it has been read. -/
def pending (ts : List Token) (first : Option Nat) (i : Nat) : List Token :=
  (ts.take i).drop (first.getD i)

section
variable {ts rest : List Token} {t : Token} {close i : Nat}

theorem pending_none : pending ts none i = [] := by
  rw [pending]
  exact List.drop_of_length_le (by rw [List.length_take]; exact Nat.min_le_left _ _)

theorem pending_succ {first : Option Nat} (h : ts.drop i = t :: rest) (hfirst : ∀ a ∈ first, a < i) :
    pending ts (some (first.getD i)) (i + 1) = pending ts first i ++ [t] := by
  have hle : first.getD i ≤ i := by
    cases first with
    | none => exact Nat.le_refl i
    | some a => exact Nat.le_of_lt (hfirst a rfl)
  have hlt := lt_of_drop h
  have htake : ts.take (i + 1) = ts.take i ++ [t] := by
    rw [List.take_add_one, ← List.head?_drop, h]
    rfl
  rw [pending, pending, Option.getD_some, htake]
  exact List.drop_append_of_le_length (by rw [List.length_take]; omega)

/-- An entry that ends before an index is not empty, and has the tokens that were read of it. -/
theorem isSpan_of_first {a : Nat} (ha : a < i) (hclose : i ≤ close) (hi : i ≤ ts.length)
    (hnext : i = close ∨ ∃ t, ts[i]? = some t ∧ t.isMark ',' = true) :
    IsSpan ts close (a, i - 1) ∧ cut ts (a, i - 1) = pending ts (some a) i ∧
      pending ts (some a) i ≠ [] := by
  have hsucc : i - 1 + 1 = i := by omega
  refine ⟨⟨by show a ≤ i - 1; omega, by show i - 1 < close; omega, ?_⟩, ?_, ?_⟩
  · show i - 1 + 1 = close ∨ _
    rw [hsucc]
    exact hnext
  · rw [cut, pending]
    show (ts.take (i - 1 + 1)).drop a = _
    rw [hsucc]
    rfl
  · rw [pending, ← List.length_pos_iff, List.length_drop, List.length_take]
    show 0 < min i ts.length - a
    omega

theorem drop_of_drop_take (h : (ts.take close).drop i = t :: rest) :
    i < close ∧ (∃ more, ts.drop i = t :: more) ∧ (ts.take close).drop (i + 1) = rest := by
  have hlt := lt_of_drop h
  rw [List.length_take] at hlt
  have hdrop : ts.drop i = t :: (rest ++ ts.drop close) := by
    have hwhole : ts.take close ++ ts.drop close = ts := List.take_append_drop close ts
    conv_lhs => rw [← hwhole]
    rw [List.drop_append_of_le_length (by rw [List.length_take]; omega), h, List.cons_append]
  exact ⟨by omega, ⟨_, hdrop⟩, drop_succ_of_drop h⟩

/-- One token of a list is a comma between entries, or belongs to the current entry. -/
theorem spansFrom_cons {more : List Token} (h : ts.drop i = t :: more) (hlt : i < close) (depth : Int)
    (first : Option Nat) :
    spansFrom ts close depth first i =
      if depth = 0 ∧ t.isMark ',' = true then
        (spansFrom ts close depth none (i + 1)).map ((first.map fun a => (a, i - 1)).toList ++ ·)
      else spansFrom ts close (shift depth t) (some (first.getD i)) (i + 1) := by
  rw [spansFrom, dif_pos hlt, lookUp_of_drop h]
  show (if t.opens then _ else if t.closes then _ else
    if (decide (depth = 0) && t.isMark ',') = true then _ else _) = _
  by_cases hk : depth = 0 ∧ t.isMark ',' = true
  · have hplain := plain_of_isMark hk.2 (by decide)
    rw [if_pos hk, hplain.1, hplain.2, if_neg Bool.false_ne_true, if_neg Bool.false_ne_true,
      if_pos (by simpa using hk)]
    cases spansFrom ts close depth none (i + 1) <;> rfl
  · have hcomma : ¬ (decide (depth = 0) && t.isMark ',') = true := by simpa using hk
    rw [if_neg hk, shift, if_neg hcomma]
    by_cases ho : t.opens = true
    · rw [if_pos ho, if_pos ho]
    · by_cases hcl : t.closes = true
      · rw [if_neg ho, if_pos hcl, if_neg ho, if_pos hcl]
      · rw [if_neg ho, if_neg hcl, if_neg ho, if_neg hcl]

/-- What is read where an entry ends, if one has begun. -/
theorem spans_of_first {first : Option Nat} (hfirst : ∀ a ∈ first, a < i) (hi : i ≤ close)
    (hclose : close ≤ ts.length) (hnext : i = close ∨ ∃ t, ts[i]? = some t ∧ t.isMark ',' = true)
    {q : List (List Token)} {spans : List (Nat × Nat)}
    (hq : spans.map (cut ts) = q.filter fun e => !e.isEmpty) (hall : ∀ s ∈ spans, IsSpan ts close s) :
    ((first.map fun a => (a, i - 1)).toList ++ spans).map (cut ts) =
        (pending ts first i :: q).filter (fun e => !e.isEmpty) ∧
      ∀ s ∈ (first.map fun a => (a, i - 1)).toList ++ spans, IsSpan ts close s := by
  cases first with
  | none =>
    rw [pending_none]
    exact ⟨hq, hall⟩
  | some a =>
    obtain ⟨hspan, hcut, hne⟩ := isSpan_of_first (hfirst a rfl) hi (hi.trans hclose) hnext
    constructor
    · rw [List.filter_cons_of_pos (by simpa using hne), ← hq, ← hcut]
      rfl
    · exact List.forall_mem_cons.mpr ⟨hspan, hall⟩

/-- From an index on, the entries are those of the tokens up to the bracket, of which the first goes on
with what has been read of it. -/
theorem exists_spansFrom {depth : Int} {first : Option Nat} {p : List Token} {q : List (List Token)}
    (h : (ts.take close).drop i = rest) (hi : i ≤ close) (hclose : close ≤ ts.length)
    (hfirst : ∀ a ∈ first, a < i) (hparts : parts depth rest = p :: q) :
    ∃ spans, spansFrom ts close depth first i = .ok spans ∧
      spans.map (cut ts) = ((pending ts first i ++ p) :: q).filter (fun e => !e.isEmpty) ∧
      ∀ s ∈ spans, IsSpan ts close s := by
  induction rest generalizing i depth first p q with
  | nil =>
    obtain ⟨rfl, rfl⟩ : p = [] ∧ q = [] := by simpa [parts_nil, eq_comm] using hparts
    obtain rfl : i = close := by
      have hlen := List.drop_eq_nil_iff.mp h
      rw [List.length_take] at hlen
      omega
    have hnone : [].map (cut ts) = [].filter fun e => !e.isEmpty := rfl
    obtain ⟨hmap, hall⟩ := spans_of_first hfirst hi hclose (.inl rfl) hnone (by simp)
    rw [List.append_nil] at hmap hall
    rw [spansFrom, dif_neg (Nat.lt_irrefl _), List.append_nil]
    exact ⟨_, rfl, hmap, hall⟩
  | cons t rest ih =>
    obtain ⟨hlt, ⟨more, hdrop⟩, hnext⟩ := drop_of_drop_take h
    rw [spansFrom_cons hdrop hlt]
    by_cases hk : depth = 0 ∧ t.isMark ',' = true
    · obtain ⟨rfl, hcomma⟩ := hk
      rw [parts_comma hcomma] at hparts
      obtain ⟨rfl, rfl⟩ := List.cons.inj hparts
      have hnone : ∀ a ∈ none, a < i + 1 := by simp
      obtain ⟨spans, hread, hmap, hall⟩ := ih hnext hlt hnone rfl
      rw [pending_none, List.nil_append] at hmap
      have ht : ts[i]? = some t := by rw [← List.head?_drop, hdrop]; rfl
      obtain ⟨hmap, hall⟩ := spans_of_first hfirst hi hclose (.inr ⟨t, ht, hcomma⟩) hmap hall
      rw [if_pos ⟨rfl, hcomma⟩, hread, List.append_nil]
      exact ⟨_, rfl, hmap, hall⟩
    · rw [parts_cons hk rfl] at hparts
      obtain ⟨rfl, rfl⟩ := List.cons.inj hparts
      have hfirst' : ∀ a ∈ some (first.getD i), a < i + 1 := by
        intro a ha
        obtain rfl := Option.some.inj ha
        cases first with
        | none => exact Nat.lt_succ_self i
        | some b => exact Nat.lt_succ_of_lt (hfirst b rfl)
      obtain ⟨spans, hread, hmap, hall⟩ := ih hnext hlt hfirst' rfl
      rw [pending_succ hdrop hfirst, List.append_assoc, List.singleton_append] at hmap
      rw [if_neg hk]
      exact ⟨spans, hread, hmap, hall⟩

/-- **The entries between two brackets are those of the list**, each by its indices. -/
theorem exists_spansAt {opening : Nat} {inside after : List Token} {closing : Token}
    (h : ts.drop (opening + 1) = inside ++ closing :: after) :
    ∃ spans, spansAt ts opening (opening + 1 + inside.length) = .ok spans ∧
      spans.map (cut ts) = entries inside ∧
      ∀ s ∈ spans, IsSpan ts (opening + 1 + inside.length) s := by
  have hlen := congrArg List.length h
  rw [List.length_drop, List.length_append, List.length_cons] at hlen
  have htake : (ts.take (opening + 1 + inside.length)).drop (opening + 1) = inside := by
    rw [List.drop_take, h, Nat.add_sub_cancel_left, List.take_left]
  have hnone : ∀ a ∈ none, a < opening + 1 := by simp
  obtain ⟨spans, hread, hmap, hall⟩ := exists_spansFrom htake (Nat.le_add_right _ _) (by omega) hnone
    (List.cons_head_tail (parts_ne_nil 0 inside)).symm
  rw [pending_none, List.nil_append, List.cons_head_tail] at hmap
  exact ⟨spans, hread, hmap, hall⟩

/-! ### The tokens of an entry -/

variable {s : Nat × Nat} {k : Token} {e : List Token}

theorem drop_cut (hs : IsSpan ts close s) (hclose : close ≤ ts.length) :
    ts.drop s.1 = cut ts s ++ ts.drop (s.2 + 1) := by
  have hle := hs.le
  have hlt := hs.lt
  have hwhole : ts.take (s.2 + 1) ++ ts.drop (s.2 + 1) = ts := List.take_append_drop _ ts
  conv_lhs => rw [← hwhole]
  exact List.drop_append_of_le_length (by rw [List.length_take]; omega)

theorem length_cut (hs : IsSpan ts close s) (hclose : close ≤ ts.length) :
    (cut ts s).length = s.2 + 1 - s.1 := by
  have hlt := hs.lt
  rw [cut, List.length_drop, List.length_take]
  omega

theorem cut_ne_nil (hs : IsSpan ts close s) (hclose : close ≤ ts.length) : cut ts s ≠ [] := by
  have hle := hs.le
  rw [← List.length_pos_iff, length_cut hs hclose]
  omega

theorem lookUp_first (hs : IsSpan ts close s) (hclose : close ≤ ts.length) (he : cut ts s = k :: e) :
    lookUp ts s.1 = .ok k := by
  have h := drop_cut hs hclose
  rw [he, List.cons_append] at h
  exact lookUp_of_drop h

theorem lookUp_last (hs : IsSpan ts close s) (hclose : close ≤ ts.length)
    (he : cut ts s = e ++ [k]) : lookUp ts s.2 = .ok k := by
  have h := drop_cut hs hclose
  have hlen := length_cut hs hclose
  have hle := hs.le
  rw [he, List.length_append, List.length_singleton] at hlen
  rw [he, List.append_assoc] at h
  have hlast := drop_append_of_drop h
  rw [show s.1 + e.length = s.2 by omega] at hlast
  exact lookUp_of_drop hlast

/-- Looked up one after the other, indices give the tokens that stand there. -/
theorem mapM_lookUp_range' {n : Nat} (h : i + n ≤ ts.length) :
    (List.range' i n).mapM (lookUp ts) = .ok ((ts.drop i).take n) := by
  induction n generalizing i with
  | zero => rfl
  | succ n ih =>
    obtain ⟨t, rest, hdrop⟩ := List.exists_cons_of_ne_nil (l := ts.drop i) (by
      rw [← List.length_pos_iff, List.length_drop]
      omega)
    rw [List.range'_succ, List.mapM_cons, lookUp_of_drop hdrop, ih (by omega),
      drop_succ_of_drop hdrop, hdrop]
    rfl

/-- The tokens of an entry, looked up one after the other. -/
theorem mapM_lookUp_cut (hs : IsSpan ts close s) (hclose : close ≤ ts.length) :
    (List.range' s.1 (s.2 + 1 - s.1)).mapM (lookUp ts) = .ok (cut ts s) := by
  have hle := hs.le
  have hlt := hs.lt
  rw [mapM_lookUp_range' (by omega), cut, List.drop_take]

end

end Graft.Script
