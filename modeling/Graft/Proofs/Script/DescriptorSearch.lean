import Graft.Proofs.Script.Listing
import Graft.Proofs.Script.Skipping
import Graft.Script.Descriptor

/-
Where the descriptor stands among tokens.

* `Heads ts d` — tokens that begin with the decorator of a descriptor;
* `descriptor?_eq_some_iff` — **the descriptor is the first among the tokens**;
* `Unheaded.insert`, `Unheaded.replace` — tokens behind a statement, and tokens in the object, leave the
  descriptor the first;
* `exists_group_of_descriptor?` — the object as a group among all tokens.
-/
namespace Graft.Script

/-- The object with its braces. -/
def Descriptor.object (d : Descriptor) : List Token := d.opening :: (d.inside ++ [d.closing])

/-- The tokens of a decorator that an object is given to. -/
structure Decorates (d : Descriptor) (a name p : Token) : Prop where
  -- The mark of the decorator.
  mark : a.isMark '@' = true
  name : Decorator.ofToken? name = some d.decorator
  paren : p.isMark '(' = true
  -- The object begins with a brace.
  brace : d.opening.isMark '{' = true
  -- What stands in the object is nested.
  nested : Nested d.inside
  -- The object ends with a brace.
  closing : d.closing.isMark '}' = true

/-- Tokens that begin with the decorator of a descriptor. -/
def Heads (ts : List Token) (d : Descriptor) : Prop :=
  ∃ a name p Z, ts = a :: name :: p :: (d.object ++ Z) ∧ Decorates d a name p

theorem closer?_of_brace {t : Token} (h : t.isMark '{' = true) : t.closer? = some '}' := by
  rw [Token.closer?, if_neg (not_isMark_of_isMark h (by decide)),
    if_neg (not_isMark_of_isMark h (by decide)), if_pos h]

theorem object_append (d : Descriptor) (Z : List Token) :
    d.object ++ Z = d.opening :: (d.inside ++ d.closing :: Z) := by
  simp [Descriptor.object]

theorem Decorates.enclosed? {d : Descriptor} {a name p : Token} (h : Decorates d a name p)
    (Z : List Token) : enclosed? (d.opening :: (d.inside ++ d.closing :: Z)) =
      some ⟨d.inside, d.closing, Z⟩ :=
  enclosed?_eq_some_iff.mpr ⟨'}', closer?_of_brace h.brace, rfl, h.nested, h.closing⟩

theorem Decorates.flat {d : Descriptor} {a name p : Token} (h : Decorates d a name p) :
    Flat d.object := flat_group (closer?_of_brace h.brace) h.nested h.closing

/-- The descriptor whose decorator tokens begin with. -/
def headed? : List Token → Option Descriptor
  | a :: name :: p :: brace :: rest => do
    guard (a.isMark '@' && p.isMark '(' && brace.isMark '{')
    let decorator ← Decorator.ofToken? name
    let g ← enclosed? (brace :: rest)
    return ⟨decorator, brace, g.inside, g.closing⟩
  | _ => none

theorem descriptor?_cons (t : Token) (ts : List Token) :
    descriptor? (t :: ts) = (headed? (t :: ts)).or (descriptor? ts) := by
  rcases ts with _ | ⟨name, _ | ⟨p, _ | ⟨brace, rest⟩⟩⟩ <;> rfl

theorem headed?_cons (a name p brace : Token) (rest : List Token) :
    headed? (a :: name :: p :: brace :: rest) =
      if a.isMark '@' && p.isMark '(' && brace.isMark '{' then
        (Decorator.ofToken? name).bind fun decorator =>
          (enclosed? (brace :: rest)).bind fun g => some ⟨decorator, brace, g.inside, g.closing⟩
      else none := by
  have hguard (b : Bool) (x : Option Descriptor) :
      (guard (b = true) >>= fun _ => x) = if b then x else none := by
    cases b <;> rfl
  exact hguard _ _

theorem headed?_eq_some_iff {ts : List Token} {d : Descriptor} :
    headed? ts = some d ↔ Heads ts d := by
  constructor
  · intro h
    rcases ts with _ | ⟨a, _ | ⟨name, _ | ⟨p, _ | ⟨brace, rest⟩⟩⟩⟩
    · cases h
    · cases h
    · cases h
    · cases h
    · rw [headed?_cons] at h
      split at h
      next hmarks =>
        rw [Bool.and_eq_true, Bool.and_eq_true] at hmarks
        obtain ⟨⟨ha, hp⟩, hb⟩ := hmarks
        obtain ⟨deco, hdeco, h⟩ := Option.bind_eq_some_iff.mp h
        obtain ⟨g, hg, h⟩ := Option.bind_eq_some_iff.mp h
        obtain rfl := Option.some.inj h
        obtain ⟨c, hc, rfl, hin, hclosing⟩ := enclosed?_eq_some_iff.mp hg
        rw [closer?_of_brace hb] at hc
        obtain rfl := Option.some.inj hc
        exact ⟨a, name, p, g.after, by rw [object_append], ha, hdeco, hp, hb, hin, hclosing⟩
      next => cases h
  · rintro ⟨a, name, p, Z, rfl, h⟩
    rw [object_append, headed?_cons, if_pos (by rw [h.mark, h.paren, h.brace]; rfl), h.name,
      h.enclosed?]
    rfl

/-- No decorator of a descriptor begins in `L`, when `R` follows. -/
def Unheaded : List Token → List Token → Prop
  | [], _ => True
  | t :: L, R => headed? (t :: (L ++ R)) = none ∧ Unheaded L R

theorem unheaded_append {A B R : List Token} :
    Unheaded (A ++ B) R ↔ Unheaded A (B ++ R) ∧ Unheaded B R := by
  induction A with
  | nil => exact (and_iff_right trivial).symm
  | cons t A ih =>
    rw [List.cons_append, Unheaded, Unheaded, ih, and_assoc, List.append_assoc]

/-- Tokens of which none is the mark of a decorator. -/
theorem unheaded_of_not_mark {L : List Token} (h : ∀ t ∈ L, ¬ t.isMark '@' = true)
    (R : List Token) : Unheaded L R := by
  induction L with
  | nil => trivial
  | cons t L ih =>
    obtain ⟨ht, hL⟩ := List.forall_mem_cons.mp h
    refine ⟨?_, ih hL⟩
    cases hd : headed? (t :: (L ++ R)) with
    | none => rfl
    | some d =>
      obtain ⟨a, name, p, Z, heq, hdeco⟩ := headed?_eq_some_iff.mp hd
      obtain rfl : t = a := (List.cons.inj heq).1
      exact absurd hdeco.mark ht

/-- **The descriptor is the first among the tokens.** -/
theorem descriptor?_eq_some_iff {ts : List Token} {d : Descriptor} :
    descriptor? ts = some d ↔ ∃ L R, ts = L ++ R ∧ Heads R d ∧ Unheaded L R := by
  induction ts with
  | nil =>
    show none = some d ↔ _
    constructor
    · intro h
      cases h
    · rintro ⟨L, R, h, hR, -⟩
      rw [eq_comm, List.append_eq_nil_iff] at h
      rw [h.2, ← headed?_eq_some_iff] at hR
      cases hR
  | cons t ts ih =>
    rw [descriptor?_cons, Option.or_eq_some_iff, ih]
    constructor
    · rintro (h | ⟨hnone, L, R, rfl, hR, hfirst⟩)
      · exact ⟨[], t :: ts, rfl, headed?_eq_some_iff.mp h, trivial⟩
      · exact ⟨t :: L, R, rfl, hR, hnone, hfirst⟩
    · rintro ⟨L, R, h, hR, hfirst⟩
      cases L with
      | nil =>
        rw [List.nil_append] at h
        rw [h]
        exact .inl (headed?_eq_some_iff.mpr hR)
      | cons l ls =>
        obtain ⟨rfl, rfl⟩ := List.cons.inj h
        exact .inr ⟨hfirst.1, ls, R, rfl, hR, hfirst.2⟩

/-! ### Tokens put behind a statement -/

/-- The tokens of a decorator are neither strings nor semicolons. -/
theorem Heads.not_end {t : Token} {A B : List Token} {d : Descriptor} (h : Heads (A ++ t :: B) d)
    (hlen : A.length < 3) (ht : t.kind = .string ∨ t.isMark ';' = true) : False := by
  obtain ⟨a, name, p, Z, heq, hdeco⟩ := h
  have hmark {u : Token} {c : Char} (hu : u.isMark c = true) (hc : ';' ≠ c) :
      ¬ (u.kind = .string ∨ u.isMark ';' = true) := by
    rintro (hk | hm)
    · rw [isMark_iff, hk] at hu
      exact absurd hu.1 (by decide)
    · exact hc (isMark_unique hm hu)
  have hname : ¬ (name.kind = .string ∨ name.isMark ';' = true) := by
    have hw := List.find?_some hdeco.name
    rw [Token.isWord, Bool.and_eq_true, beq_iff_eq] at hw
    rw [isMark_iff, hw.1]
    rintro (hk | hm)
    · cases hk
    · exact absurd hm.1 (by decide)
  rcases A with _ | ⟨b, _ | ⟨c, _ | ⟨e, A⟩⟩⟩
  · obtain rfl : t = a := (List.cons.inj heq).1
    exact hmark hdeco.mark (by decide) ht
  · obtain rfl : t = name := (List.cons.inj (List.cons.inj heq).2).1
    exact hname ht
  · obtain rfl : t = p := (List.cons.inj (List.cons.inj (List.cons.inj heq).2).2).1
    exact hmark hdeco.paren (by decide) ht
  · simp only [List.length_cons] at hlen
    omega

variable {A M R : List Token}

/-- Nested tokens behind a statement do not change which decorators begin before it. -/
theorem headed?_splice {t : Token} {X : List Token} (h : Seam (t :: X) M) (hR : Nested R) :
    headed? (t :: (X ++ (R ++ M))) = headed? (t :: (X ++ M)) := by
  -- The statement before the place ends with one of the tokens.
  obtain ⟨X', u, hX⟩ : ∃ X' u, t :: X = X' ++ [u] :=
    ⟨_, _, (List.dropLast_concat_getLast (List.cons_ne_nil t X)).symm⟩
  have hu : u.kind = .string ∨ u.isMark ';' = true := by
    refine h.last u ?_
    rw [hX, List.getLast?_concat]
    rfl
  by_cases hlen : X'.length < 3
  · have hnone (ts : List Token) : headed? (t :: (X ++ ts)) = none := by
      cases hd : headed? (t :: (X ++ ts)) with
      | none => rfl
      | some d =>
        have hheads := headed?_eq_some_iff.mp hd
        rw [← List.cons_append, hX, List.append_assoc] at hheads
        exact (hheads.not_end hlen hu).elim
    rw [hnone, hnone]
  · obtain ⟨name, p, brace, Y, rfl⟩ : ∃ name p brace Y, X = name :: p :: brace :: Y := by
      have := congrArg List.length hX
      simp only [List.length_cons, List.length_append, List.length_nil] at this
      match X, this with
      | name :: p :: brace :: Y, _ => exact ⟨name, p, brace, Y, rfl⟩
      | [_, _], h => simp only [List.length_cons, List.length_nil] at h; omega
      | [_], h => simp only [List.length_cons, List.length_nil] at h; omega
      | [], h => simp only [List.length_nil] at h; omega
    simp only [List.cons_append]
    rw [headed?_cons, headed?_cons]
    cases hg : enclosed? (brace :: (Y ++ M)) with
    | none => rw [enclosed?_splice_none hR hg]
    | some g =>
      obtain ⟨Z, rfl, hafter⟩ := h.exists_after (L := [t, name, p]) rfl hg
      have hg' := enclosed?_change_after hg (Z ++ (R ++ M))
      rw [List.append_assoc, List.cons_append, hg']
      rfl

theorem Unheaded.splice {B : List Token} (hA : Unheaded A (B ++ M)) (h : Seam (A ++ B) M)
    (hR : Nested R) : Unheaded A (B ++ (R ++ M)) := by
  induction A with
  | nil => trivial
  | cons t A ih =>
    refine ⟨?_, ih hA.2 (h.of_append (A := [t]))⟩
    have hhead := hA.1
    rw [← List.append_assoc] at hhead ⊢
    exact (headed?_splice (X := A ++ B) h hR).trans hhead

theorem Unheaded.insert {K H : List Token} (h : Unheaded (A ++ K) H) (hseam : Seam A (K ++ H))
    (hR : Nested R) (hmark : ∀ t ∈ R, ¬ t.isMark '@' = true) : Unheaded (A ++ (R ++ K)) H := by
  rw [unheaded_append] at h
  rw [unheaded_append, unheaded_append, List.append_assoc]
  have hA : Unheaded A ([] ++ (R ++ (K ++ H))) :=
    Unheaded.splice h.1 (by rwa [List.append_nil]) hR
  exact ⟨hA, unheaded_of_not_mark hmark _, h.2⟩

/-- A place behind a statement is before the decorator of a descriptor, or behind its object. -/
theorem Decorates.locate {d : Descriptor} {a name p : Token} (h : Decorates d a name p)
    {L Z : List Token} (hseam : Seam A M)
    (heq : A ++ M = L ++ a :: name :: p :: (d.object ++ Z)) :
    (∃ k, L = A ++ k ∧ M = k ++ a :: name :: p :: (d.object ++ Z)) ∨
      ∃ z, Z = z ++ M ∧ A = L ++ a :: name :: p :: (d.object ++ z) := by
  rcases List.append_eq_append_iff.mp heq with hbefore | ⟨y, rfl, hy⟩
  · exact .inl hbefore
  · rcases List.eq_nil_or_concat y with rfl | ⟨y, u, rfl⟩
    · exact .inl ⟨[], by simp, hy.symm⟩
    rw [List.concat_eq_append] at hseam hy ⊢
    have hu : u.kind = .string ∨ u.isMark ';' = true := by
      refine hseam.last u ?_
      rw [← List.append_assoc, List.getLast?_concat]
      rfl
    by_cases hlen : y.length < 3
    · -- A statement does not end within the decorator.
      have hheads : Heads (y ++ u :: M) d := ⟨a, name, p, Z, by rw [hy]; simp, h⟩
      exact (hheads.not_end hlen hu).elim
    · obtain ⟨X, hX, hXM⟩ : ∃ X, y ++ [u] = a :: name :: p :: d.opening :: X ∧
          d.inside ++ d.closing :: Z = X ++ M := by
        rw [object_append] at hy
        have hsplit : [a, name, p, d.opening] ++ (d.inside ++ d.closing :: Z) = (y ++ [u]) ++ M := hy
        rcases List.append_eq_append_iff.mp hsplit with hlong | ⟨X, hX, hM⟩
        · exact hlong
        · have hcount := congrArg List.length hX
          simp only [List.length_append, List.length_cons, List.length_nil] at hcount
          obtain rfl : X = [] := List.length_eq_zero_iff.mp (by omega)
          rw [List.append_nil] at hX
          exact ⟨[], hX.symm, hM.symm⟩
      rw [hX] at hseam ⊢
      have hg := h.enclosed? Z
      rw [hXM] at hg
      obtain ⟨Y, rfl, hafter⟩ := hseam.exists_after (L := L ++ [a, name, p]) (by simp) hg
      exact .inr ⟨Y, hafter, by rw [object_append]⟩

/-! ### Tokens put into the object -/

/-- Nested tokens may be put into the object. -/
theorem Decorates.grow {d : Descriptor} {a name p : Token} (h : Decorates d a name p)
    {D E F : List Token} (hDF : d.inside = D ++ F) (hE : Nested E) :
    Decorates { d with inside := D ++ (E ++ F) } a name p where
  mark := h.mark
  name := h.name
  paren := h.paren
  brace := h.brace
  nested := by
    have hin := h.nested
    rw [hDF] at hin
    exact (nested_splice hE D F).mpr hin
  closing := h.closing

/-- Which decorators begin before the object does not depend on what stands in it. -/
theorem Unheaded.replace {L Z G G' : List Token} {a name p : Token}
    (h : Unheaded L (a :: name :: p :: (G ++ Z))) (hG : Nested G) (hG' : Nested G') :
    Unheaded L (a :: name :: p :: (G' ++ Z)) := by
  induction L with
  | nil => trivial
  | cons t L ih =>
    refine ⟨?_, ih h.2⟩
    -- The first four tokens stand before what is replaced.
    obtain ⟨b, c, e, W, hW⟩ : ∃ b c e W, L ++ [a, name, p] = b :: c :: e :: W := by
      match L with
      | [] => exact ⟨a, name, p, [], rfl⟩
      | [x] => exact ⟨x, a, name, [p], rfl⟩
      | [x, y] => exact ⟨x, y, a, [name, p], rfl⟩
      | x :: y :: z :: L => exact ⟨x, y, z, L ++ [a, name, p], rfl⟩
    have hshape (ts : List Token) : L ++ a :: name :: p :: ts = b :: c :: e :: (W ++ ts) := by
      have := congrArg (· ++ ts) hW
      simpa using this
    have hnone := h.1
    rw [hshape] at hnone ⊢
    rw [headed?_cons] at hnone ⊢
    rcases enclosed?_around e W Z with hg | ⟨I, k, y, -, -, hg⟩ | ⟨y, k, z, -, hg⟩
    · rw [hg G hG] at hnone
      rw [hg G' hG']
      exact hnone
    · rw [hg G hG] at hnone
      rw [hg G' hG']
      exact hnone
    · rw [(hg G hG).2] at hnone
      rw [(hg G' hG').2]
      split at hnone
      next hmarks =>
        rw [if_pos hmarks]
        cases hdeco : Decorator.ofToken? b with
        | none => rfl
        | some deco =>
          rw [hdeco] at hnone
          cases hnone
      next hmarks => rw [if_neg hmarks]

/-! ### Groups among all tokens -/

/-- A bracketed group among tokens, with what stands before it and after it. -/
structure GroupAt (ts before : List Token) (o : Token) (inside : List Token) (c : Token)
    (after : List Token) : Prop where
  eq : ts = before ++ o :: (inside ++ c :: after)
  group : enclosed? (o :: (inside ++ c :: after)) = some ⟨inside, c, after⟩

/-- A group inside of other tokens is one among all. -/
theorem GroupAt.extend {ts before inside after : List Token} {o c : Token}
    (h : GroupAt ts before o inside c after) (L R : List Token) :
    GroupAt (L ++ (ts ++ R)) (L ++ before) o inside c (after ++ R) where
  eq := by
    rw [h.eq]
    simp only [List.append_assoc, List.cons_append]
  group := by
    have := enclosed?_append h.group R
    simpa only [List.append_assoc, List.cons_append] using this

/-- The object of a decorator is a group among all tokens. -/
theorem Decorates.groupAt {d : Descriptor} {a name p : Token} (h : Decorates d a name p)
    {ts L Z : List Token} (hts : ts = L ++ a :: name :: p :: (d.object ++ Z)) :
    GroupAt ts (L ++ [a, name, p]) d.opening d.inside d.closing Z where
  eq := by
    rw [hts, object_append]
    simp
  group := h.enclosed? Z

theorem exists_group_of_descriptor? {ts : List Token} {d : Descriptor}
    (h : descriptor? ts = some d) :
    ∃ before after, GroupAt ts before d.opening d.inside d.closing after := by
  obtain ⟨L, R, hts, ⟨a, name, p, Z, rfl, hdeco⟩, -⟩ := descriptor?_eq_some_iff.mp h
  exact ⟨L ++ [a, name, p], Z, hdeco.groupAt hts⟩

end Graft.Script
