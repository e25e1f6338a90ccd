import Graft.Proofs.Script.Nesting

/-
Tokens passed one by one, bracketed groups as a whole.

* `Skips ts rest` — passing tokens in this way leaves `rest`;
* `Shut pre rest` — no group begins in `pre` and ends in `rest`;
* `exists_shut_of_skips` — **what is passed in this way is shut**;
* `Unclosed pre M N` — with `N` instead of `M` no more groups begin in `pre`;
* `Seam A M` — a place behind a statement.

Design notes: a reader that only ever jumps over whole groups cannot stop inside of one.  An opening
bracket that no group begins with is passed like any other token.
-/
namespace Graft.Script

/-- Tokens are passed one by one, groups as a whole, and `rest` is left. -/
inductive Skips : List Token → List Token → Prop
  | refl (ts : List Token) : Skips ts ts
  -- A token that opens no bracket.
  | plain {t : Token} {ts rest : List Token} (h : t.opens = false) (next : Skips ts rest) :
      Skips (t :: ts) rest
  | group {o : Token} {ts rest : List Token} {g : Group} (h : enclosed? (o :: ts) = some g)
      (next : Skips g.after rest) : Skips (o :: ts) rest
  -- A bracket that no group begins with.
  | lone {o : Token} {ts rest : List Token} (h : enclosed? (o :: ts) = none)
      (next : Skips ts rest) : Skips (o :: ts) rest

theorem Skips.trans {ts us vs : List Token} (h : Skips ts us) (h' : Skips us vs) : Skips ts vs := by
  induction h with
  | refl => exact h'
  | plain h _ ih => exact .plain h (ih h')
  | group h _ ih => exact .group h (ih h')
  | lone h _ ih => exact .lone h (ih h')

/-- No group begins in `pre` and ends in `rest`. -/
def Shut (pre rest : List Token) : Prop :=
  ∀ A o X g, pre = A ++ o :: X → enclosed? (o :: (X ++ rest)) = some g →
    ∃ Y, X = g.inside ++ g.closing :: Y

theorem shut_nil (rest : List Token) : Shut [] rest := by
  intro A o X g h
  simp at h

theorem shut_cons {t : Token} {pre rest : List Token} (h : Shut pre rest)
    (ht : ∀ g, enclosed? (t :: (pre ++ rest)) = some g → ∃ Y, pre = g.inside ++ g.closing :: Y) :
    Shut (t :: pre) rest := by
  intro A o X g hA hg
  cases A with
  | nil =>
    obtain ⟨rfl, rfl⟩ := List.cons.inj hA
    exact ht g hg
  | cons a as =>
    obtain ⟨-, hpre⟩ := List.cons.inj hA
    exact h as o X g hpre hg

theorem enclosed?_of_closer?_eq_none {t : Token} (h : t.closer? = none) (ts : List Token) :
    enclosed? (t :: ts) = none := by
  rw [enclosed?, h]
  rfl

theorem shut_nested_append {I pre rest : List Token} (hI : Nested I) (h : Shut pre rest) :
    Shut (I ++ pre) rest := by
  intro A o X g hA hg
  rcases List.append_eq_append_iff.mp hA with ⟨y, rfl, hpre⟩ | ⟨y, rfl, hy⟩
  · exact h y o X g hpre hg
  · cases y with
    | nil => exact h [] o X g hy.symm hg
    | cons u us =>
      obtain ⟨rfl, rfl⟩ := List.cons.inj hy
      obtain ⟨c, hc, -⟩ := enclosed?_eq_some_iff.mp hg
      obtain ⟨J, cl, Y, rfl, hJ, hcl⟩ := exists_group_of_nested hI hc
      have hsome : enclosed? (o :: ((J ++ cl :: Y) ++ pre ++ rest)) =
          some ⟨J, cl, Y ++ pre ++ rest⟩ := by
        refine enclosed?_eq_some_iff.mpr ⟨c, hc, ?_, hJ, hcl⟩
        simp only [List.append_assoc, List.cons_append]
      rw [Option.some.inj (hg.symm.trans hsome)]
      refine ⟨Y ++ pre, ?_⟩
      show (J ++ cl :: Y) ++ pre = J ++ cl :: (Y ++ pre)
      rw [List.append_assoc]
      rfl

/-- **What is passed is shut.** -/
theorem exists_shut_of_skips {ts rest : List Token} (h : Skips ts rest) :
    ∃ pre, ts = pre ++ rest ∧ Shut pre rest := by
  induction h with
  | refl => exact ⟨[], rfl, shut_nil _⟩
  | @plain t ts rest ho _ ih =>
    obtain ⟨pre, rfl, hshut⟩ := ih
    refine ⟨t :: pre, rfl, shut_cons hshut fun g hg => ?_⟩
    have hc : t.closer? = none := by simpa [Token.opens] using ho
    rw [enclosed?_of_closer?_eq_none hc] at hg
    cases hg
  | @group o ts rest g hg _ ih =>
    obtain ⟨pre, hpre, hshut⟩ := ih
    obtain ⟨c, hc, hts, hin, hm⟩ := enclosed?_eq_some_iff.mp hg
    have hclosing : Shut (g.closing :: pre) rest := by
      refine shut_cons hshut fun g' hg' => ?_
      rw [enclosed?_of_closer?_eq_none (closer?_of_isMark (isCloser_of_closer? hc) hm)] at hg'
      cases hg'
    have htokens : ts = (g.inside ++ g.closing :: pre) ++ rest := by
      rw [hts, hpre, List.append_assoc]
      rfl
    refine ⟨o :: (g.inside ++ g.closing :: pre), ?_, ?_⟩
    · rw [htokens]
      rfl
    · refine shut_cons (shut_nested_append hin hclosing) fun g' hg' => ?_
      rw [← htokens, hg] at hg'
      rw [← Option.some.inj hg']
      exact ⟨pre, rfl⟩
  | @lone o ts rest ho _ ih =>
    obtain ⟨pre, rfl, hshut⟩ := ih
    refine ⟨o :: pre, rfl, shut_cons hshut fun g hg => ?_⟩
    rw [ho] at hg
    cases hg

/-- A bracket in `pre` that no group begins with before `M` begins none before `N`. -/
def Unclosed (pre M N : List Token) : Prop :=
  ∀ A o X, pre = A ++ o :: X → enclosed? (o :: (X ++ M)) = none → enclosed? (o :: (X ++ N)) = none

theorem Unclosed.of_append {A B M N : List Token} (h : Unclosed (A ++ B) M N) : Unclosed B M N :=
  fun L o X hB hg => h (A ++ L) o X (by rw [hB, List.append_assoc]) hg

theorem Unclosed.of_cons {t : Token} {B M N : List Token} (h : Unclosed (t :: B) M N) :
    Unclosed B M N := Unclosed.of_append (A := [t]) h

/-- Nested tokens close no bracket. -/
theorem unclosed_splice {R : List Token} (hR : Nested R) (pre M : List Token) :
    Unclosed pre M (R ++ M) := fun _ _ _ _ hg => enclosed?_splice_none hR hg

theorem Unclosed.congr {pre M N N' : List Token} (h : Unclosed pre M N)
    (hN : N'.map Token.bare = N.map Token.bare) : Unclosed pre M N' := by
  intro A o X hpre hg
  refine (enclosed?_eq_none_congr ?_).mp (h A o X hpre hg)
  rw [List.map_cons, List.map_cons, List.map_append, List.map_append, hN]

/-- Without what follows there are no more groups. -/
theorem unclosed_nil (pre M : List Token) : Unclosed pre M [] := by
  intro A o X _ hg
  cases hgroup : enclosed? (o :: (X ++ [])) with
  | none => rfl
  | some g =>
    rw [List.append_nil] at hgroup
    rw [enclosed?_append hgroup M] at hg
    cases hg

/-- A place behind a statement: no group begins before it and ends after it, and the token in front of
it, if any, is a string or a semicolon. -/
structure Seam (A M : List Token) : Prop where
  -- No group goes on over the place.
  shut : Shut A M
  -- What stands in front of the place.
  last : ∀ t ∈ A.getLast?, t.kind = .string ∨ t.isMark ';' = true

theorem seam_nil (M : List Token) : Seam [] M := ⟨shut_nil M, fun _ h => nomatch h⟩

theorem Seam.of_append {A B M : List Token} (h : Seam (A ++ B) M) : Seam B M where
  shut L o X g hB hg := h.shut (A ++ L) o X g (by rw [hB, List.append_assoc]) hg
  last t ht := by
    refine h.last t ?_
    rw [List.getLast?_append, Option.mem_def.mp ht]
    rfl

/-- A group that begins before a place behind a statement ends before it. -/
theorem Seam.exists_after {A M L X : List Token} (h : Seam A M) {o : Token} {g : Group}
    (hA : A = L ++ o :: X) (hg : enclosed? (o :: (X ++ M)) = some g) :
    ∃ Y, X = g.inside ++ g.closing :: Y ∧ g.after = Y ++ M := by
  obtain ⟨Y, hX⟩ := h.shut L o X g hA hg
  refine ⟨Y, hX, ?_⟩
  have heq := eq_of_enclosed? hg
  rw [hX, List.append_assoc] at heq
  exact (List.cons.inj (List.append_cancel_left heq)).2.symm

end Graft.Script
