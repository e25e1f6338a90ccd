import Graft.Proofs.Registration.Preservation
import Mathlib.Algebra.GroupWithZero.Nat

/-
What is planned is a change.

* `length_applyAll` — insertions make a text longer by their texts;
* `text_ne_nil_of_mem_plan` — no planned insertion is empty;
* `applyAll_ne_self` — **a host with planned insertions made is another text**.
-/
namespace Graft.Registration

open Script

variable {source u : Text} {r : Request} {es : List Insertion}

theorem length_apply (e : Insertion) (t : Text) : (e.apply t).length = t.length + e.text.length := by
  have hsplit := congrArg List.length (List.take_append_drop e.position.toNat t)
  rw [List.length_append] at hsplit
  rw [Insertion.apply, List.length_append, List.length_append]
  omega

/-- Insertions make a text longer by their texts. -/
theorem length_applyAll (h : Insertion.applyAll source es = .ok u) :
    u.length = source.length + (es.map fun e => e.text.length).sum := by
  have hfold (es : List Insertion) : (es.foldr Insertion.apply source).length =
      source.length + (es.map fun e => e.text.length).sum := by
    induction es with
    | nil => rfl
    | cons e es ih =>
      rw [List.foldr_cons, length_apply, ih, List.map_cons, List.sum_cons]
      omega
  have hperm : (Insertion.ordered es).Perm es := List.mergeSort_perm _ _
  rw [Insertion.applyAll] at h
  split at h
  · cases h
  · rw [← Except.ok.inj h, hfold, (hperm.map _).sum_nat]

/-- A new entry is as long as what is to be entered, or longer. -/
theorem appendEntry_ne_nil {o c : Token} {inside : List Token} {entry : Text} (h : entry ≠ []) :
    (appendEntry source o inside c entry).text ≠ [] := by
  rw [appendEntry]
  split
  · exact List.append_ne_nil_of_right_ne_nil _ h
  · exact h

/-- No planned insertion is empty. -/
theorem text_ne_nil_of_mem_plan (hs : r.symbol ≠ []) (h : plan source r = .ok es) :
    ∀ e ∈ es, e.text ≠ [] := by
  obtain ⟨d, list, -, hlist, rfl⟩ := plan_eq_ok h
  intro e he
  rcases List.mem_append.mp he with he | he
  · rcases planImport_cases source (imports (tokens source)) r with ⟨-, h⟩ | ⟨-, s, -, h⟩ | ⟨-, h⟩
    · rw [h] at he
      cases he
    · rw [h, List.mem_singleton] at he
      rw [he]
      exact List.cons_ne_nil _ _
    · rw [h, List.mem_singleton] at he
      rw [he]
      exact List.append_ne_nil_of_right_ne_nil _ (List.cons_ne_nil _ _)
  · rcases planList_eq_ok hlist with ⟨rfl, -⟩ | ⟨o, inside, c, entry, run, htarget, rfl⟩
    · cases he
    · rw [List.mem_singleton] at he
      rw [he]
      refine appendEntry_ne_nil ?_
      cases htarget with
      | list => exact hs
      | object => exact List.append_ne_nil_of_right_ne_nil _ (List.cons_ne_nil _ _)

/-- **A host with planned insertions made is another text.** -/
theorem applyAll_ne_self (hs : r.symbol ≠ []) (h : plan source r = .ok es) (hne : es ≠ [])
    (hu : Insertion.applyAll source es = .ok u) : u ≠ source := by
  rintro rfl
  have hlength := length_applyAll hu
  obtain ⟨e, es, rfl⟩ := List.exists_cons_of_ne_nil hne
  have hpos := List.length_pos_iff.mpr (text_ne_nil_of_mem_plan hs h e List.mem_cons_self)
  rw [List.map_cons, List.sum_cons] at hlength
  omega

end Graft.Registration
