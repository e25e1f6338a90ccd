import Graft.Proofs.Registration.Entry
import Graft.Proofs.Script.Offsetless

/-
What an entry does to the object.

* `enroll name E` — the entries of a list with one for a name, if there is none;
* `Grown source r d list L D E F` — the planned entry among the tokens of the object;
* `exists_grown` — **a planned entry is enrolled in its list**, and the other lists are as before.
-/
namespace Graft.Registration

open Script

/-! ### Lists with a name -/

/-- The entries of a list with one for a name, if none begins with it. -/
def enroll (name : Text) (E : List (List Token)) : List (List Token) :=
  if E.any fun e => e.head?.any fun t => t.isWord name then E else E ++ [[wordToken name]]

theorem any_leads_iff {name : Text} {E : List (List Token)} :
    (E.any fun e => e.head?.any fun t => t.isWord name) = true ↔ ∃ e ∈ E, Leads name e := by
  simp only [List.any_eq_true, Option.any_eq_true, Leads, Option.mem_def]

theorem enroll_of_leads {name : Text} {E : List (List Token)} (h : ∃ e ∈ E, Leads name e) :
    enroll name E = E := if_pos (any_leads_iff.mpr h)

theorem enroll_of_not_leads {name : Text} {E : List (List Token)} (h : ¬ ∃ e ∈ E, Leads name e) :
    enroll name E = E ++ [[wordToken name]] := if_neg fun hany => h (any_leads_iff.mp hany)

theorem leads_wordToken {w name : Text} : Leads name [wordToken w] ↔ w = name := by
  simp [Leads, Token.isWord, wordToken]

/-- Enrolled, a list names what it named, and the name. -/
theorem exists_leads_enroll {w name : Text} {E : List (List Token)} :
    (∃ e ∈ enroll w E, Leads name e) ↔ (∃ e ∈ E, Leads name e) ∨ w = name := by
  by_cases h : ∃ e ∈ E, Leads w e
  · rw [enroll_of_leads h, eq_comm, iff_self_or]
    rintro rfl
    exact h
  · rw [enroll_of_not_leads h]
    simp only [List.mem_append, List.mem_singleton, or_and_right, exists_or, exists_eq_left,
      leads_wordToken]

variable {source : Text} {r : Request}

/-! ### The entry among tokens -/

/-- The planned entry among the tokens of the object, which stands after `L`: it stands between `D` and
`F`, and its tokens are `E`, of which there are none when no entry is planned. -/
structure Grown (source : Text) (r : Request) (d : Descriptor) (list : List Insertion)
    (L D E F : List Token) : Prop where
  -- The tokens of the object before the place of the entry, and those after it.
  eq : d.inside = D ++ F
  nested : Nested E
  -- With it the class is enrolled in the list under the key of the role.
  enrolled : ∀ P, d.list? r.role.property = some P →
    { d with inside := D ++ (E ++ F) }.list? r.role.property = some (enroll r.symbol P)
  -- The other lists are as before.
  others : ∀ k, k ≠ r.role.property → { d with inside := D ++ (E ++ F) }.list? k = d.list? k
  -- Its last name is that of the class.
  name : E = [] ∨ entryName? E = some r.symbol
  -- The place is that of the insertion.
  place : ∀ e ∈ list, tokens (source.take (place e)) = L ++ d.opening :: D
  -- The tokens are those of the insertion.
  run : list.flatMap (fun e => bareTokens e.text) = E

/-- With the entry the class is listed. -/
theorem Grown.lists {d : Descriptor} {list : List Insertion} {L D E F : List Token}
    (h : Grown source r d list L D E F) (hlist : planList source r d = .ok list) :
    { d with inside := D ++ (E ++ F) }.Lists r.role.property r.symbol := by
  obtain ⟨P, hP⟩ := planList_isOk_iff.mp ⟨list, hlist⟩
  exact Descriptor.lists_iff.mpr ⟨_, h.enrolled P hP, exists_leads_enroll.mpr (.inr rfl)⟩

theorem nested_separatorRun {lead : Text} {ts : List Token} (h : Nested ts) :
    Nested (separatorRun lead ++ ts) := by
  refine Nested.append ?_ h
  unfold separatorRun
  split
  · exact nested_nil
  · exact nested_plain (plain_of_isMark (c := ',') rfl rfl)

/-- **A planned entry is enrolled in its list.** -/
theorem exists_grown (hc : Closed source) (hs : IsSymbol r.symbol) {d : Descriptor}
    {L after : List Token} (hobject : GroupAt (tokens source) L d.opening d.inside d.closing after)
    {list : List Insertion} (hlist : planList source r d = .ok list) :
    ∃ D E F, Grown source r d list L D E F := by
  have henroll {P : List (List Token)} (hP : d.list? r.role.property = some P) :
      (∃ e ∈ P, Leads r.symbol e) ↔ d.Lists r.role.property r.symbol := by
    rw [Descriptor.lists_iff, hP]
    simp
  rcases planList_eq_ok hlist with ⟨rfl, hlists⟩ | ⟨o, inside, c, entry, run, htarget, rfl⟩
  · refine ⟨[], [], d.inside, rfl, nested_nil, fun P hP => ?_, fun _ _ => rfl, .inl rfl, by simp, rfl⟩
    rw [enroll_of_leads ((henroll hP).mpr hlists)]
    exact hP
  · obtain ⟨P, hP⟩ := planList_isOk_iff.mp ⟨_, hlist⟩
    have hnew : ¬ ∃ e ∈ P, Leads r.symbol e := by
      intro hleads
      rw [planList_of_lists ((henroll hP).mp hleads)] at hlist
      cases hlist
    obtain ⟨hentry, htext⟩ := htarget.isEntry hs
    obtain ⟨hflat, hne, hname⟩ := htarget.run_spec hs
    obtain ⟨before, after', hgroup, hgrow⟩ := htarget.exists_group hP hobject
    obtain ⟨lead, I, J, hlead, hmade, -, hIJ, htake, hentries⟩ :=
      (appendEntry_sits hc hgroup hentry).last
    have hnested : Nested (separatorRun lead ++ run) := nested_separatorRun hflat.nested
    obtain ⟨D, F, hDF, hbefore, henrolled, hothers⟩ := hgrow I J _ hIJ hnested (hentries run hflat hne)
    refine ⟨D, separatorRun lead ++ run, F, hDF, hnested, fun Q hQ => ?_, hothers, .inr ?_,
      fun e he => ?_, ?_⟩
    · obtain rfl : P = Q := Option.some.inj (hP.symm.trans hQ)
      rw [enroll_of_not_leads hnew]
      exact henrolled
    · rw [entryName?_append, hname]
      rfl
    · rw [List.mem_singleton] at he
      rw [he, htake, hbefore]
    · rw [List.flatMap_cons, List.flatMap_nil, List.append_nil, hmade,
        (pieces_separator hlead entry).2.2, htext]

end Graft.Registration
