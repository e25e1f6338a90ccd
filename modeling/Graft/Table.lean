import Graft.Text.Basic

/-
Values under names, in the order in which the names were first used.

  `Table α`            pairs of a name and a value;
  `Table.get? k t`     the value under a name;
  `Table.set k v t`    a value put under a name: in place, or at the end for a new name.

Names are texts, or anything else that can be compared.
-/
namespace Graft

/-- Values under names, in order. -/
abbrev Table (α : Type) := List (Text × α)

namespace Table

variable {κ α : Type} [DecidableEq κ]

def get? (key : κ) : List (κ × α) → Option α
  | [] => none
  | (k, v) :: rest => if k = key then some v else get? key rest

/-- Puts a value under a name: in place when the name is there, else at the end. -/
def set (key : κ) (v : α) : List (κ × α) → List (κ × α)
  | [] => [(key, v)]
  | (k, w) :: rest => if k = key then (k, v) :: rest else (k, w) :: set key v rest

@[simp] theorem get?_set_self (key : κ) (v : α) (t : List (κ × α)) :
    get? key (set key v t) = some v := by
  induction t with
  | nil => simp [set, get?]
  | cons e rest ih =>
    obtain ⟨k, w⟩ := e
    by_cases h : k = key <;> simp [set, get?, h, ih]

theorem get?_set_of_ne {key other : κ} (h : other ≠ key) (v : α) (t : List (κ × α)) :
    get? other (set key v t) = get? other t := by
  induction t with
  | nil => simp [set, get?, h.symm]
  | cons e rest ih =>
    obtain ⟨k, w⟩ := e
    by_cases hk : k = key
    · subst hk
      simp [set, get?, h.symm]
    · simp only [set, if_neg hk, get?, ih]

/-- Of two values put under one name the second is kept. -/
@[simp] theorem set_set (key : κ) (v u : α) (t : List (κ × α)) :
    set key v (set key u t) = set key v t := by
  induction t with
  | nil => simp [set]
  | cons e rest ih =>
    obtain ⟨k, w⟩ := e
    by_cases hk : k = key
    · simp [set, hk]
    · simp only [set, if_neg hk, ih]

/-- The value under a name, put under it, changes nothing. -/
theorem set_of_get? {key : κ} {v : α} {t : List (κ × α)} (h : get? key t = some v) : set key v t = t := by
  induction t with
  | nil => cases h
  | cons e rest ih =>
    obtain ⟨k, w⟩ := e
    rw [get?] at h
    rw [set]
    split at h
    next hk => rw [if_pos hk, Option.some.inj h]
    next hk => rw [if_neg hk, ih h]

/-- A value put under a new name goes to the end. -/
theorem set_of_not_mem {key : κ} {t : List (κ × α)} (h : key ∉ t.map Prod.fst) (v : α) :
    set key v t = t ++ [(key, v)] := by
  induction t with
  | nil => rfl
  | cons e rest ih =>
    rw [List.map_cons, List.mem_cons, not_or] at h
    rw [set, if_neg (Ne.symm h.1), ih h.2]
    rfl

/-- What is in a table was put there, or was there before. -/
theorem eq_or_mem_of_mem_set {key : κ} {v : α} {t : List (κ × α)} {e : κ × α} (h : e ∈ set key v t) :
    e = (key, v) ∨ e ∈ t := by
  induction t with
  | nil => exact .inl (List.mem_singleton.mp h)
  | cons f rest ih =>
    obtain ⟨k, w⟩ := f
    rw [set] at h
    split at h
    next hk =>
      rcases List.mem_cons.mp h with rfl | h
      · exact .inl (by rw [hk])
      · exact .inr (List.mem_cons_of_mem _ h)
    next =>
      rcases List.mem_cons.mp h with rfl | h
      · exact .inr List.mem_cons_self
      · exact (ih h).imp_right (List.mem_cons_of_mem _)

/-- A value put under a name that is there changes no name. -/
theorem map_fst_set_of_mem {key : κ} {t : List (κ × α)} (h : key ∈ t.map Prod.fst) (v : α) :
    (set key v t).map Prod.fst = t.map Prod.fst := by
  induction t with
  | nil => cases h
  | cons e rest ih =>
    obtain ⟨k, w⟩ := e
    rw [set]
    split
    next => rfl
    next hk =>
      have hrest : key ∈ rest.map Prod.fst := (List.mem_cons.mp h).resolve_left (Ne.symm hk)
      rw [List.map_cons, List.map_cons, ih hrest]

/-- Where no name stands twice, none does after a value is put under one. -/
theorem nodup_set {t : List (κ × α)} (h : (t.map Prod.fst).Nodup) (key : κ) (v : α) :
    ((set key v t).map Prod.fst).Nodup := by
  by_cases hkey : key ∈ t.map Prod.fst
  · rwa [map_fst_set_of_mem hkey]
  · rw [set_of_not_mem hkey, List.map_append, List.nodup_append]
    refine ⟨h, by simp, fun k hk k' hk' heq => ?_⟩
    have hlast : k' = key := List.mem_singleton.mp hk'
    exact hkey (hlast ▸ heq ▸ hk)

end Table
end Graft
