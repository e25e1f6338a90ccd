import Graft.Proofs.Name.Words

/-
The joints of a name, found in two passes.

* `Parted Match t u` — hyphens are put into the matches in a text, which are looked for from the left;
* `Acronym a b`, `Hump a b` — the two halves of what is parted: an acronym in front of a word, and a hump;
* `partedAt joint t` — hyphens at all places between two characters where there is a joint;
* `parted_acronym_iff`, `parted_hump_iff` — **each pass puts its hyphens at the joints of its kind**;
* `hyphenated_iff` — **and the joints of a name are those of one pass after the other**.

Design notes: a match can be of any length, and the next one is looked for behind it, so a pass is not local.
But the one thing that tells a match is what stands around its hyphen: in an acronym all characters in front of
the last capital are capitals, too, and no hyphen is put between them.
-/
namespace Graft.Name

/-! ### Passes -/

/-- A text, and the text with a hyphen in each of its matches.  They are looked for from the left, each behind
the one before it. -/
inductive Parted (Match : Text → Text → Prop) : Text → Text → Prop
  | nil : Parted Match [] []
  | hit {a b rest u : Text} (hmatch : Match a b) (h : Parted Match rest u) :
    Parted Match (a ++ (b ++ rest)) (a ++ '-' :: (b ++ u))
  -- No match begins with the character.
  | miss {c : Char} {cs u : Text} (hnone : ∀ a b rest, c :: cs = a ++ (b ++ rest) → ¬ Match a b)
    (h : Parted Match cs u) : Parted Match (c :: cs) (c :: u)

/-- Capitals, and a capital with a lower-case letter behind it. -/
structure Acronym (a b : Text) : Prop where
  nonempty : a ≠ []
  upper : ∀ c ∈ a, c.isUpper = true
  word : ∃ c d, b = [c, d] ∧ c.isUpper = true ∧ d.isLower = true

/-- A lower-case letter or a digit, and a capital. -/
structure Hump (a b : Text) : Prop where
  front : ∃ c, a = [c] ∧ (c.isLower || c.isDigit) = true
  back : ∃ c, b = [c] ∧ c.isUpper = true

/-! ### Joints -/

/-- The text with a hyphen at every joint. -/
def partedAt (joint : Char → Char → Option Char → Bool) : Text → Text
  | a :: b :: cs =>
    if joint a b cs.head? then a :: '-' :: partedAt joint (b :: cs) else a :: partedAt joint (b :: cs)
  | t => t

def acronymJoint (a b : Char) (next : Option Char) : Bool := a.isUpper && b.isUpper && next.any Char.isLower

def humpJoint (a b : Char) (_ : Option Char) : Bool := (a.isLower || a.isDigit) && b.isUpper

/-- The first character stays the first. -/
theorem exists_partedAt_cons (joint : Char → Char → Option Char → Bool) (a : Char) (cs : Text) :
    ∃ u, partedAt joint (a :: cs) = a :: u := by
  cases cs with
  | nil => exact ⟨[], rfl⟩
  | cons b cs =>
    rw [partedAt]
    split
    · exact ⟨_, rfl⟩
    · exact ⟨_, rfl⟩

/-- Behind a character that has no joint the text goes on as it would. -/
theorem partedAt_cons {joint : Char → Char → Option Char → Bool} {a : Char} {cs : Text}
    (h : ∀ b rest, cs = b :: rest → joint a b rest.head? = false) :
    partedAt joint (a :: cs) = a :: partedAt joint cs := by
  cases cs with
  | nil => rfl
  | cons b rest =>
    rw [partedAt, h b rest rfl]
    rfl

/-- A capital is neither a lower-case letter nor a digit. -/
theorem not_lower_of_isUpper {c : Char} (h : c.isUpper = true) : (c.isLower || c.isDigit) = false :=
  Bool.eq_false_iff.mpr fun hlower => by
    rw [not_isUpper_of_lower hlower] at h
    cases h

theorem not_isLower_of_isUpper {c : Char} (h : c.isUpper = true) : c.isLower = false :=
  (Bool.or_eq_false_iff.mp (not_lower_of_isUpper h)).1

/-! ### Acronyms -/

/-- Behind what is no capital there is no joint of an acronym. -/
theorem partedAt_acronym_cons {a : Char} (h : a.isUpper = false) (cs : Text) :
    partedAt acronymJoint (a :: cs) = a :: partedAt acronymJoint cs :=
  partedAt_cons fun b rest _ => by rw [acronymJoint, h]; rfl

/-- In an acronym the joint is in front of the last capital. -/
theorem partedAt_acronym {a b : Text} (h : Acronym a b) (rest : Text) :
    partedAt acronymJoint (a ++ (b ++ rest)) = a ++ '-' :: (b ++ partedAt acronymJoint rest) := by
  obtain ⟨hne, hupper, c, d, rfl, hc, hd⟩ := h
  have hword : partedAt acronymJoint (c :: d :: rest) = c :: d :: partedAt acronymJoint rest := by
    have hupper : d.isUpper = false := not_isUpper_of_lower (by rw [hd, Bool.true_or])
    rw [partedAt, acronymJoint, hupper, Bool.and_false, Bool.false_and, if_neg Bool.false_ne_true,
      partedAt_acronym_cons hupper]
  induction a with
  | nil => exact absurd rfl hne
  | cons x a ih =>
    obtain ⟨hx, ha⟩ := List.forall_mem_cons.mp hupper
    cases a with
    | nil =>
      have hjoint : acronymJoint x c (some d) = true := by simp [acronymJoint, hx, hc, hd]
      show partedAt acronymJoint (x :: c :: d :: rest) = _
      rw [partedAt, List.head?_cons, hjoint, if_pos rfl, hword]
      rfl
    | cons y a =>
      -- Behind the next capital there is another one.
      have hnext : (a ++ ([c, d] ++ rest)).head?.any Char.isLower = false := by
        cases a with
        | nil => exact not_isLower_of_isUpper hc
        | cons z a => exact not_isLower_of_isUpper (ha z (by simp))
      have hjoint : ∀ b more, (y :: a) ++ ([c, d] ++ rest) = b :: more →
          acronymJoint x b more.head? = false := by
        intro b more hb
        rw [List.cons_append] at hb
        obtain ⟨rfl, rfl⟩ := List.cons.inj hb
        rw [acronymJoint, hnext, Bool.and_false]
      rw [List.cons_append, partedAt_cons hjoint, ih (List.cons_ne_nil _ _) ha]
      rfl

/-- Where no acronym begins there is no joint of one. -/
theorem acronymJoint_eq_false {a b : Char} {rest : Text}
    (hnone : ∀ x y more, a :: b :: rest = x ++ (y ++ more) → ¬ Acronym x y) :
    acronymJoint a b rest.head? = false := by
  by_contra hjoint
  rw [Bool.not_eq_false, acronymJoint, Bool.and_eq_true, Bool.and_eq_true] at hjoint
  obtain ⟨⟨ha, hb⟩, hlower⟩ := hjoint
  cases rest with
  | nil => cases hlower
  | cons d more =>
    have hmatch : Acronym [a] [b, d] :=
      ⟨List.cons_ne_nil _ _, List.forall_mem_singleton.mpr ha, b, d, rfl, hb, hlower⟩
    exact hnone [a] [b, d] more rfl hmatch

theorem eq_partedAt_acronym {t u : Text} (h : Parted Acronym t u) : u = partedAt acronymJoint t := by
  induction h with
  | nil => rfl
  | hit hmatch _ ih => rw [partedAt_acronym hmatch, ih]
  | miss hnone _ ih =>
    rw [partedAt_cons fun b rest hcs => acronymJoint_eq_false fun x y more => hcs ▸ hnone x y more, ih]

/-! ### Humps -/

/-- At a hump there is a joint, and none right behind it. -/
theorem partedAt_hump {a b : Text} (h : Hump a b) (rest : Text) :
    partedAt humpJoint (a ++ (b ++ rest)) = a ++ '-' :: (b ++ partedAt humpJoint rest) := by
  obtain ⟨⟨c, rfl, hc⟩, d, rfl, hd⟩ := h
  have hjoint : humpJoint c d rest.head? = true := by rw [humpJoint, hc, hd]; rfl
  have hbehind (b : Char) (next : Option Char) : humpJoint d b next = false := by
    rw [humpJoint, not_lower_of_isUpper hd, Bool.false_and]
  show partedAt humpJoint (c :: d :: rest) = c :: '-' :: d :: partedAt humpJoint rest
  rw [partedAt, hjoint, if_pos rfl, partedAt_cons fun b more _ => hbehind b more.head?]

theorem eq_partedAt_hump {t u : Text} (h : Parted Hump t u) : u = partedAt humpJoint t := by
  induction h with
  | nil => rfl
  | hit hmatch _ ih => rw [partedAt_hump hmatch, ih]
  | @miss c cs u hnone _ ih =>
    have hjoint : ∀ b rest, cs = b :: rest → humpJoint c b rest.head? = false := by
      rintro b rest rfl
      by_contra hjoint
      rw [Bool.not_eq_false, humpJoint, Bool.and_eq_true] at hjoint
      exact hnone [c] [b] rest rfl ⟨⟨c, rfl, hjoint.1⟩, b, rfl, hjoint.2⟩
    rw [partedAt_cons hjoint, ih]

/-! ### One pass after the other -/

/-- A pass comes to an end. -/
theorem exists_parted {Match : Text → Text → Prop} (hne : ∀ a b, Match a b → a ≠ []) (t : Text) :
    ∃ u, Parted Match t u := by
  induction hn : t.length using Nat.strong_induction_on generalizing t with
  | _ n ih =>
    cases t with
    | nil => exact ⟨[], .nil⟩
    | cons c cs =>
      by_cases hmatch : ∃ a b rest, c :: cs = a ++ (b ++ rest) ∧ Match a b
      · obtain ⟨a, b, rest, htext, hab⟩ := hmatch
        have hlength := congrArg List.length htext
        rw [List.length_append, List.length_append] at hlength
        have hpos := List.length_pos_iff.mpr (hne a b hab)
        obtain ⟨u, hu⟩ := ih rest.length (by omega) rest rfl
        rw [htext]
        exact ⟨_, .hit hab hu⟩
      · obtain ⟨u, hu⟩ := ih cs.length (by rw [← hn]; exact Nat.lt_succ_self _) cs rfl
        exact ⟨_, .miss (fun a b rest htext hab => hmatch ⟨a, b, rest, htext, hab⟩) hu⟩

/-- **An acronym is parted at its joint.** -/
theorem parted_acronym_iff {t u : Text} : Parted Acronym t u ↔ u = partedAt acronymJoint t := by
  refine ⟨eq_partedAt_acronym, ?_⟩
  rintro rfl
  obtain ⟨u, hu⟩ := exists_parted (fun _ _ h => Acronym.nonempty h) t
  rwa [← eq_partedAt_acronym hu]

/-- **A hump is parted at its joint.** -/
theorem parted_hump_iff {t u : Text} : Parted Hump t u ↔ u = partedAt humpJoint t := by
  have hne (a b : Text) (h : Hump a b) : a ≠ [] := by
    obtain ⟨⟨c, rfl, -⟩, -⟩ := h
    exact List.cons_ne_nil _ _
  refine ⟨eq_partedAt_hump, ?_⟩
  rintro rfl
  obtain ⟨u, hu⟩ := exists_parted hne t
  rwa [← eq_partedAt_hump hu]

theorem hyphenated_eq (t : Text) : hyphenated t = partedAt humpJoint (partedAt acronymJoint t) := by
  have hkinds (a b : Char) (next other : Option Char) :
      isJoint a b next = (acronymJoint a b next || humpJoint a b other) := by
    rw [isJoint, acronymJoint, humpJoint]
    cases a.isUpper <;> cases b.isUpper <;> simp [Bool.or_comm]
  -- Around a hyphen there is no hump.
  have hhyphen (a : Char) (t : Text) : partedAt humpJoint (a :: '-' :: t) = a :: '-' :: partedAt humpJoint t := by
    have hfront : humpJoint a '-' t.head? = false := Bool.and_false _
    rw [partedAt, hfront, if_neg Bool.false_ne_true, partedAt_cons fun b rest _ => rfl]
  fun_induction hyphenated t with
  | case1 a b cs hjoint ih =>
    obtain ⟨u, hu⟩ := exists_partedAt_cons acronymJoint b cs
    rw [ih, partedAt, hu]
    split
    · rw [hhyphen]
    next hacronym =>
      rw [hkinds a b _ u.head?, Bool.eq_false_iff.mpr hacronym, Bool.false_or] at hjoint
      rw [partedAt, if_pos hjoint]
  | case2 a b cs hjoint ih =>
    obtain ⟨u, hu⟩ := exists_partedAt_cons acronymJoint b cs
    rw [hkinds a b _ u.head?, Bool.or_eq_true, not_or] at hjoint
    rw [ih, partedAt, if_neg hjoint.1, hu, partedAt, if_neg hjoint.2]
  | case3 t hshort =>
    have hsame (joint : Char → Char → Option Char → Bool) : partedAt joint t = t := by
      rw [partedAt]
      exact hshort
    rw [hsame, hsame]

/-- **The joints of a name are those of acronyms, and then those of humps.** -/
theorem hyphenated_iff {t v : Text} : hyphenated t = v ↔ ∃ u, Parted Acronym t u ∧ Parted Hump u v := by
  simp only [parted_acronym_iff, parted_hump_iff, exists_eq_left, hyphenated_eq]
  exact eq_comm

end Graft.Name
