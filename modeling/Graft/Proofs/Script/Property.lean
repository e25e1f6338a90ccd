import Graft.Proofs.Script.DescriptorSearch

/-
The properties of a descriptor.

* `property?_eq_some_iff` — the property under a key is the last entry with that key;
* `exists_valueAt` — **a value that is a group may be replaced by another group**, and stays the value;
* `property?_of_concat` — a new last entry is the property under its key;
* `Lists ts key name` — the list under a key of the descriptor names something;
* `Descriptor.list? d key` — the entries of the list under a key, of which a module has none where it lacks
  the list.
-/
namespace Graft.Script

theorem entryKey?_eq_some {e : List Token} {key : Text} (h : entryKey? e = some key) :
    ∃ k m tail, e = k :: m :: tail ∧ Plain k ∧ Plain m := by
  match e, h with
  | k :: m :: tail, h =>
    refine ⟨k, m, tail, rfl, ?_⟩
    unfold entryKey? at h
    dsimp only at h
    split at h
    next hm =>
      refine ⟨plain_of_kind ?_, plain_of_isMark hm (by decide)⟩
      intro hk
      rw [hk] at h
      cases h
    next => cases h

/-- The property under a key is the last entry with that key. -/
theorem property?_eq_some_iff {d : Descriptor} {key : Text} {e : List Token} :
    d.property? key = some e ↔ entryKey? e = some key ∧ ∃ E F, entries d.inside = E ++ e :: F ∧
      ∀ f ∈ F, entryKey? f ≠ some key := by
  rw [Descriptor.property?, List.find?_eq_some_iff_append, beq_iff_eq]
  refine and_congr_right fun _ => ?_
  constructor
  · rintro ⟨F, E, hrev, hF⟩
    refine ⟨E.reverse, F.reverse, ?_, fun f hf => ?_⟩
    · rw [← List.reverse_reverse (entries d.inside), hrev]
      simp
    · simpa using hF f (List.mem_reverse.mp hf)
  · rintro ⟨E, F, hentries, hF⟩
    refine ⟨F.reverse, E.reverse, ?_, fun f hf => ?_⟩
    · rw [hentries]
      simp
    · simpa using hF f (List.mem_reverse.mp hf)

/-- Where the value of a property stands in the object, when it is a group. -/
structure ValueAt (d : Descriptor) (key : Text) (o : Token) (I : List Token) (c : Token)
    (X Y : List Token) : Prop where
  -- The tokens of the object.
  eq : d.inside = X ++ (o :: (I ++ [c]) ++ Y)
  -- Another group in the place of the value is the value.
  replace : ∀ J, Nested J → ∃ e rest after,
    { d with inside := X ++ (o :: (J ++ [c]) ++ Y) }.property? key = some e ∧
      e.drop 2 = o :: rest ∧ enclosed? (o :: rest) = some ⟨J, c, after⟩
  -- It leaves the properties under other keys as they are.
  other : ∀ J, Nested J → ∀ k, k ≠ key →
    { d with inside := X ++ (o :: (J ++ [c]) ++ Y) }.property? k = d.property? k

/-- An entry may be replaced by another under the same key without effect on other keys. -/
theorem property?_of_ne {d : Descriptor} {key k : Text} {e : List Token} {E F : List (List Token)}
    (h : entries d.inside = E ++ e :: F) (hkey : entryKey? e = some key) (hk : k ≠ key) :
    d.property? k = (E ++ F).reverse.find? fun e => entryKey? e == some k := by
  have hno : [e].find? (fun e => entryKey? e == some k) = none := by
    simp [hkey, hk.symm]
  rw [Descriptor.property?, h, List.reverse_append, List.reverse_append, List.reverse_cons,
    List.append_assoc, List.find?_append, List.find?_append, List.find?_append, hno, Option.none_or]

/-- **A value that is a group may be replaced.** -/
theorem exists_valueAt {d : Descriptor} {key : Text} {e rest : List Token} {o : Token} {g : Group}
    (h : d.property? key = some e) (he : e.drop 2 = o :: rest)
    (hg : enclosed? (o :: rest) = some g) : ∃ X Y, ValueAt d key o g.inside g.closing X Y := by
  obtain ⟨hkey, E, F, hentries, hF⟩ := property?_eq_some_iff.mp h
  obtain ⟨k, m, tail, rfl, hk, hm⟩ := entryKey?_eq_some hkey
  obtain rfl : tail = o :: rest := he
  obtain ⟨c, hc, rfl, hin, hclosing⟩ := enclosed?_eq_some_iff.mp hg
  have hflat {J : List Token} (hJ : Nested J) : Flat (o :: (J ++ [g.closing])) :=
    flat_group hc hJ hclosing
  -- The entry is the key, the colon, the group, and what follows it.
  have hentry (J : List Token) : k :: m :: o :: (J ++ g.closing :: g.after) =
      [k, m] ++ (o :: (J ++ [g.closing]) ++ g.after) := by simp
  obtain ⟨-, P, Q, hparts, hP, hQ⟩ := exists_part_of_entries hentries
  obtain ⟨X, Y, hXY, hs⟩ := split_parts hparts
  have hX : depthAfter 0 X = 0 := by
    cases P with
    | nil =>
      rw [hs.first rfl]
      rfl
    | cons p ps => exact hs.opening (List.cons_ne_nil _ _)
  have hkm : depthAfter 0 [k, m] = 0 := by
    rw [depthAfter, depthAfter, shift_plain hk, shift_plain hm]
    rfl
  have hinside (J : List Token) : X ++ (k :: m :: o :: (J ++ g.closing :: g.after) ++ Y) =
      (X ++ [k, m]) ++ (o :: (J ++ [g.closing]) ++ (g.after ++ Y)) := by simp
  -- With another group the entry is still one part of the object.
  have hnew (J : List Token) (hJ : Nested J) :
      entries (X ++ [k, m] ++ (o :: (J ++ [g.closing]) ++ (g.after ++ Y))) =
        E ++ (k :: m :: o :: (J ++ g.closing :: g.after)) :: F := by
    have hpart := hs.part
    rw [hX, hentry] at hpart
    have hpart' := parts_flat_replace (Int.le_of_eq hkm.symm) (hflat hin) (hflat hJ) hpart
    have hdepth := depthAfter_nested_replace (hflat hin).nested (hflat hJ).nested 0 [k, m] g.after
    rw [← hentry] at hpart'
    rw [← hentry, ← hentry] at hdepth
    have hall := hs.parts_replace (by rwa [hX]) (by rwa [hX])
    rw [← hinside, entries_eq, hall, nonempty_filter_ne_nil (List.cons_ne_nil _ _), hP, hQ]
  refine ⟨X ++ [k, m], g.after ++ Y, ?_, fun J hJ => ?_, fun J hJ key' hne => ?_⟩
  · rw [hXY, hinside]
  · exact ⟨k :: m :: o :: (J ++ g.closing :: g.after), _, g.after,
      property?_eq_some_iff.mpr ⟨hkey, E, F, hnew J hJ, hF⟩, rfl,
      enclosed?_eq_some_iff.mpr ⟨c, hc, rfl, hJ, hclosing⟩⟩
  · rw [property?_of_ne hentries hkey hne]
    exact property?_of_ne (hnew J hJ) hkey hne

/-- A new last entry is the property under its key. -/
theorem property?_of_concat {d : Descriptor} {key : Text} {e : List Token} {E : List (List Token)}
    (h : entries d.inside = E ++ [e]) (hkey : entryKey? e = some key) : d.property? key = some e :=
  property?_eq_some_iff.mpr ⟨hkey, E, [], h, by simp⟩

/-- The list under a key of the object names something, as the first token of an entry. -/
def Descriptor.Lists (d : Descriptor) (key name : Text) : Prop :=
  ∃ e o rest g, d.property? key = some e ∧ e.drop 2 = o :: rest ∧ o.isMark '[' = true ∧
    enclosed? (o :: rest) = some g ∧ ∃ f ∈ entries g.inside, ∃ t ∈ f.head?, t.isWord name = true

/-- The list under a key of the first descriptor names something. -/
def Lists (ts : List Token) (key name : Text) : Prop :=
  ∃ d, descriptor? ts = some d ∧ d.Lists key name

/-- The entries of the list under a key of the object.  A module that has no property under the key has a
list without entries there. -/
def Descriptor.list? (d : Descriptor) (key : Text) : Option (List (List Token)) :=
  match d.property? key with
  | some e =>
    match e.drop 2 with
    | [] => none
    | o :: rest => if o.isMark '[' then (enclosed? (o :: rest)).map fun g => entries g.inside else none
  | none => if d.decorator = .ngModule then some [] else none

/-- An entry that begins with a word. -/
def Leads (name : Text) (e : List Token) : Prop := ∃ t ∈ e.head?, t.isWord name = true

theorem list?_of_group {d : Descriptor} {key : Text} {e rest : List Token} {o : Token} {g : Group}
    (h : d.property? key = some e) (he : e.drop 2 = o :: rest) (ho : o.isMark '[' = true)
    (hg : enclosed? (o :: rest) = some g) : d.list? key = some (entries g.inside) := by
  rw [Descriptor.list?, h]
  simp only [he, ho, if_true, hg, Option.map_some]

theorem list?_of_none {d : Descriptor} {key : Text} (h : d.property? key = none)
    (hd : d.decorator = .ngModule) : d.list? key = some [] := by
  rw [Descriptor.list?, h]
  exact if_pos hd

/-- The list under a key is read off the property, and the decorator. -/
theorem list?_congr {d d' : Descriptor} {key : Text} (h : d'.property? key = d.property? key)
    (hd : d'.decorator = d.decorator := by rfl) : d'.list? key = d.list? key := by
  rw [Descriptor.list?, Descriptor.list?, h, hd]

/-- There is a list where the value of the property is one, and where a module has no property. -/
theorem list?_eq_some {d : Descriptor} {key : Text} {E : List (List Token)} (h : d.list? key = some E) :
    (∃ e o rest g, d.property? key = some e ∧ e.drop 2 = o :: rest ∧ o.isMark '[' = true ∧
      enclosed? (o :: rest) = some g ∧ E = entries g.inside) ∨
    (d.property? key = none ∧ d.decorator = .ngModule ∧ E = []) := by
  rw [Descriptor.list?] at h
  cases hproperty : d.property? key with
  | none =>
    rw [hproperty] at h
    simp only at h
    split at h
    next hd => exact .inr ⟨rfl, hd, (Option.some.inj h).symm⟩
    next => cases h
  | some e =>
    rw [hproperty] at h
    simp only at h
    split at h
    next => cases h
    next o rest he =>
      split at h
      next ho =>
        obtain ⟨g, hg, hE⟩ := Option.map_eq_some_iff.mp h
        exact .inl ⟨e, o, rest, g, rfl, he, ho, hg, hE.symm⟩
      next => cases h

/-- What the list under a key names are the words that its entries begin with. -/
theorem Descriptor.lists_iff {d : Descriptor} {key name : Text} :
    d.Lists key name ↔ ∃ E, d.list? key = some E ∧ ∃ e ∈ E, Leads name e := by
  constructor
  · rintro ⟨e, o, rest, g, hproperty, he, ho, hg, f, hf, hleads⟩
    exact ⟨_, list?_of_group hproperty he ho hg, f, hf, hleads⟩
  · rintro ⟨E, hE, f, hf, hleads⟩
    rcases list?_eq_some hE with ⟨e, o, rest, g, hproperty, he, ho, hg, rfl⟩ | ⟨-, -, rfl⟩
    · exact ⟨e, o, rest, g, hproperty, he, ho, hg, f, hf, hleads⟩
    · cases hf

end Graft.Script
