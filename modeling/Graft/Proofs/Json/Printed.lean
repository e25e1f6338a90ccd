import Graft.Proofs.Json.Strings
import Mathlib.Data.List.Basic
import Mathlib.Data.List.TakeDrop

/-
Printed values, read back.

* `Layout.Spaced s` — separators with nothing but blanks behind the mark;
* `Legible d v` — values without fractions, within the limits of the reader, that nest up to `d` levels, whose
  keys differ and whose strings have no pair of surrogates;
* `readMagnitude_decimal`, `readAtom_int` — a whole number is read back;
* `readItems_printItems`, `readMembers_printMembers` — so are items and members, if each value is;
* `read_print` — **a value that is printed is read back as it is**.

Design notes: the induction is on what makes a value legible.  Twice the length of what is printed is fuel
enough, since no part of a value is empty; this carries the induction over items and members, too.
-/
namespace Graft.Json

variable {s : Layout} {d : Nat} {limit : Option Nat} {v : Json} {c : Char} {t rest : Wide}

/-- Separators with nothing but blanks behind the mark. -/
structure Layout.Spaced (s : Layout) : Prop where
  comma : ∃ gap, s.comma = ',' :: gap ∧ ∀ c ∈ gap, c = ' '
  colon : ∃ gap, s.colon = ':' :: gap ∧ ∀ c ∈ gap, c = ' '

theorem spaced_compact : Layout.compact.Spaced := ⟨⟨[], rfl, by simp⟩, ⟨[], rfl, by simp⟩⟩

/-- Values that the reader can read: without fractions, up to `d` levels deep, with whole numbers that do not
have too many digits, with no key twice in an object, and with no pair of surrogates in a string. -/
inductive Legible : Nat → Json → Prop
  | null {d : Nat} : Legible d .null
  | bool {d : Nat} (b : Bool) : Legible d (.bool b)
  | int {d : Nat} (n : Int) (short : Text.Short n.natAbs) : Legible d (.num (.int n))
  | str {d : Nat} {t : Wide} (unpaired : Unpaired t) : Legible d (.str t)
  | arr {d : Nat} {items : List Json} (each : ∀ v ∈ items, Legible d v) : Legible (d + 1) (.arr items)
  | obj {d : Nat} {members : List (Wide × Json)} (distinct : (members.map Prod.fst).Nodup)
      (unpaired : ∀ m ∈ members, Unpaired m.1) (each : ∀ m ∈ members, Legible d m.2) : Legible (d + 1) (.obj members)

/-! ### What stands before and behind a value -/

theorem skipGap_cons (h : isGap c = false) (t : Wide) : skipGap (.char c :: t) = .char c :: t :=
  List.dropWhile_cons_of_neg (by simp [Point.meets, h])

theorem skipGap_blanks {gap : Text} (h : ∀ c ∈ gap, c = ' ') (t : Wide) :
    skipGap (Text.wide gap ++ t) = skipGap t := by
  refine List.dropWhile_append_of_pos fun p hp => ?_
  obtain ⟨c, hc, rfl⟩ := List.mem_map.mp hp
  rw [h c hc]
  rfl

/-- What a value may begin with. -/
def Begins (c : Char) : Prop := c ∈ ['n', 't', 'f', '-', '"', '[', '{'] ∨ c.isDigit = true

instance : DecidablePred Begins := fun _ => inferInstanceAs (Decidable (_ ∨ _))

theorem Begins.ne {c e : Char} (h : Begins c) (hwords : e ∉ ['n', 't', 'f', '-', '"', '[', '{'])
    (hdigit : e.isDigit = false) : c ≠ e := by
  rintro rfl
  rcases h with h | h
  · exact hwords h
  · rw [hdigit] at h
    cases h

/-- What a value begins with is no gap. -/
theorem Begins.isGap_eq (h : Begins c) : isGap c = false := by
  simp only [isGap, Bool.or_eq_false_iff, decide_eq_false_iff_not]
  exact ⟨⟨⟨h.ne (by decide) rfl, h.ne (by decide) rfl⟩, h.ne (by decide) rfl⟩, h.ne (by decide) rfl⟩

/-- A text that begins like a value. -/
def Begun (t : Wide) : Prop := ∃ c u, t = .char c :: u ∧ Begins c

theorem Begun.append (h : Begun t) (rest : Wide) : Begun (t ++ rest) := by
  obtain ⟨c, u, rfl, hc⟩ := h
  exact ⟨c, u ++ rest, rfl, hc⟩

theorem Begun.length_pos (h : Begun t) : 0 < t.length := by
  obtain ⟨c, u, rfl, -⟩ := h
  exact Nat.succ_pos _

/-- Blanks in front of a value are skipped, and nothing else is. -/
theorem Begun.skipGap_eq (h : Begun t) {gap : Text} (hgap : ∀ c ∈ gap, c = ' ') :
    skipGap (Text.wide gap ++ t) = t := by
  obtain ⟨c, u, rfl, hc⟩ := h
  rw [skipGap_blanks hgap, skipGap_cons hc.isGap_eq]

/-- What may follow a value: nothing, or the mark of a separator or of a closing bracket. -/
def Follows (rest : Wide) : Prop := ∀ p ∈ rest.head?, p = .char ',' ∨ p = .char ']' ∨ p = .char '}'

theorem follows_nil : Follows [] := by simp [Follows]

theorem follows_cons (h : c = ',' ∨ c = ']' ∨ c = '}') (rest : Wide) : Follows (.char c :: rest) := by
  simpa [Follows] using h

theorem Follows.readFraction_eq (h : Follows rest) : readFraction rest = none := by
  cases rest with
  | nil => rfl
  | cons c cs =>
    rcases h c rfl with rfl | rfl | rfl <;> rfl

theorem Follows.readPower_eq (h : Follows rest) : readPower rest = none := by
  cases rest with
  | nil => rfl
  | cons c cs =>
    rcases h c rfl with rfl | rfl | rfl <;> rfl

/-- Digits are read up to what follows them. -/
theorem Follows.spanDigits_eq {ds : Text} (h : Follows rest) (hds : ∀ c ∈ ds, c.isDigit = true) :
    spanDigits (ds.wide ++ rest) = (ds, rest) := by
  induction ds with
  | nil =>
    cases rest with
    | nil => rfl
    | cons p ps =>
      rcases h p rfl with rfl | rfl | rfl <;> rfl
  | cons c cs ih =>
    obtain ⟨hc, hcs⟩ := List.forall_mem_cons.mp hds
    rw [Text.wide_cons, List.cons_append, spanDigits, if_pos hc, ih hcs]

/-! ### Whole numbers -/

/-- Only zero is written with a zero in front. -/
theorem decimal_head_ne_zero {n : Nat} (h : n ≠ 0) : (Text.decimal n).head? ≠ some '0' := by
  induction n using Nat.strongRecOn with
  | ind n ih =>
    rw [Text.decimal_eq]
    split
    next hsmall =>
      have hall : ∀ k < 10, k ≠ 0 → (Nat.digitChar k) ≠ '0' := by decide
      simpa using hall (n % 10) (Nat.mod_lt n (by decide)) (by omega)
    next hlarge =>
      rw [List.head?_append_of_ne_nil _ (Text.decimal_ne_nil _)]
      exact ih (n / 10) (by omega) (by omega)

/-- A number starts with all of its digits. -/
theorem Follows.leadingDigits_eq (h : Follows rest) (n : Nat) :
    leadingDigits ((Text.decimal n).wide ++ rest) = (Text.decimal n, rest) := by
  by_cases hzero : n = 0
  · subst hzero
    rfl
  · have hspan := h.spanDigits_eq fun c => Text.isDigit_of_mem_decimal (n := n)
    have hhead := decimal_head_ne_zero hzero
    obtain ⟨c, cs, hdecimal⟩ := List.exists_cons_of_ne_nil (Text.decimal_ne_nil n)
    rw [hdecimal] at hspan hhead ⊢
    rw [Text.wide_cons, List.cons_append] at hspan ⊢
    rw [leadingDigits, hspan]
    intro rest' heq
    rw [Point.char.inj (List.cons.inj heq).1] at hhead
    exact hhead rfl

/-- A whole number is read back, with the sign that was passed. -/
theorem readMagnitude_decimal {n : Nat} (hn : Text.Short n) (h : Follows rest)
    (negative : Bool) : readMagnitude negative ((Text.decimal n).wide ++ rest) =
      some (.ok (.int (if negative then -n else n), rest)) := by
  have hdigits : (Text.decimal n).isEmpty = false := by
    simpa using Text.decimal_ne_nil n
  simp [readMagnitude, h.leadingDigits_eq, hdigits, h.readFraction_eq, h.readPower_eq,
    Nat.not_lt.mpr hn, Text.digitsValue_decimal]

/-- A text that begins with a digit, perhaps behind a minus sign, is no word. -/
theorem readAtom_number (hc : c.isDigit = true) :
    readAtom (.char c :: t) =
      (readMagnitude false (.char c :: t)).map (·.map fun r => (.num r.1, r.2)) ∧
    readAtom (.char '-' :: .char c :: t) =
      (readMagnitude true (.char c :: t)).map (·.map fun r => (.num r.1, r.2)) := by
  have hne {e : Char} (he : e.isDigit = false) : e ≠ c := by
    rintro rfl
    rw [hc] at he
    cases he
  have hminus : c ≠ '-' := (hne rfl).symm
  constructor
  · simp [readAtom, Wide.after?, hne, hminus]
  · simp [readAtom, Wide.after?, hne]

theorem exists_digit_cons (n : Nat) : ∃ c cs, Text.decimal n = c :: cs ∧ c.isDigit = true := by
  obtain ⟨c, cs, h⟩ := List.exists_cons_of_ne_nil (Text.decimal_ne_nil n)
  exact ⟨c, cs, h, Text.isDigit_of_mem_decimal (n := n) (by rw [h]; exact List.mem_cons_self)⟩

theorem exists_ofInt_cons (n : Int) : ∃ c cs, Text.ofInt n = c :: cs ∧ (c = '-' ∨ c.isDigit = true) := by
  cases n with
  | ofNat n =>
    obtain ⟨c, cs, heq, hc⟩ := exists_digit_cons n
    exact ⟨c, cs, heq, .inr hc⟩
  | negSucc n => exact ⟨'-', _, rfl, .inl rfl⟩

/-- A whole number is read back. -/
theorem readAtom_int {n : Int} (hn : Text.Short n.natAbs) (h : Follows rest) :
    readAtom ((Text.ofInt n).wide ++ rest) = some (.ok (.num (.int n), rest)) := by
  cases n with
  | ofNat n =>
    obtain ⟨c, cs, hdecimal, hc⟩ := exists_digit_cons n
    have hread := readMagnitude_decimal (n := n) hn h false
    rw [hdecimal, Text.wide_cons, List.cons_append] at hread
    rw [Text.ofInt, hdecimal, Text.wide_cons, List.cons_append, (readAtom_number hc).1, hread]
    rfl
  | negSucc n =>
    obtain ⟨c, cs, hdecimal, hc⟩ := exists_digit_cons (n + 1)
    have hread := readMagnitude_decimal (n := n + 1) hn h true
    rw [hdecimal, Text.wide_cons, List.cons_append] at hread
    rw [Text.ofInt, hdecimal, Text.wide_cons, Text.wide_cons, List.cons_append, List.cons_append,
      (readAtom_number hc).2, hread]
    rfl

/-! ### Values -/

/-- What a value is printed as begins like a value. -/
theorem Legible.begun (h : Legible d v) (s : Layout) : Begun (print s v).wide := by
  cases h with
  | null => exact ⟨'n', _, rfl, by decide⟩
  | bool b =>
    cases b with
    | false => exact ⟨'f', _, rfl, by decide⟩
    | true => exact ⟨'t', _, rfl, by decide⟩
  | int n _ =>
    obtain ⟨c, cs, heq, rfl | hc⟩ := exists_ofInt_cons n
    · exact ⟨'-', cs, congrArg Text.wide heq, by decide⟩
    · exact ⟨c, cs, congrArg Text.wide heq, .inr hc⟩
  | str _ => exact ⟨'"', _, rfl, by decide⟩
  | arr _ => exact ⟨'[', _, rfl, by decide⟩
  | obj _ _ _ => exact ⟨'{', _, rfl, by decide⟩

theorem Legible.length_pos (h : Legible d v) (s : Layout) : 0 < (print s v).length := by
  have hpos := (h.begun s).length_pos
  rwa [Text.length_wide] at hpos

/-- Whether a reader with a limit, or with none, reads `d` levels. -/
def Allows (limit : Option Nat) (d : Nat) : Prop := ∀ n ∈ limit, d ≤ n

/-- A reader that reads a level more can open one. -/
theorem Allows.pred (h : Allows limit (d + 1)) : limit ≠ some 0 ∧ Allows (limit.map Nat.pred) d := by
  cases limit with
  | none => exact ⟨by simp, by simp [Allows]⟩
  | some n =>
    have hn : d + 1 ≤ n := h n rfl
    refine ⟨fun h0 => ?_, fun m hm => ?_⟩
    · obtain rfl := Option.some.inj h0
      omega
    · obtain rfl := Option.some.inj hm
      exact Nat.le_pred_of_lt hn

/-- A value is read back from what is printed, where there is fuel and something may follow it. -/
def ReadsBack (s : Layout) (limit : Option Nat) (v : Json) : Prop :=
  ∀ fuel rest, 2 * (print s v).length ≤ fuel → Follows rest →
    readValue fuel limit ((print s v).wide ++ rest) = .ok (v, rest)

/-- What begins with a minus sign or with a digit is read as a word or a number. -/
theorem readValue_atom {fuel : Nat} (hc : c = '-' ∨ c.isDigit = true) :
    readValue (fuel + 1) limit (.char c :: t) =
      (readAtom (.char c :: t)).getD (failAt .expectingValue (.char c :: t)) := by
  have hne {e : Char} (hminus : e ≠ '-') (hdigit : e.isDigit = false) : Point.char c ≠ .char e := by
    intro h
    obtain rfl := Point.char.inj h
    rcases hc with rfl | hc
    · exact hminus rfl
    · rw [hdigit] at hc
      cases hc
  rw [readValue]
  · exact fun _ heq => hne (by decide) rfl (List.cons.inj heq).1
  · exact fun _ heq => hne (by decide) rfl (List.cons.inj heq).1
  · exact fun _ heq => hne (by decide) rfl (List.cons.inj heq).1

section
variable {items : List Json} {members acc : List (Wide × Json)} {fuel : Nat}

/-- A value is read where it stands, with what follows behind it. -/
theorem ReadsBack.readValue_eq (h : ReadsBack s limit v) (hfuel : 2 * (print s v).length ≤ fuel)
    (hc : c = ',' ∨ c = ']' ∨ c = '}') (rest : Wide) :
    readValue fuel limit ((print s v).wide ++ .char c :: rest) = .ok (v, .char c :: rest) :=
  h fuel _ hfuel (follows_cons hc rest)

theorem printItems_cons (hne : items ≠ []) :
    printItems s (v :: items) = print s v ++ s.comma ++ printItems s items := by
  rw [printItems]
  exact hne

theorem printMembers_cons {key : Wide} (hne : members ≠ []) : printMembers s ((key, v) :: members) =
    escaped key ++ s.colon ++ print s v ++ s.comma ++ printMembers s members := by
  rw [printMembers]
  exact hne

theorem begun_printItems (hne : items ≠ []) (each : ∀ v ∈ items, Legible d v) :
    Begun (printItems s items).wide := by
  obtain ⟨v, vs, rfl⟩ := List.exists_cons_of_ne_nil hne
  have hv := (each v List.mem_cons_self).begun s
  by_cases hvs : vs = []
  · rwa [hvs, printItems]
  · rw [printItems_cons hvs, List.append_assoc, Text.wide_append]
    exact hv.append _

theorem begun_escaped (t : Wide) : Begun (escaped t).wide := ⟨'"', _, rfl, by decide⟩

theorem begun_printMembers (hne : members ≠ []) : Begun (printMembers s members).wide := by
  obtain ⟨⟨key, v⟩, ms, rfl⟩ := List.exists_cons_of_ne_nil hne
  by_cases hms : ms = []
  · rw [hms, printMembers]
    simp only [List.append_assoc, Text.wide_append]
    exact (begun_escaped key).append _
  · rw [printMembers_cons hms]
    simp only [List.append_assoc, Text.wide_append]
    exact (begun_escaped key).append _

/-- Items are read back up to the closing bracket, if each is. -/
theorem readItems_printItems (hs : s.Spaced) (hne : items ≠ [])
    (each : ∀ v ∈ items, Legible d v) (back : ∀ v ∈ items, ReadsBack s limit v)
    (hfuel : 2 * (printItems s items).length < fuel) (rest : Wide) :
    readItems fuel limit ((printItems s items).wide ++ .char ']' :: rest) = .ok (items, rest) := by
  induction items generalizing fuel with
  | nil => exact absurd rfl hne
  | cons v vs ih =>
    obtain ⟨k, rfl⟩ : ∃ k, fuel = k + 1 := ⟨fuel - 1, by omega⟩
    have hv := back v List.mem_cons_self
    by_cases hvs : vs = []
    · subst hvs
      rw [printItems] at hfuel ⊢
      rw [readItems, hv.readValue_eq (by omega) (.inr (.inl rfl))]
      rfl
    · obtain ⟨gap, hcomma, hgap⟩ := hs.comma
      have hlater : ∀ x ∈ vs, Legible d x := fun x hx => each x (List.mem_cons_of_mem v hx)
      have hpos := (each v List.mem_cons_self).length_pos s
      rw [printItems_cons hvs, List.length_append, List.length_append] at hfuel
      have hrest : readItems k limit ((printItems s vs).wide ++ .char ']' :: rest) = .ok (vs, rest) :=
        ih hvs hlater (fun x hx => back x (List.mem_cons_of_mem v hx)) (by omega)
      have hskip := ((begun_printItems (s := s) hvs hlater).append (.char ']' :: rest)).skipGap_eq hgap
      rw [printItems_cons hvs, hcomma]
      simp only [Text.wide_append, Text.wide_cons, List.append_assoc, List.cons_append]
      rw [readItems, hv.readValue_eq (by omega) (.inl rfl)]
      show (readItems k limit (skipGap (Text.wide gap ++ ((printItems s vs).wide ++ .char ']' :: rest))) >>= fun r =>
        pure (v :: r.1, r.2)) = _
      rw [hskip, hrest]
      rfl

/-- A name and its value are read, whatever follows them, and added to those before. -/
theorem readMembers_pair (hs : s.Spaced) {key : Wide} (hnew : key ∉ acc.map Prod.fst)
    (hkey : Unpaired key) (hlegible : Legible d v) (hv : ReadsBack s limit v) (hfuel : 2 * (print s v).length ≤ fuel)
    (hc : c = ',' ∨ c = ']' ∨ c = '}') (rest : Wide) :
    readMembers (fuel + 1) limit acc
        ((escaped key ++ s.colon ++ print s v).wide ++ .char c :: rest) =
      match skipGap (.char c :: rest) with
      | .char '}' :: rest => .ok (acc ++ [(key, v)], rest)
      | .char ',' :: rest => readMembers fuel limit (acc ++ [(key, v)]) (skipGap rest)
      | rest => failAt .expectingComma rest := by
  obtain ⟨gap, hcolon, hgap⟩ := hs.colon
  have hskip := ((hlegible.begun s).append (.char c :: rest)).skipGap_eq hgap
  rw [hcolon, escaped]
  simp only [Text.wide_append, Text.wide_cons, List.append_assoc, List.cons_append, List.nil_append]
  rw [readMembers, readText_escaped hkey]
  show (readValue fuel limit (skipGap (Text.wide gap ++ ((print s v).wide ++ .char c :: rest))) >>= _) = _
  rw [hskip, hv.readValue_eq hfuel hc, ← Table.set_of_not_mem hnew]
  rfl

/-- Members are read back up to the closing brace, behind those before them, if each value is. -/
theorem readMembers_printMembers (hs : s.Spaced) (hne : members ≠ [])
    (hdistinct : ((acc ++ members).map Prod.fst).Nodup) (unpaired : ∀ m ∈ members, Unpaired m.1)
    (each : ∀ m ∈ members, Legible d m.2) (back : ∀ m ∈ members, ReadsBack s limit m.2)
    (hfuel : 2 * (printMembers s members).length < fuel) (rest : Wide) :
    readMembers fuel limit acc ((printMembers s members).wide ++ .char '\x7d' :: rest) =
      .ok (acc ++ members, rest) := by
  induction members generalizing acc fuel with
  | nil => exact absurd rfl hne
  | cons m ms ih =>
    obtain ⟨key, v⟩ := m
    obtain ⟨k, rfl⟩ : ∃ k, fuel = k + 1 := ⟨fuel - 1, by omega⟩
    have hlegible : Legible d v := each (key, v) List.mem_cons_self
    have hkey : Unpaired key := unpaired (key, v) List.mem_cons_self
    have hv : ReadsBack s limit v := back (key, v) List.mem_cons_self
    have hnew : key ∉ acc.map Prod.fst := by
      rw [List.map_append, List.nodup_append] at hdistinct
      exact fun hkey => hdistinct.2.2 key hkey key List.mem_cons_self rfl
    by_cases hms : ms = []
    · subst hms
      rw [printMembers, List.length_append] at hfuel
      rw [printMembers, readMembers_pair hs hnew hkey hlegible hv (by omega) (.inr (.inr rfl))]
      rfl
    · obtain ⟨gap, hcomma, hgap⟩ := hs.comma
      have hpos := hlegible.length_pos s
      rw [printMembers_cons hms, List.length_append, List.length_append, List.length_append] at hfuel
      have hrest : readMembers k limit (acc ++ [(key, v)])
          ((printMembers s ms).wide ++ .char '\x7d' :: rest) = .ok (acc ++ [(key, v)] ++ ms, rest) :=
        ih hms (by simpa using hdistinct) (fun m hm => unpaired m (List.mem_cons_of_mem _ hm))
          (fun m hm => each m (List.mem_cons_of_mem _ hm)) (fun m hm => back m (List.mem_cons_of_mem _ hm)) (by omega)
      have hskip := ((begun_printMembers (s := s) hms).append (.char '}' :: rest)).skipGap_eq hgap
      rw [printMembers_cons hms, hcomma, Text.wide_append, Text.wide_append, Text.wide_cons,
        List.append_assoc, List.append_assoc, List.cons_append,
        readMembers_pair hs hnew hkey hlegible hv (by omega) (.inl rfl)]
      show readMembers k limit (acc ++ [(key, v)])
        (skipGap (Text.wide gap ++ ((printMembers s ms).wide ++ .char '}' :: rest))) = _
      rw [hskip, hrest, List.append_assoc]
      rfl

end

/-- An array that is not empty is read as its items, and an object as its members. -/
theorem readValue_items {fuel : Nat} (hlimit : limit ≠ some 0) (h : Begun t) :
    readValue (fuel + 1) limit (.char '[' :: t) =
      (readItems fuel (limit.map Nat.pred) t).map fun r => (.arr r.1, r.2) := by
  obtain ⟨c, u, rfl, hc⟩ := h
  rw [readValue, if_neg hlimit, skipGap_cons hc.isGap_eq]
  split
  next heq => exact absurd (Point.char.inj (List.cons.inj heq).1) (hc.ne (by decide) rfl)
  next => cases readItems fuel (limit.map Nat.pred) (.char c :: u) <;> rfl

theorem readValue_members {fuel : Nat} (hlimit : limit ≠ some 0) (h : Begun t) :
    readValue (fuel + 1) limit (.char '\x7b' :: t) =
      (readMembers fuel (limit.map Nat.pred) [] t).map fun r => (.obj r.1, r.2) := by
  obtain ⟨c, u, rfl, hc⟩ := h
  rw [readValue, if_neg hlimit, skipGap_cons hc.isGap_eq]
  split
  next heq => exact absurd (Point.char.inj (List.cons.inj heq).1) (hc.ne (by decide) rfl)
  next => cases readMembers fuel (limit.map Nat.pred) [] (.char c :: u) <;> rfl

/-- There is fuel for one step at least. -/
theorem Legible.readsBack_of_succ (h : Legible d v) (hread : ∀ k rest, 2 * (print s v).length ≤ k + 1 →
    Follows rest → readValue (k + 1) limit ((print s v).wide ++ rest) = .ok (v, rest)) :
    ReadsBack s limit v := by
  intro fuel rest hfuel hrest
  have hpos := h.length_pos s
  obtain ⟨k, rfl⟩ : ∃ k, fuel = k + 1 := ⟨fuel - 1, by omega⟩
  exact hread k rest hfuel hrest

/-- **A legible value is read back, whatever may follow it.** -/
theorem Legible.readsBack (hs : s.Spaced) (h : Legible d v) (hlimit : Allows limit d) :
    ReadsBack s limit v := by
  induction h generalizing limit with
  | @null d => exact readsBack_of_succ (.null (d := d)) fun _ _ _ _ => rfl
  | @bool d b => exact readsBack_of_succ (.bool (d := d) b) fun _ _ _ _ => by cases b <;> rfl
  | @int d n short =>
    refine readsBack_of_succ (.int (d := d) n short) fun k rest _ hrest => ?_
    obtain ⟨c, cs, heq, hc⟩ := exists_ofInt_cons n
    have hread := readAtom_int short hrest
    show readValue (k + 1) _ ((Text.ofInt n).wide ++ rest) = _
    rw [heq, Text.wide_cons, List.cons_append] at hread ⊢
    rw [readValue_atom hc, hread]
    rfl
  | @str d t unpaired =>
    refine readsBack_of_succ (.str (d := d) unpaired) fun k rest _ _ => ?_
    show (readText (Text.wide (t.flatMap escapedPoint ++ ['"']) ++ rest) >>= _) = _
    rw [Text.wide_append, List.append_assoc]
    show (readText (Text.wide (t.flatMap escapedPoint) ++ .char '"' :: rest) >>= _) = _
    rw [readText_escaped unpaired]
    rfl
  | @arr d items each ih =>
    obtain ⟨hopen, hinside⟩ := hlimit.pred
    refine readsBack_of_succ (.arr each) fun k rest hfuel _ => ?_
    by_cases hne : items = []
    · subst hne
      exact if_neg hopen
    · have hlength : (print s (.arr items)).length = (printItems s items).length + 2 := by simp [print]
      have hitems : readItems k (limit.map Nat.pred) ((printItems s items).wide ++ .char ']' :: rest) =
          .ok (items, rest) :=
        readItems_printItems hs hne each (fun v hv => ih v hv hinside) (by omega) rest
      simp only [print, Text.wide_append, Text.wide_cons, Text.wide_nil, List.append_assoc,
        List.cons_append, List.nil_append]
      rw [readValue_items hopen ((begun_printItems hne each).append _), hitems]
      rfl
  | @obj d members distinct unpaired each ih =>
    obtain ⟨hopen, hinside⟩ := hlimit.pred
    refine readsBack_of_succ (.obj distinct unpaired each) fun k rest hfuel _ => ?_
    by_cases hne : members = []
    · subst hne
      exact if_neg hopen
    · have hlength : (print s (.obj members)).length = (printMembers s members).length + 2 := by
        simp [print]
      have hnames : (([] ++ members : List (Wide × Json)).map Prod.fst).Nodup := distinct
      have hmembers : readMembers k (limit.map Nat.pred) []
          ((printMembers s members).wide ++ .char '\x7d' :: rest) = .ok (members, rest) :=
        readMembers_printMembers hs hne hnames unpaired each (fun m hm => ih m hm hinside) (by omega) rest
      simp only [print, Text.wide_append, Text.wide_cons, Text.wide_nil, List.append_assoc,
        List.cons_append, List.nil_append]
      rw [readValue_members hopen ((begun_printMembers hne).append _), hmembers]
      rfl

/-- **A value that is printed is read back as it is**, by every reader that reads as many levels. -/
theorem read_print (hs : s.Spaced) (h : Legible d v) (hlimit : Allows limit d) :
    read limit (print s v).wide = .ok v := by
  have hback := h.readsBack hs hlimit (2 * (print s v).wide.length + 2) [] (by simp) follows_nil
  have hskip : skipGap (print s v).wide = (print s v).wide := (h.begun s).skipGap_eq (List.forall_mem_nil _)
  obtain ⟨c, u, heq, hc⟩ := h.begun s
  have hmark : c ≠ '\ufeff' := hc.ne (by decide) (by decide)
  rw [List.append_nil] at hback
  have hdocument : readDocument limit (print s v).wide = .ok v := by
    unfold readDocument
    split
    next heq' => exact absurd (Point.char.inj (List.cons.inj (heq.symm.trans heq')).1) hmark
    next =>
      rw [hskip, hback]
      rfl
  rw [read, hdocument]
  rfl

end Graft.Json
