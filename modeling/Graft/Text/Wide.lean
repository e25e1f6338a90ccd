import Graft.Text.Space

/-
Wide texts: sequences of code points, surrogates included.

An escape in a JSON string may stand for a surrogate that belongs to no pair.  Such a code point is
no character, and a text that holds one has no octets.  In names a low surrogate may stand for an octet
that belongs to no character; any other surrogate has no place there.

  `Wide`              a list of code points;
  `Text.wide t`       a text as one of these;
  `Wide.after? w t`   what follows the text `w` when `t` starts with it;
  `Wide.lossy t`      a text with marks in place of surrogates;
  `Wide.toText t`     the text that a wide one is, or the surrogates that keep it from being one;
  `Wide.strays? t`    the surrogates that keep it from being a name;
  `Unencodable`       where these stand, and the wording.
-/
namespace Graft

/-- A code point. -/
inductive Point where
  | char (c : Char)
  -- A surrogate, counted from the first one.
  | surrogate (n : Fin 0x800)
  deriving DecidableEq, Repr

/-- A wide text is its list of code points. -/
abbrev Wide := List Point

/-- A text as a wide one. -/
def Text.wide (t : Text) : Wide := t.map Point.char

instance : Coe Text Wide := ⟨Text.wide⟩

namespace Point

def toNat : Point → Nat
  | char c => c.toNat
  | surrogate n => 0xD800 + n

/-- The character that a code point is, unless it is a surrogate. -/
def char? : Point → Option Char
  | char c => some c
  | surrogate _ => none

/-- Whether a code point is a character that satisfies `f`. -/
def meets (f : Char → Bool) : Point → Bool
  | char c => f c
  | surrogate _ => false

/-- The code point of a unit that belongs to no pair. -/
def ofUnit (n : Nat) : Point :=
  if 0xD800 ≤ n && n < 0xE000 then surrogate (Fin.ofNat 0x800 (n - 0xD800)) else char (Char.ofNat n)

/-- Whether a code point is a surrogate that a low one may follow as its partner. -/
def isHigh : Point → Bool
  | char _ => false
  | surrogate n => n < 0x400

/-- Whether a code point is a surrogate that may follow a high one as its partner. -/
def isLow : Point → Bool
  | char _ => false
  | surrogate n => 0x400 ≤ n.val

/-- Whether a code point is a surrogate that stands for no octet of a name. -/
def isStray : Point → Bool
  | char _ => false
  | surrogate n => n.val < 0x480 || 0x500 ≤ n.val

/-- A character in the place of a code point: a mark for a surrogate. -/
def mark : Point → Char
  | char c => c
  | surrogate _ => '\ufffd'

end Point

namespace Wide

/-- What follows a text, when the wide one starts with it. -/
def after? : Text → Wide → Option Wide
  | [], t => some t
  | a :: as, .char c :: ps => if a = c then after? as ps else none
  | _, _ => none

/-- Whether a wide text holds nothing but white space. -/
def isBlank (t : Wide) : Bool :=
  t.all fun p =>
    match p with
    | .char c => isSpace c
    | .surrogate _ => false

/-- A text with three marks in place of each surrogate, one for every octet that it would take. -/
def lossy (t : Wide) : Text :=
  t.flatMap fun p =>
    match p with
    | .char c => [c]
    | .surrogate _ => List.replicate 3 '\ufffd'

/-- Orders wide texts by the code points of their first difference. -/
def precedes : Wide → Wide → Bool
  | _, [] => false
  | [], _ :: _ => true
  | a :: as, b :: bs => if a = b then precedes as bs else a.toNat < b.toNat

/-- The characters up to the first surrogate. -/
def beginning : Wide → Text
  | .char c :: ps => c :: beginning ps
  | _ => []

/-- The surrogates that a wide text begins with. -/
def surrogates : Wide → List (Fin 0x800)
  | .surrogate n :: ps => n :: surrogates ps
  | _ => []

end Wide

/-- The first surrogates of a wide text that is to be encoded. -/
structure Unencodable where
  -- The offset of the first of them.
  start : Nat
  first : Fin 0x800
  -- How many follow it.
  more : Nat := 0
  deriving DecidableEq, Repr

def Unencodable.message (u : Unencodable) : Text :=
  let place :=
    if u.more = 0 then
      "character '\\u".toList ++ Text.hex 4 (0xD800 + u.first) ++ "' in position ".toList ++
        Text.decimal u.start
    else
      "characters in position ".toList ++ Text.decimal u.start ++ ['-'] ++
        Text.decimal (u.start + u.more)
  "'utf-8' codec can't encode ".toList ++ place ++ ": surrogates not allowed".toList

/-- The text that a wide one is, or its first surrogates. -/
def Wide.toText (t : Wide) : Except Unencodable Text :=
  let before := t.beginning
  match Wide.surrogates (t.drop before.length) with
  | [] => .ok before
  | n :: ns => .error ⟨before.length, n, ns.length⟩

/-- The first surrogates of a wide text that keep it from being a name, with those that follow. -/
def Wide.strays? (t : Wide) : Option Unencodable :=
  let before := t.takeWhile fun p => !p.isStray
  match Wide.surrogates (t.drop before.length) with
  | [] => none
  | n :: ns => some ⟨before.length, n, ns.length⟩

namespace Text

@[simp] theorem wide_nil : wide [] = [] := rfl

@[simp] theorem wide_cons (c : Char) (t : Text) : wide (c :: t) = .char c :: wide t := rfl

@[simp] theorem wide_append (t u : Text) : wide (t ++ u) = wide t ++ wide u := List.map_append

@[simp] theorem length_wide (t : Text) : (wide t).length = t.length := List.length_map _

theorem wide_inj {t u : Text} : wide t = wide u ↔ t = u :=
  List.map_inj_right fun _ _ => Point.char.inj

@[simp] theorem isBlank_wide (t : Text) : (wide t).isBlank = isBlank t := by
  rw [Wide.isBlank, wide, List.all_map]
  rfl

@[simp] theorem lossy_wide (t : Text) : (wide t).lossy = t := by
  induction t with
  | nil => rfl
  | cons c cs ih => exact congrArg (c :: ·) ih

end Text

/-- A wide text is a text exactly when it is that text, seen as a wide one. -/
theorem Wide.toText_eq_ok_iff {w : Wide} {t : Text} : w.toText = .ok t ↔ w = t.wide := by
  induction w generalizing t with
  | nil => cases t <;> simp [toText, beginning, surrogates]
  | cons p ps ih =>
    cases p with
    | surrogate n => cases t <;> simp [toText, beginning, surrogates]
    | char c =>
      have hrest : toText (.char c :: ps) = .ok t ↔ ∃ u, toText ps = .ok u ∧ c :: u = t := by
        simp only [toText, beginning, List.length_cons, List.drop_succ_cons]
        split <;> simp
      rw [hrest]
      cases t with
      | nil => simp
      | cons d ds =>
        simp only [ih, Text.wide_cons, List.cons.injEq, Point.char.injEq]
        exact ⟨fun ⟨u, hu, hc, hd⟩ => ⟨hc, hd ▸ hu⟩, fun ⟨hc, hd⟩ => ⟨ds, hd, hc, rfl⟩⟩

@[simp] theorem Text.toText_wide (t : Text) : t.wide.toText = .ok t := Wide.toText_eq_ok_iff.mpr rfl

/-- No surrogate keeps a text from being a name. -/
@[simp] theorem Text.strays?_wide (t : Text) : t.wide.strays? = none := by
  have hall : t.wide.takeWhile (fun p => !p.isStray) = t.wide := by
    induction t with
    | nil => rfl
    | cons c cs ih => exact congrArg (Point.char c :: ·) ih
  rw [Wide.strays?, hall, List.drop_length]
  rfl

end Graft
