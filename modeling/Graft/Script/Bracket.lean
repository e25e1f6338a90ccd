import Graft.Script.Token

/-
Bracketed groups of tokens and the entries of lists.

  `enclosed? ts`   for tokens that start with an opening bracket: what stands inside, the bracket
                   that closes it, and what follows;
  `entries ts`     the tokens between commas outside of brackets, empty entries left out.

Brackets of the three shapes must be properly nested inside a group; a wrong or missing bracket
means that there is no group.
-/
namespace Graft.Script

/-- What stands inside a group, the bracket that closes it, and what follows. -/
structure Group where
  inside : List Token
  closing : Token
  after : List Token
  deriving Repr

/-- Adds a token in front of what stands inside. -/
def Group.cons (t : Token) (g : Group) : Group := { g with inside := t :: g.inside }

/-- The group that ends where every bracket still open, innermost first, is closed. -/
def enclosedBy : List Char → List Token → Option Group
  | _, [] => none
  | stack, t :: ts =>
    match t.closer? with
    | some c => (enclosedBy (c :: stack) ts).map (Group.cons t)
    | none =>
      if t.closes then
        match stack with
        | [] => none
        | [c] => if t.isMark c then some ⟨[], t, ts⟩ else none
        | c :: d :: stack =>
          if t.isMark c then (enclosedBy (d :: stack) ts).map (Group.cons t) else none
      else (enclosedBy stack ts).map (Group.cons t)

/-- The group that the first token opens. -/
def enclosed? : List Token → Option Group
  | [] => none
  | t :: ts => t.closer?.bind fun c => enclosedBy [c] ts

theorem enclosedBy_length (stack : List Char) (ts : List Token) :
    ∀ g, enclosedBy stack ts = some g → g.after.length < ts.length := by
  have step {t : Token} {ts : List Token} {o : Option Group}
      (ih : ∀ g, o = some g → g.after.length < ts.length) :
      ∀ g, o.map (Group.cons t) = some g → g.after.length < (t :: ts).length := by
    intro g h
    obtain ⟨g', hg, rfl⟩ := Option.map_eq_some_iff.1 h
    exact Nat.lt_succ_of_lt (ih g' hg)
  fun_induction enclosedBy stack ts with
  | case1 => simp
  | case2 stack t ts c hc ih => exact step ih
  | case3 => simp
  | case4 => simp
  | case5 => simp
  | case6 t ts hc hcl c d stack hm ih => exact step ih
  | case7 => simp
  | case8 stack t ts hc hcl ih => exact step ih

theorem enclosed?_length {t : Token} {ts : List Token} {g : Group}
    (h : enclosed? (t :: ts) = some g) : g.after.length < ts.length := by
  obtain ⟨c, -, hg⟩ := Option.bind_eq_some_iff.1 h
  exact enclosedBy_length _ _ g hg

/-- The tokens up to the first comma outside of brackets, and those of each later part; `depth`
counts the brackets that are open. -/
def commaParts : Int → List Token → List Token × List (List Token)
  | _, [] => ([], [])
  | depth, t :: ts =>
    if depth = 0 && t.isMark ',' then
      let r := commaParts depth ts
      ([], r.1 :: r.2)
    else
      let depth := if t.opens then depth + 1 else if t.closes then depth - 1 else depth
      let r := commaParts depth ts
      (t :: r.1, r.2)

/-- The entries of a list, from the tokens between its brackets. -/
def entries (ts : List Token) : List (List Token) :=
  ((commaParts 0 ts).1 :: (commaParts 0 ts).2).filter fun e => !e.isEmpty

end Graft.Script
