import Graft.Script.Bracket

/-
The static imports of a script.

  `Import`             one statement: its span, the names it binds, its module and its quote;
  `imports ts`         the statements outside of brackets, in order.

A statement begins with the identifier `import`, unless `(` or `.` follows, and ends with a string,
and a semicolon after it.  Before the string stand names, stars, commas and braced lists; an entry
of a list binds its last identifier.  The words `from`, `type` and `as` bind nothing, and in a list
the word `type` does not.  Anything else ends the attempt, and reading goes on there.
-/
namespace Graft.Script

/-- A static import statement. -/
structure Import where
  start : Nat
  stop : Nat
  -- The names it binds, in order of appearance.
  names : List Text
  module : Text
  quote : Char
  deriving DecidableEq, Repr

/-- The words that bind nothing outside of lists. -/
def clauseWords : List Text := ["from".toList, "type".toList, "as".toList]

/-- The name that an entry of a braced list binds. -/
def entryName? (entry : List Token) : Option Text :=
  ((entry.filter fun t => t.kind == .ident && t.text != "type".toList).map Token.text).getLast?

/-- The names that a braced list binds. -/
def listedNames (inside : List Token) : List Text := (entries inside).filterMap entryName?

/-- The names with that of an identifier outside of lists. -/
def bindName (names : List Text) (name : Text) : List Text :=
  if clauseWords.contains name then names else names ++ [name]

/-- The end of a statement whose specifier is `t`: its own end, or that of a semicolon after it. -/
def closeImport (start : Nat) (names : List Text) (t : Token) (ts : List Token) :
    Import × List Token :=
  let made (stop : Nat) : Import := ⟨start, stop, names, t.unquoted, t.text.headD '\''⟩
  match ts with
  | s :: rest => if s.isMark ';' then (made s.stop, rest) else (made t.stop, ts)
  | [] => (made t.stop, [])

theorem closeImport_length (start : Nat) (names : List Text) (t : Token) (ts : List Token) :
    (closeImport start names t ts).2.length ≤ ts.length := by
  unfold closeImport
  cases ts with
  | nil => simp
  | cons s rest => dsimp only; split <;> simp

/-- The statement whose word `import` has been passed, if it is one, and what is left. -/
def readImport (start : Nat) (names : List Text) : List Token → Option Import × List Token
  | [] => (none, [])
  | t :: ts =>
    match t.kind with
    | .string => (some (closeImport start names t ts).1, (closeImport start names t ts).2)
    | .ident => readImport start (bindName names t.text) ts
    | .template => (none, t :: ts)
    | .punct =>
      if t.isMark '{' then
        match _h : enclosed? (t :: ts) with
        | none => (none, ts)
        | some g => readImport start (names ++ listedNames g.inside) g.after
      else if t.isMark '*' || t.isMark ',' then readImport start names ts
      else (none, t :: ts)
termination_by ts => ts.length
decreasing_by
  · simp
  · have := enclosed?_length _h; simp; omega
  · simp

theorem readImport_length (start : Nat) (names : List Text) (ts : List Token) :
    (readImport start names ts).2.length ≤ ts.length := by
  fun_induction readImport start names ts with
  | case1 => simp
  | case2 names t ts hk =>
    have := closeImport_length start names t ts
    simp only [List.length_cons]
    omega
  | case3 names t ts hk ih => simp only [List.length_cons]; omega
  | case4 => simp
  | case5 => simp
  | case6 names t ts hk hm g h ih =>
    have := enclosed?_length h
    simp only [List.length_cons]
    omega
  | case7 names t ts hk hm hs ih => simp only [List.length_cons]; omega
  | case8 => simp

/-- The statements among tokens, of which `depth` brackets are still open. -/
def importsFrom (depth : Nat) : List Token → List Import
  | [] => []
  | t :: ts =>
    if t.opens then importsFrom (depth + 1) ts
    else if t.closes then importsFrom (depth - 1) ts
    else if depth = 0 && t.isWord "import".toList then
      match ts with
      | [] => []
      | f :: rest =>
        if f.isMark '(' || f.isMark '.' then importsFrom depth (f :: rest)
        else
          let r := readImport t.start [] (f :: rest)
          r.1.toList ++ importsFrom depth r.2
    else importsFrom depth ts
termination_by ts => ts.length
decreasing_by
  all_goals simp only [List.length_cons]
  · omega
  · omega
  · omega
  · have := readImport_length t.start [] (f :: rest); simp only [List.length_cons] at this; omega
  · omega

/-- The static imports among the tokens of a script. -/
def imports (ts : List Token) : List Import := importsFrom 0 ts

end Graft.Script
