import Graft.Model.Offline
import Graft.Proofs.Name.Usable
import Graft.Proofs.Response.Sheet

/-
The script in the replies of the model that needs no network.

* `IsComponentName n`, `className n` — the name of a component, and that of its class;
* `IsLiteral t` — a text that stands for itself in paths, in strings and in markers;
* `script n`, `script_eq` — the script of a component, as code with strings in it;
* `exists_bareTokens_script` — **its tokens**: it says that it stands alone, and exports one class;
* `exports_script_iff`, `exported?_script` — that class is the one that tokens export and the one that is found.

Design notes: only the name of the component is not known of the script.  Each of the four strings has it in it,
and so has the name of the class; all else is code that does not depend on it, and is read once and for all.
-/
namespace Graft.Script

/-! ### Scripts that stand alone -/

/-- Whether a script stands alone does not depend on where its tokens are. -/
theorem hasStandalone_bare (ts : List Token) : hasStandalone (ts.map Token.bare) = hasStandalone ts := by
  induction ts with
  | nil => rfl
  | cons t ts ih =>
    rw [List.map_cons, hasStandalone.eq_def, hasStandalone.eq_def (t :: ts)]
    dsimp only
    rw [ih]
    match ts with
    | [] => rfl
    | [_] => rfl
    | _ :: _ :: _ => rfl

/-- What tokens say that follow one another they say among others. -/
theorem hasStandalone_infix {ts us : List Token} (h : ts <:+: us) (hts : hasStandalone ts = true) :
    hasStandalone us = true := by
  obtain ⟨A, B, rfl⟩ := h
  have happend : hasStandalone (ts ++ B) = true := by
    induction ts with
    | nil => cases hts
    | cons t ts ih =>
      rw [hasStandalone.eq_def, Bool.or_eq_true] at hts
      rw [List.cons_append, hasStandalone.eq_def, Bool.or_eq_true]
      refine hts.imp (fun hhere => ?_) ih
      match ts, hhere with
      | _ :: _ :: _, hhere => exact hhere
  rw [List.append_assoc]
  induction A with
  | nil => exact happend
  | cons t A ih =>
    rw [List.cons_append, hasStandalone.eq_def, Bool.or_eq_true]
    exact .inr ih

end Graft.Script

namespace Graft.Offline

open Model Name Registration Response Script

/-! ### Names -/

/-- What the metadata of a payload call the component, with marks in place of surrogates; nothing when they do
not call it. -/
def asked (p : Payload) : Text := ((Table.get? componentKey p.metadata).map Wide.lossy).getD []

theorem kebab_defaultName : kebab defaultName = defaultName := by decide +kernel

/-- A component has the name that is asked for, written with hyphens, or the default name. -/
theorem componentName_eq (p : Payload) :
    componentName p = if kebab (asked p) = [] then defaultName else kebab (asked p) := by
  have hgiven : kebab ((Text.nonEmpty ((Table.get? componentKey p.metadata).map Wide.lossy)).getD
      defaultName) = if asked p = [] then defaultName else kebab (asked p) := by
    rw [asked, Text.nonEmpty]
    cases (Table.get? componentKey p.metadata).map Wide.lossy with
    | none => exact kebab_defaultName
    | some c =>
      cases c with
      | nil => exact kebab_defaultName
      | cons d ds => rfl
  rw [componentName, hgiven]
  by_cases hnone : asked p = []
  · rw [if_pos hnone, hnone]
    rfl
  · rw [if_neg hnone]
    cases kebab (asked p) with
    | nil => rfl
    | cons d ds => rfl

example : componentName ⟨[], [], none, none, [(componentKey, Text.wide "2nd HTMLPage (über)".toList)]⟩ =
    "2nd-html-page-ber".toList := by decide +kernel

/-- The name of a component, as it is written in a reply. -/
structure IsComponentName (n : Text) : Prop where
  kebab : IsKebab n
  nonempty : n ≠ []

theorem isComponentName (p : Payload) : IsComponentName (componentName p) := by
  rw [componentName_eq]
  split
  next =>
    refine ⟨?_, by decide⟩
    rw [← kebab_defaultName]
    exact isKebab_kebab _
  next hne => exact ⟨isKebab_kebab _, hne⟩

/-- A text that stands for itself in a path, in a string and in a marker. -/
def IsLiteral (t : Text) : Prop := ∀ c ∈ t, isEdge c = false ∧ c ≠ '\\'

instance (t : Text) : Decidable (IsLiteral t) := List.decidableBAll _ _

theorem IsLiteral.append {a b : Text} (ha : IsLiteral a) (hb : IsLiteral b) : IsLiteral (a ++ b) :=
  List.forall_mem_append.mpr ⟨ha, hb⟩

theorem IsLiteral.not_space {t : Text} (h : IsLiteral t) : ∀ c ∈ t, isSpace c = false := fun c hc =>
  (isEdge_eq_false (h c hc).1).1

theorem IsLiteral.isSpecifier {t : Text} (h : IsLiteral t) : IsSpecifier t := by
  intro c hc
  have hne {d : Char} (hd : isEdge d = true) : c ≠ d := by
    rintro rfl
    rw [(h c hc).1] at hd
    cases hd
  have hquote : isQuote c = false := by
    rw [isQuote, Bool.or_eq_false_iff, beq_eq_false_iff_ne, beq_eq_false_iff_ne]
    exact ⟨hne (by decide), hne (by decide)⟩
  exact ⟨hquote, (h c hc).2, hne (by decide)⟩

theorem isLiteral_pascal (t : Text) : IsLiteral (pascal t) := fun c hc => by
  have halnum := isAlphanum_of_mem_pascal c hc
  exact forall_alphanum (P := fun c => c.isAlphanum = true → isEdge c = false ∧ c ≠ '\\') (by decide +kernel)
    halnum halnum

/-- The class that the script of a component declares. -/
def className (n : Text) : Text := pascal n ++ componentSuffix

theorem isLiteral_className (n : Text) : IsLiteral (className n) := (isLiteral_pascal n).append (by decide)

theorem isIdentifier_className (n : Text) : IsIdentifier (className n) := isIdentifier_pascal n

namespace IsComponentName

variable {n : Text} (hn : IsComponentName n)
include hn

theorem literal : IsLiteral n :=
  hn.kebab.forall_mem (P := fun c => isEdge c = false ∧ c ≠ '\\') (by decide) (by decide +kernel)

theorem noSlash : '/' ∉ n := fun h =>
  hn.kebab.forall_mem (P := fun c => c ≠ '/') (by decide) (by decide +kernel) _ h rfl

theorem noDot : ∀ c ∈ n, c ≠ '.' :=
  hn.kebab.forall_mem (P := fun c => c ≠ '.') (by decide) (by decide +kernel)

end IsComponentName

/-! ### Code with strings in it -/

/-- Lines of code, put together. -/
def code (ls : List String) : Text := ['\n'].intercalate (ls.map String.toList)

/-- Code with strings in it, each of them in single quotes and with the code behind it. -/
def quoted (c : Text) : List (Text × Text) → Text
  | [] => c
  | (s, d) :: rest => c ++ '\'' :: (s ++ '\'' :: quoted d rest)

/-- Code that leaves nothing open and does not read on into a quote. -/
def BeforeQuote (c : Text) : Prop := Closed c ∧ ∀ p ∈ (pieces c).getLast?, p.reads '\'' = false

instance (c : Text) : Decidable (BeforeQuote c) := inferInstanceAs (Decidable (_ ∧ _))

theorem BeforeQuote.joins {c : Text} (h : BeforeQuote c) (t : Text) : Joins c ('\'' :: t) := fun p hp d hd => by
  rw [← Option.some.inj hd]
  exact h.2 p hp

/-- A string token in single quotes. -/
def stringToken (s : Text) : Token := ⟨.string, 0, '\'' :: (s ++ ['\''])⟩

/-- The tokens of code with strings in it. -/
theorem bareTokens_quoted {c : Text} {rest : List (Text × Text)} (hc : BeforeQuote c)
    (hrest : ∀ r ∈ rest, IsLiteral r.1 ∧ BeforeQuote r.2) : bareTokens (quoted c rest) =
      bareTokens c ++ rest.flatMap fun r => stringToken r.1 :: bareTokens r.2 := by
  induction rest generalizing c with
  | nil => rw [quoted, List.flatMap_nil, List.append_nil]
  | cons r rest ih =>
    obtain ⟨⟨hs, hd⟩, hrest⟩ := List.forall_mem_cons.mp hrest
    have hstring := pieces_string (q := '\'') rfl hs.isSpecifier (quoted r.2 rest)
    rw [quoted, bareTokens_append (pieces_append hc.1 (hc.joins _)), bareTokens_of_token hstring, ih hd hrest]
    rfl

/-- Behind calm code and a string the word that exports stands in what follows. -/
theorem suffix_of_quoted {c s d v : Text} {rest : List (Text × Text)} (hc : Calm c) (hs : IsLiteral s)
    (h : v <:+ quoted c ((s, d) :: rest)) (hv : (Name.afterWord? "export".toList v).isSome) :
    v <:+ quoted d rest := by
  have hquote {t : Text} : isSpace '\'' = true → ¬ "export".toList <:+ t := fun h => absurd h (by decide)
  have hstring := suffix_of_calm hc (by decide) hquote h hv
  exact suffix_of_calm (calm_of_not_space hs.not_space) (by decide) hquote hstring hv

/-! ### The script -/

/-- The lines of the script in a reply. -/
def scriptLines (n : Text) : List Text := ((replyLines n).drop 2).take 11

/-- The script of a component. -/
def script (n : Text) : Text := ['\n'].intercalate (scriptLines n)

/-- The code in front of the first string. -/
def opening : Text :=
  code ["import \x7b Component, Input \x7d from '@angular/core';", "", "@Component(\x7b", "  selector: "]

/-- The code that says that the component stands alone. -/
def standing : Text := code [",", "  standalone: true,", "  templateUrl: "]

/-- The code in front of the style sheet. -/
def styling : Text := code [",", "  styleUrls: ["]

/-- The code in front of the name of the class. -/
def heading : Text := code ["],", "\x7d)", "export class "]

/-- The code behind it. -/
def body : Text := code [" \x7b", "  @Input() title = "]

/-- The code behind the last string. -/
def closing : Text := code [";", "\x7d"]

/-- The code around the name of the class. -/
def declaration (n : Text) : Text := heading ++ (className n ++ body)

/-- The strings with the code behind them. -/
def strings (n : Text) : List (Text × Text) :=
  [("app-".toList ++ n, standing),
    ("./".toList ++ (n ++ ".component.html".toList), styling),
    ("./".toList ++ (n ++ ".component.scss".toList), declaration n),
    (pascal n, closing)]

theorem script_eq (n : Text) : script n = quoted opening (strings n) := by
  have h1 : "  selector: 'app-".toList = "  selector: ".toList ++ '\'' :: "app-".toList := rfl
  have h2 : "',".toList = '\'' :: ",".toList := rfl
  have h3 : "  templateUrl: './".toList = "  templateUrl: ".toList ++ '\'' :: "./".toList := rfl
  have h4 : ".component.html',".toList = ".component.html".toList ++ '\'' :: ",".toList := rfl
  have h5 : "  styleUrls: ['./".toList = "  styleUrls: [".toList ++ '\'' :: "./".toList := rfl
  have h6 : ".component.scss'],".toList = ".component.scss".toList ++ '\'' :: "],".toList := rfl
  have h7 : "Component \x7b".toList = componentSuffix ++ " \x7b".toList := rfl
  have h8 : "  @Input() title = '".toList = "  @Input() title = ".toList ++ ['\''] := rfl
  have h9 : "';".toList = '\'' :: ";".toList := rfl
  simp only [script, scriptLines, replyLines, quoted, opening, strings, standing, styling, declaration, heading,
    body, closing, className, code, List.drop, List.take, List.map, List.intercalate_cons_cons,
    List.intercalate_singleton, h1, h2, h3, h4, h5, h6, h7, h8, h9, List.append_assoc, List.cons_append,
    List.nil_append]
  rfl

/-- What is known of the code that does not depend on the name. -/
theorem code_spec : ∀ c ∈ [opening, standing, styling, closing],
    BeforeQuote c ∧ Calm c ∧ wordToken "export".toList ∉ bareTokens c := by
  decide +kernel

theorem heading_spec : Closed heading ∧ (∀ p ∈ (pieces heading).getLast?, p = .gap [' ']) ∧
    bareTokens heading =
      [']', ',', '\x7d', ')'].map markToken ++ ["export".toList, "class".toList].map wordToken := by
  decide +kernel

theorem body_spec : BeforeQuote body ∧ pieces body ≠ [] ∧ body.head? = some ' ' ∧
    wordToken "export".toList ∉ bareTokens body := by
  decide +kernel

theorem literal_of_mem_strings {n : Text} (hn : IsComponentName n) : ∀ r ∈ strings n, IsLiteral r.1 := by
  have hpath {e : Text} (he : IsLiteral e) : IsLiteral ("./".toList ++ (n ++ e)) :=
    IsLiteral.append (by decide) (hn.literal.append he)
  exact List.forall_mem_cons.mpr ⟨IsLiteral.append (by decide) hn.literal,
    List.forall_mem_cons.mpr ⟨hpath (by decide), List.forall_mem_cons.mpr ⟨hpath (by decide),
      List.forall_mem_singleton.mpr (isLiteral_pascal n)⟩⟩⟩

/-! ### Its tokens -/

/-- The pieces of the code around the name of the class. -/
theorem pieces_declaration (n : Text) :
    pieces (declaration n) = pieces heading ++ pieces (className n ++ body) ∧
      pieces (className n ++ body) = .token .ident (className n) :: pieces body := by
  obtain ⟨hclosed, hlast, -⟩ := heading_spec
  have hjoins : Joins heading (className n ++ body) := fun p hp d hd => by
    rw [hlast p hp]
    rfl
  have hword := isIdentifier_className n
  have hends : ∀ d ∈ body.head?, isIdentChar d = false := fun d hd => by
    obtain rfl : ' ' = d := Option.some.inj (body_spec.2.2.1.symm.trans hd)
    rfl
  exact ⟨pieces_append hclosed hjoins, pieces_word hword.nonempty hword.chars hends⟩

theorem beforeQuote_declaration (n : Text) : BeforeQuote (declaration n) := by
  obtain ⟨happend, hword⟩ := pieces_declaration n
  rw [BeforeQuote, Closed, happend, hword]
  refine ⟨List.forall_mem_append.mpr ⟨heading_spec.1, List.forall_mem_cons.mpr ⟨rfl, body_spec.1.1⟩⟩, ?_⟩
  rw [List.getLast?_append_cons, List.getLast?_cons_of_ne_nil body_spec.2.1]
  exact body_spec.1.2

theorem bareTokens_declaration (n : Text) : bareTokens (declaration n) =
    bareTokens heading ++ wordToken (className n) :: bareTokens body := by
  obtain ⟨happend, hword⟩ := pieces_declaration n
  rw [declaration, bareTokens_append happend, bareTokens_of_token hword]
  rfl

theorem beforeQuote_of_mem_strings {n : Text} : ∀ r ∈ strings n, BeforeQuote r.2 := by
  have hcode (c : Text) (hc : c ∈ [opening, standing, styling, closing]) : BeforeQuote c := (code_spec c hc).1
  exact List.forall_mem_cons.mpr ⟨hcode _ (by simp), List.forall_mem_cons.mpr ⟨hcode _ (by simp),
    List.forall_mem_cons.mpr ⟨beforeQuote_declaration n, List.forall_mem_singleton.mpr (hcode _ (by simp))⟩⟩⟩

section
variable {n : Text} (hn : IsComponentName n)
include hn

/-- **The tokens of the script**: it says that it stands alone, and then exports one class. -/
theorem exists_bareTokens_script : ∃ L R, bareTokens (script n) =
      L ++ wordToken "export".toList :: wordToken "class".toList :: wordToken (className n) :: R ∧
    wordToken "export".toList ∉ L ∧ wordToken "export".toList ∉ R ∧ hasStandalone L = true := by
  have hcode (c : Text) (hc : c ∈ [opening, standing, styling, closing]) :
      wordToken "export".toList ∉ bareTokens c := (code_spec c hc).2.2
  have hstring (s : Text) : wordToken "export".toList ≠ stringToken s := fun h =>
    TokenKind.noConfusion (Token.mk.inj h).1
  rw [script_eq, bareTokens_quoted (code_spec _ (by simp)).1 fun r hr =>
    ⟨literal_of_mem_strings hn r hr, beforeQuote_of_mem_strings r hr⟩]
  refine ⟨bareTokens opening ++ (stringToken ("app-".toList ++ n) :: (bareTokens standing ++
      (stringToken ("./".toList ++ (n ++ ".component.html".toList)) :: (bareTokens styling ++
        (stringToken ("./".toList ++ (n ++ ".component.scss".toList)) :: [']', ',', '\x7d', ')'].map markToken))))),
    bareTokens body ++ stringToken (pascal n) :: bareTokens closing, ?_, ?_, ?_, ?_⟩
  · simp only [strings, List.flatMap_cons, List.flatMap_nil, bareTokens_declaration, heading_spec.2.2,
      List.map_cons, List.map_nil, List.append_assoc, List.cons_append, List.nil_append, List.append_nil]
  · simp only [List.mem_append, List.mem_cons, not_or]
    exact ⟨hcode _ (by simp), hstring _, hcode _ (by simp), hstring _, hcode _ (by simp), hstring _, by decide⟩
  · simp only [List.mem_append, List.mem_cons, not_or]
    exact ⟨body_spec.2.2.2, hstring _, hcode _ (by simp)⟩
  · have hstanding : hasStandalone (bareTokens standing) = true := by decide +kernel
    exact hasStandalone_infix ((List.prefix_append _ _).isInfix.trans
      ((List.suffix_cons _ _).trans (List.suffix_append _ _)).isInfix) hstanding

theorem ofScript_script : Role.ofScript (script n) = .composed := by
  obtain ⟨L, R, htokens, -, -, hL⟩ := exists_bareTokens_script hn
  have hstands : isStandalone (script n) = true := by
    rw [isStandalone, ← hasStandalone_bare]
    exact hasStandalone_infix ⟨[], _, htokens.symm⟩ hL
  rw [Role.ofScript, if_pos hstands]

/-- **The script exports one class.** -/
theorem exports_script_iff {name : Text} : Exports (tokens (script n)) name ↔ name = className n := by
  obtain ⟨L, R, htokens, hL, hR, -⟩ := exists_bareTokens_script hn
  constructor
  · rintro ⟨isDefault, isAbstract, A, B, hts⟩
    have hclass : wordToken "export".toList ≠ wordToken (className n) := fun h => by
      have hlength := congrArg List.length (Token.mk.inj h).2.2
      rw [className, List.length_append] at hlength
      have hsuffix : componentSuffix.length = 9 := rfl
      have hword : "export".toList.length = 6 := rfl
      omega
    have hrest : wordToken "export".toList ∉ wordToken "class".toList :: wordToken (className n) :: R := by
      rw [List.mem_cons, List.mem_cons, not_or, not_or]
      exact ⟨by decide, hclass, hR⟩
    -- The word that exports stands in one place, so the words behind it are the same.
    have hsame := htokens.symm.trans hts.symm
    rw [classHead, List.append_assoc, List.cons_append, List.append_cons_inj_of_notMem hL hrest] at hsame
    obtain ⟨-, -, hwords⟩ := hsame
    cases isDefault with
    | true => exact absurd (List.cons.inj hwords).1 (by decide)
    | false =>
      cases isAbstract with
      | true => exact absurd (List.cons.inj hwords).1 (by decide)
      | false => exact (Token.mk.inj (List.cons.inj (List.cons.inj hwords).2).1).2.2.symm
  · rintro rfl
    exact ⟨false, false, L, R, by rw [List.append_assoc]; exact htokens.symm⟩

end

/-! ### The class that is found in it -/

/-- What is found where a class is exported is its name. -/
theorem eq_of_exportedHere? {w t s : Text} (hw : IsIdentifier w)
    (h : exportedHere? ("export class ".toList ++ (w ++ ' ' :: t)) = some s) : s = w := by
  obtain ⟨rest, c, cs, hexport, hclass, -, rfl⟩ := exportedHere?_eq_some h
  obtain ⟨d, ds, rfl⟩ := List.exists_cons_of_ne_nil hw.nonempty
  have hspace : isSpace d = false := Bool.eq_false_iff.mpr fun h =>
    Bool.false_ne_true ((isIdentChar_of_isSpace h).symm.trans (hw.chars d List.mem_cons_self))
  obtain rfl : rest = "class ".toList ++ ((d :: ds) ++ ' ' :: t) := (Option.some.inj hexport).symm
  have hname : (d :: (ds ++ ' ' :: t)).dropWhile isSpace = c :: cs := Option.some.inj hclass
  rw [List.dropWhile_cons_of_neg (by simp [hspace])] at hname
  obtain ⟨rfl, rfl⟩ := List.cons.inj hname
  have hpart : ∀ e ∈ ds, isClassPart e = true := fun e he => hw.chars e (List.mem_cons_of_mem d he)
  rw [List.takeWhile_append_of_pos hpart, List.takeWhile_cons_of_neg (by decide), List.append_nil]

/-- In the code around the name of the class the word that exports stands at the beginning only. -/
theorem eq_of_suffix_declaration {n v t : Text} (ht : IsLiteral t) (h : v <:+ quoted (declaration n) [(t, closing)])
    (hv : (Name.afterWord? "export".toList v).isSome) :
    v = "export class ".toList ++ (className n ++ quoted body [(t, closing)]) := by
  have hheading : heading = "],\n\x7d)".toList ++ '\n' :: 'e' :: ("xport class".toList ++ [' ']) := rfl
  have hbody : body = ' ' :: body.tail := rfl
  have hlast : ¬ "export".toList <:+ className n := fun h =>
    absurd (List.suffix_of_suffix_length_le h (List.suffix_append (pascal n) componentSuffix) (by decide))
      (by decide)
  rw [quoted, declaration, hheading] at h
  simp only [List.append_assoc, List.cons_append, List.nil_append] at h
  have hbehind := suffix_of_calm (by decide +kernel) (by decide) (fun _ => by decide) h hv
  rcases List.suffix_cons_iff.mp hbehind with rfl | hin
  · rfl
  · -- Farther on, there is nothing but the name, a string and calm code.
    have hname := suffix_of_calm (by decide +kernel) (by decide) (fun _ => by decide) hin hv
    rw [hbody, List.cons_append] at hname
    have hstring := suffix_of_calm (calm_of_not_space (isLiteral_className n).not_space) (by decide) (fun _ => hlast)
      hname hv
    have htail : Calm body.tail := by decide +kernel
    have hclosing : v <:+ quoted closing [] := suffix_of_quoted htail ht hstring hv
    rw [(code_spec closing (by simp)).2.1 v ((List.mem_tails _ _).mpr hclosing)] at hv
    cases hv

/-- **The class that is found in the script is the one that it exports.** -/
theorem exported?_script {n s : Text} (hn : IsComponentName n) (h : exported? (script n) = some s) :
    s = className n := by
  obtain ⟨v, hv, hhere⟩ := exists_suffix_of_exported? h
  obtain ⟨rest, c, cs, hexport, hclass, hstart, rfl⟩ := exportedHere?_eq_some hhere
  have hsome : (Name.afterWord? "export".toList v).isSome := by rw [hexport]; rfl
  have hcalm (c : Text) (hc : c ∈ [opening, standing, styling, closing]) : Calm c := (code_spec c hc).2.1
  obtain ⟨hselector, hliteral⟩ := List.forall_mem_cons.mp (literal_of_mem_strings hn)
  obtain ⟨htemplate, hliteral⟩ := List.forall_mem_cons.mp hliteral
  obtain ⟨hstyle, -⟩ := List.forall_mem_cons.mp hliteral
  rw [script_eq, strings] at hv
  have hstanding := suffix_of_quoted (hcalm opening (by simp)) hselector hv hsome
  have hstyling := suffix_of_quoted (hcalm standing (by simp)) htemplate hstanding hsome
  have hdeclaration := suffix_of_quoted (hcalm styling (by simp)) hstyle hstyling hsome
  obtain rfl := eq_of_suffix_declaration (isLiteral_pascal n) hdeclaration hsome
  exact eq_of_exportedHere? (isIdentifier_className n) (t := quoted body.tail [(pascal n, closing)]) hhere

end Graft.Offline
