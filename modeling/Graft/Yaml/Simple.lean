import Graft.Text.Lines
import Graft.Yaml.Document

/-
A reader of simple documents.

  `Flaw.raised f`    the error that a scalar with a flaw raises;
  `simple n octets`  the value of a simple document that nests up to `n` levels.

Simple documents are written with block and flow collections and with plain and quoted scalars.  This
is one reader among others: it reads them as any reader of YAML does, and takes everything else that
YAML knows for malformed.

Octets that are not UTF-8 are looked at as far as they are read before that shows.
-/
namespace Graft.Yaml

/-- The error that a scalar with a flaw raises.  A code that is no whole number of 32 bits raises one
of its own. -/
def Flaw.raised (f : Flaw) : Raised :=
  match f with
  | .tooManyPlaces => ⟨"OverflowError".toList, f.message⟩
  | .noCharacter code =>
    if code < 0x80000000 then ⟨"ValueError".toList, f.message⟩
    else ⟨"OverflowError".toList, "Python int too large to convert to C int".toList⟩
  | _ => ⟨"ValueError".toList, f.message⟩

/-- What is said about text that is no simple document. -/
def malformedMessage : Text := "malformed YAML".toList

/-- The failure that a problem amounts to. -/
def Problem.failure : Problem → Failure
  | .malformed => .malformed malformedMessage
  | .flaw f => .fault (.raised f.raised)
  | .tooDeep =>
    .fault (.raised ⟨"RecursionError".toList, "maximum recursion depth exceeded".toList⟩)

/-- The value of a simple document. -/
def simple (nesting : Option Nat) : Reader := fun octets =>
  match Utf8.decode octets with
  | .ok t => (Value.ofText nesting (Text.unixNewlines t)).mapError Problem.failure
  | .error f =>
    let (beginning, fault?) := Pieces.beforeFault octets
    match Document.problem? nesting beginning with
    | some p => .error p.failure
    | none => .error (.fault (.undecodable (fault?.getD f)))

end Graft.Yaml
