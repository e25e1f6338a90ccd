import Graft.Fault
import Graft.Json.Basic
import Graft.Moment

/-
What YAML text stands for.

  `Value`              the value of a document;
  `Value.under? k es`  the value under a key;
  `Failure`            why octets are no document;
  `Reader`             a reader of documents.

The last of equal keys counts.  How octets are read is left open: a reader may be any function of
them.
-/
namespace Graft.Yaml

/-- The value of a document. -/
inductive Value where
  | null
  | bool (b : Bool)
  | num (n : Number)
  | text (t : Wide)
  | bytes (octets : ByteArray)
  | time (m : Moment)
  -- A list, or a collection that is no mapping.
  | list (items : List Value)
  | mapping (entries : List (Value × Value))

/-- Why octets are no document. -/
inductive Failure where
  | malformed (message : Text)
  -- An error of another kind.
  | fault (f : Fault)

/-- A reader of documents. -/
abbrev Reader := ByteArray → Except Failure Value

namespace Value

/-- The value under a key that is a text. -/
def under? (key : Text) (entries : List (Value × Value)) : Option Value :=
  (entries.reverse.find? fun e =>
    match e.1 with
    | .text t => t == key.wide
    | _ => false).map Prod.snd

end Value
end Graft.Yaml
