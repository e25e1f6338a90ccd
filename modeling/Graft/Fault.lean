import Graft.Disk.Refusal
import Graft.Json.Reader
import Graft.Text.Utf8
import Graft.Text.Wide

/-
Faults: errors that no part of the library answers for.

A fault ends the operation in which it arises and reaches the caller as it is.

  `Raised`          an error that others define, by its kind and its wording;
  `Fault`           the causes;
  `Fault.message`   their wording.
-/
namespace Graft

/-- An error of a kind that others define. -/
structure Raised where
  kind : Text
  message : Text
  deriving DecidableEq, Repr

/-- An error that ends an operation without a report. -/
inductive Fault where
  | nul
  -- A path that is to be led to is empty.
  | emptyPath
  -- A JSON text goes beyond a limit of the reader.
  | json (e : Json.ReadError)
  | unimplemented (message : Text)
  | undecodable (f : Utf8.Fault)
  -- What is to be written, printed or looked up holds a surrogate.
  | unencodable (u : Unencodable)
  -- A place cannot be looked up, or not be opened.
  | barred (r : Refusal)
  | raised (e : Raised)
  -- What comes of a text with surrogates is not told here.
  | untold (t : Wide)
  deriving DecidableEq, Repr

def Fault.message : Fault → Text
  | nul => "embedded null byte".toList
  | emptyPath => "no path specified".toList
  | json e => e.message
  | unimplemented t => t
  | undecodable f => f.message
  | unencodable u => u.message
  | barred r => r.message
  | raised e => e.message
  | untold t => "no text: ".toList ++ t.lossy

end Graft
