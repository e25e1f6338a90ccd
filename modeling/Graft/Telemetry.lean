import Graft.Json.Printer
import Graft.Registration.Plan

/-
Events on one line each.

  `Telemetry.Payload`     what an event may carry;
  `Telemetry.Event`       a name and named payloads;
  `Telemetry.Event.line`  the event as compact ASCII JSON, with a timestamp.

The timestamp follows the name; a payload called `timestamp` takes its place.
-/
namespace Graft.Telemetry

/-- What an event may carry. -/
inductive Payload where
  | plain (v : Json)
  | path (t : Text)
  | insertion (e : Insertion Point)
  | role (r : Registration.Role)
  | date (year month day : Nat)
  | list (items : List Payload)
  | record (fields : List (Text × Payload))

def Payload.text (t : Wide) : Payload := .plain (.str t)

def Payload.count (n : Nat) : Payload := .plain (.int n)

def insertionJson (e : Insertion Point) : Json :=
  .obj [("position".toList, .int e.position), ("text".toList, .str e.text)]

/-- A day as year, month and day with hyphens. -/
def dateText (year month day : Nat) : Text :=
  Text.padded 4 year ++ '-' :: Text.padded 2 month ++ '-' :: Text.padded 2 day

mutual

def Payload.json : Payload → Json
  | .plain v => v
  | .path t => .str (Path.tidy t)
  | .insertion e => insertionJson e
  | .role r => .str r.name
  | .date year month day => .str (dateText year month day)
  | .list items => .arr (jsonItems items)
  | .record fields => .obj (jsonFields fields)

def jsonItems : List Payload → List Json
  | [] => []
  | p :: ps => p.json :: jsonItems ps

def jsonFields : List (Text × Payload) → List (Wide × Json)
  | [] => []
  | (k, p) :: rest => (k.wide, p.json) :: jsonFields rest

end

/-- A name and named payloads. -/
structure Event where
  name : Text
  fields : List (Text × Payload)

namespace Event

/-- The members of the line of an event. -/
def members (e : Event) (timestamp : Text) : List (Wide × Json) :=
  (jsonFields e.fields).foldl (fun t f => Table.set f.1 f.2 t)
    [("event".toList, .str e.name), ("timestamp".toList, .str timestamp)]

def line (e : Event) (timestamp : Text) : Text :=
  Json.print .compact (.obj (e.members timestamp))

end Event
end Graft.Telemetry
