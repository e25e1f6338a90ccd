import Graft.Proofs.Json.Ascii
import Graft.Proofs.Json.Printed
import Graft.Telemetry

/-
Lines of telemetry, read back.

* `plainAscii_line` — every event is told on one line of printable ASCII;
* `nodup_members` — no name stands twice in a line;
* `Legible.read_line` — **a line is read back as the members of its event**, if the reader can read what
  the event carries.

Design notes: a payload may be called like the name or the timestamp of an event and take their place, so
members are followed through every payload that is put in.
-/
namespace Graft.Telemetry.Event

open Json (PlainAscii Unpaired Allows)

variable {e : Event} {d : Nat} {limit : Option Nat}

/-- **Every event is told on one line of printable ASCII.** -/
theorem plainAscii_line (e : Event) (timestamp : Text) : PlainAscii (e.line timestamp) :=
  Json.plainAscii_print (by decide) (by decide) _

/-- What the reader can read: no payload has a fraction, too many digits, a pair of surrogates, or more than
`d` levels. -/
def Legible (d : Nat) (e : Event) : Prop := ∀ f ∈ jsonFields e.fields, Json.Legible d f.2

@[simp] theorem legible_nil (name : Text) : (Event.mk name []).Legible d := List.forall_mem_nil _

@[simp] theorem legible_cons {name : Text} {f : Text × Payload} {fields : List (Text × Payload)} :
    (Event.mk name (f :: fields)).Legible d ↔
      Json.Legible d f.2.json ∧ (Event.mk name fields).Legible d :=
  List.forall_mem_cons

theorem legible_text {t : Wide} (h : Unpaired t) : Json.Legible d (Payload.text t).json := by
  rw [Payload.text, Payload.json]
  exact .str h

/-- No name stands twice in a line. -/
theorem nodup_members (e : Event) (timestamp : Text) : ((e.members timestamp).map Prod.fst).Nodup := by
  have hfirst : [Text.wide "event".toList, Text.wide "timestamp".toList].Nodup := by decide
  exact List.foldlRecOn (motive := fun t : List (Wide × Json) => (t.map Prod.fst).Nodup) _ _ hfirst
    fun t ht f _ => Table.nodup_set ht f.1 f.2

theorem unpaired_of_mem_jsonFields {fields : List (Text × Payload)} {f : Wide × Json}
    (h : f ∈ jsonFields fields) : Unpaired f.1 := by
  induction fields with
  | nil => cases h
  | cons field rest ih =>
    obtain ⟨key, p⟩ := field
    rcases List.mem_cons.mp h with rfl | h
    · exact Json.unpaired_wide key
    · exact ih h

/-- What a line holds, apart from its name and its timestamp, is carried by its event. -/
theorem Legible.members (h : e.Legible d) (timestamp : Text) :
    ∀ m ∈ e.members timestamp, Unpaired m.1 ∧ Json.Legible d m.2 := by
  refine List.foldlRecOn (motive := fun t : List (Wide × Json) =>
    ∀ m ∈ t, Unpaired m.1 ∧ Json.Legible d m.2) _ _ (fun m hm => ?_) fun t ht f hf m hm => ?_
  · simp only [List.mem_cons, List.not_mem_nil, or_false] at hm
    rcases hm with rfl | rfl
    · exact ⟨Json.unpaired_wide _, .str (Json.unpaired_wide _)⟩
    · exact ⟨Json.unpaired_wide _, .str (Json.unpaired_wide _)⟩
  · rcases Table.eq_or_mem_of_mem_set hm with rfl | hm
    · exact ⟨unpaired_of_mem_jsonFields hf, h f hf⟩
    · exact ht m hm

/-- **A line is read back as the members of its event**, by every reader that reads as many levels. -/
theorem Legible.read_line (h : e.Legible d) (hlimit : Allows limit (d + 1)) (timestamp : Text) :
    Json.read limit (e.line timestamp).wide = .ok (.obj (e.members timestamp)) :=
  Json.read_print Json.spaced_compact (.obj (nodup_members e timestamp)
    (fun m hm => (h.members timestamp m hm).1) fun m hm => (h.members timestamp m hm).2) hlimit

end Graft.Telemetry.Event
