import Graft.Fault
import Graft.Model.Gemini
import Graft.Name
import Graft.Prompt
import Graft.Shape.Scalar
import Graft.Yaml.Value

/-
Settings.

  `Settings`             the settings, by section, with their defaults;
  `Settings.ofValue`     the settings in a value, or every mistake in it;
  `Settings.ofOctets`    the settings in octets, for a reader of documents;
  `Settings.read`        the settings in a file;
  `Settings.Problem`     why there are none.

Every section and every setting may be left out, and what is not known is passed over.  How documents
are read is left open.
-/
namespace Graft

/-- The settings of the model. -/
structure ModelSettings where
  model : Text := "gemini-1.5-flash".toList
  apiKey : Option Text := none
  baseUrl : Option Text := none
  -- How many seconds to wait for a response.
  timeout : Float := 60
  maxAttempts : Int := 3
  -- How many seconds to pause between attempts.
  retryDelay : Float := 0.5

/-- The settings of generation. -/
structure GenerationSettings where
  framework : Text := Prompt.defaultFramework

/-- The settings of integration. -/
structure IntegrationSettings where
  -- Whether the root template is to show the component.
  usageMarker : Bool := false
  tagPrefix : Text := Name.defaultPrefix

/-- The settings. -/
structure Settings where
  models : ModelSettings := {}
  generation : GenerationSettings := {}
  integration : IntegrationSettings := {}

namespace Settings

open Yaml Shape

def ensuring {α : Type} (e : Expectation) (p : α → Bool) (r : Checked α) : Checked α :=
  r.bind fun a => if p a then .ok a else mistake e

def positiveOf (v : Value) : Checked Float := ensuring .above (fun f => 0 < f) (numberOf v)

def notNegativeOf (v : Value) : Checked Float :=
  ensuring .notBelow (fun f => 0 ≤ f) (numberOf v)

def atLeastOneOf (v : Value) : Checked Int := ensuring .notBelow (fun n => 1 ≤ n) (wholeOf v)

/-- The setting under a key, or its default. -/
def setting {α : Type} (entries : List (Value × Value)) (key : String) (default : α)
    (read : Value → Checked α) : Checked α :=
  match Value.under? key.toList entries with
  | none => .ok default
  | some v => under key.toList (read v)

/-- The settings of the model in a value. -/
def modelsOf : Value → Checked ModelSettings
  | .mapping es =>
    let d : ModelSettings := {}
    let r := (setting es "default" d.model textOf).map ModelSettings.mk
    let r := apply r (setting es "api_key" d.apiKey textOrNullOf)
    let r := apply r (setting es "base_url" d.baseUrl textOrNullOf)
    let r := apply r (setting es "timeout" d.timeout positiveOf)
    let r := apply r (setting es "max_attempts" d.maxAttempts atLeastOneOf)
    apply r (setting es "retry_delay" d.retryDelay notNegativeOf)
  | _ => mistake .record

/-- The settings of generation in a value. -/
def generationOf : Value → Checked GenerationSettings
  | .mapping es =>
    let d : GenerationSettings := {}
    (setting es "css_framework" d.framework textOf).map GenerationSettings.mk
  | _ => mistake .record

/-- The settings of integration in a value. -/
def integrationOf : Value → Checked IntegrationSettings
  | .mapping es =>
    let d : IntegrationSettings := {}
    apply ((setting es "usage_marker" d.usageMarker truthOf).map IntegrationSettings.mk)
      (setting es "selector_prefix" d.tagPrefix textOf)
  | _ => mistake .record

/-- The settings in the entries of a mapping. -/
def ofEntries (es : List (Value × Value)) : Checked Settings :=
  let r := (setting es "models" {} modelsOf).map Settings.mk
  let r := apply r (setting es "generation" {} generationOf)
  apply r (setting es "integration" {} integrationOf)

/-- Why there are no settings. -/
inductive Problem where
  -- A file is no document, for the reason that its reader gives.
  | malformed (path message : Text)
  | notMapping
  | misshapen (mistakes : List Mistake)
  deriving DecidableEq, Repr

def Problem.message : Problem → Text
  | .malformed path message => "Failed to parse config ".toList ++ path ++ ": ".toList ++ message
  | .notMapping => "Configuration must be a mapping at the top level.".toList
  | .misshapen ms =>
    "Invalid configuration: ".toList ++ summary "PrototyperConfig".toList ms

/-- A problem, or a fault. -/
inductive Error where
  | problem (p : Problem)
  | fault (f : Fault)
  deriving DecidableEq, Repr

def ofValue : Value → Except Problem Settings
  | .null => .ok {}
  | .mapping es => (ofEntries es).mapError .misshapen
  | _ => .error .notMapping

/-- The settings in the octets of a file that was found under a path. -/
def ofOctets (yaml : Yaml.Reader) (path : Text) (octets : ByteArray) : Except Error Settings :=
  match yaml octets with
  | .error (.malformed message) => .error (.problem (.malformed path message))
  | .error (.fault f) => .error (.fault f)
  | .ok v => (ofValue v).mapError .problem

/-- The settings in the file at a path, seen from a directory; the defaults when there is none. -/
def read (yaml : Yaml.Reader) (limits : Limits) (disk : Tree) (directory : Location)
    (path : Text) : Except Error Settings :=
  let path := Path.tidy path
  if path.contains '\x00' then .ok {}
  else
    match disk.lookUp limits directory path with
    | .ok octets => ofOctets yaml path octets
    | .error .missing | .error .notDirectory | .error .occupied => .ok {}
    | .error o => .error (.fault (.barred ⟨o, path⟩))

end Settings
end Graft
