import TurnRelay.Json.Body

/-!
# Markers

A marker is an instruction to the user interface that stands inside an assistant's text: to show a
dashboard for an intent, or to render a named component with properties. In the text it is written
between brackets, a literal in front and a JSON body behind:

    [DASHBOARD:{"intent":"contacts"}]     [RENDER:chart:{"x":[1,2]}]

## Main definitions

* `Marker`: the markers.
* `Marker.dashboardBody?`, `Marker.renderBody?`: the marker that a body denotes.
* `Marker.encode`, `Marker.decode`: a marker as a JSON object with its kind under `type`.
-/

namespace TurnRelay

/-- An instruction to the user interface inside a text. -/
inductive Marker where
  /-- Show a dashboard for an intent. -/
  | dashboard (intent : String) (data : Option Json)
  /-- Render a component with properties. -/
  | render (component : String) (props : Json)
  deriving DecidableEq, Repr

namespace Marker

/-- The two kinds of markers. -/
inductive Kind where
  /-- Of `[DASHBOARD:`. -/
  | dashboard
  /-- Of `[RENDER:`. -/
  | render
  deriving DecidableEq, Repr

/-- The name of a kind. -/
def Kind.name : Kind → String
  | .dashboard => "dashboard"
  | .render => "render"

/-- The characters that open a marker of a kind. -/
def Kind.literal : Kind → List Char
  | .dashboard => "[DASHBOARD:".toList
  | .render => "[RENDER:".toList

/-- The kind of a marker. -/
def kind : Marker → Kind
  | .dashboard _ _ => .dashboard
  | .render _ _ => .render

/-! ### Bodies -/

/-- The fields of a dashboard's body. -/
def dashboardRecord : Record Marker :=
  ((Record.unit Marker.dashboard).field (.required "intent" .string)).field (.optional "data" .any)

/-- A dashboard's data may be any value. -/
def dashboardShape (name : String) : Shape := if name = "data" then .any else .plain

/-- The dashboard that a body denotes. -/
def dashboardBody? (body : List Char) : Option Marker :=
  match dashboardRecord.parse dashboardShape body with
  | .ok m => some m
  | .error _ => none

/-- The component's rendering that a name and a body denote. -/
def renderBody? (component : List Char) (body : List Char) : Option Marker :=
  (Json.parse? body).map (.render (String.ofList component))

/-! ### As JSON -/

/-- The members of a marker other than its type. -/
def payload : Marker → Json.Members
  | .dashboard intent data => ("intent", .string intent) :: Json.member? "data" id data
  | .render component props => [("component", .string component), ("props", props)]

/-- A marker as a JSON object. -/
def encode (m : Marker) : Json := .ofMembers (("type", .string m.kind.name) :: m.payload)

/-- The fields of a rendering. -/
def renderRecord : Record Marker :=
  ((Record.unit Marker.render).field (.required "component" .string)).field (.required "props" .any)

/-- The fields of a kind of marker. -/
def Kind.record : Kind → Record Marker
  | .dashboard => dashboardRecord
  | .render => renderRecord

/-- What messages call the structure of a kind. -/
def Kind.structName : Kind → String
  | .dashboard => "struct variant Marker::Dashboard"
  | .render => "struct variant Marker::Render"

/-- Reads the kind of a marker. -/
def decodeKind : Decoder Kind
  | .string s =>
    if s = "dashboard" then .ok .dashboard
    else if s = "render" then .ok .render
    else .error (.unknownVariant s ["dashboard", "render"])
  | v => .error (.invalidType v.found "variant identifier")

/-- Reads a marker: its kind first, then the fields of that kind. Written as an array, its kind is the
first item and the fields follow. -/
def decode : Decoder Marker
  | .object ms =>
    match Json.find? "type" ms with
    | none => .error (.missingField "type")
    | some tag => do
      let k ← decodeKind tag
      k.record.fromMembers (ms.filter fun m => m.1 ≠ "type")
  | .array [] => .error (.missingField "type")
  | .array (tag :: items) => do
    let k ← decodeKind tag
    let (m, rest) ← k.record.ofItems 0 (k.record.sized k.structName) items
    match rest with
    | [] => return m
    | _ :: _ =>
      .error (.invalidLength items.length s!"{k.record.names.length} elements in sequence")
  | v => .error (.invalidType v.found "internally tagged enum Marker")

end Marker

end TurnRelay
