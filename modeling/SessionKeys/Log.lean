import SessionKeys.JsonForm

/-!
Events as they are logged: on one line, the kind of the event and its parts in order. A text stands
as it is, and anything else as JSON.
-/

namespace SessionKeys.Event

/-- A part as it is logged. -/
def partText : Json → String
  | .string s => s
  | other => other.compact

/-- An event as it is logged. -/
def line (e : Event) : String :=
  let parts := (JsonForm.eventParts e).map fun (name, value) => name ++ "=" ++ partText value
  s!"[sessionguard] {e.kind} " ++ " ".intercalate parts

end SessionKeys.Event
