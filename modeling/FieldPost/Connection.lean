/-!
Connections and the setting that says over which of them instances may be sent without
the user asking. Without a connection nothing is ever allowed.
-/

namespace FieldPost

inductive Connection
  | wifi
  | cellular
deriving DecidableEq, Repr

inductive SendMode
  | off
  | wifiOnly
  | cellularOnly
  | wifiAndCellular
deriving DecidableEq, Repr

namespace SendMode

def all : List SendMode := [.off, .wifiOnly, .cellularOnly, .wifiAndCellular]

def text : SendMode → String
  | .off => "off"
  | .wifiOnly => "wifi_only"
  | .cellularOnly => "cellular_only"
  | .wifiAndCellular => "wifi_and_cellular"

def ofText? (name : String) : Option SendMode := all.find? fun mode => mode.text == name

theorem ofText?_text (mode : SendMode) : ofText? mode.text = some mode := by
  cases mode <;> rfl

def allows : SendMode → Option Connection → Bool
  | .wifiOnly, some .wifi => true
  | .cellularOnly, some .cellular => true
  | .wifiAndCellular, some _ => true
  | _, _ => false

end SendMode

end FieldPost
