import BlockSketch.Block.Registry
import BlockSketch.Component.Selection

/-!
# The palette

What the editor offers for placing: categories of block types, some with preset field values. Only
allowed types are offered.
-/

namespace BlockSketch

structure PaletteEntry where
  type : Value
  fields : Assoc Value := []

structure PaletteCategory where
  name : String
  colour : String
  /-- The name of a category that the editing surface fills in itself. -/
  custom : Option String := none
  entries : List PaletteEntry := []

def PaletteEntry.toValue (entry : PaletteEntry) : Value :=
  .object (("type", entry.type) ::
    if entry.fields.isEmpty then [] else [("fields", .object entry.fields)])

def PaletteCategory.toValue (category : PaletteCategory) : Value :=
  .object ([("name", .text category.name), ("colour", .text category.colour),
    ("blocks", .list (category.entries.map PaletteEntry.toValue))] ++
    (category.custom.map fun custom => ("custom", Value.text custom)).toList)

namespace Palette

structure Section where
  name : String
  colour : String
  types : List String

def basics : Section :=
  ⟨"Arduino Basics", "#3b82f6",
    [entryType, "arduino_delay", "arduino_serial_begin", "arduino_serial_print"]⟩

def sections : List Section := [
  ⟨"Digital I/O", "#10b981",
    ["arduino_pin_mode", "arduino_digital_write", "arduino_digital_read", "arduino_led_builtin"]⟩,
  ⟨"Analog I/O", "#f59e0b", ["arduino_analog_read", "arduino_analog_write"]⟩,
  ⟨"Values", "#84cc16", ["text", "math_number", "math_arithmetic"]⟩,
  ⟨"Logic", "#06b6d4", ["logic_compare", "logic_operation", "logic_negate", "logic_boolean"]⟩,
  ⟨"Control", "#8b5cf6", ["controls_if", "controls_repeat_ext", "controls_whileUntil"]⟩]

def presetFields : String → Assoc Value
  | "text" => [("TEXT", .text "hello")]
  | "math_number" => [("NUM", .int 123)]
  | _ => []

def sectionCategory (registry : Registry) (allowed : List Value) (s : Section) :
    PaletteCategory where
  name := s.name
  colour := s.colour
  entries := (s.types.filter fun type =>
    Value.isIn (.text type) allowed && registry.has (.text type)).map
    fun type => ⟨.text type, presetFields type⟩

def componentCategory (registry : Registry) (allowed : List Value) (kind : ComponentKind) :
    PaletteCategory where
  name := kind.title
  colour := kind.colour
  entries := (registry.all.filter fun t =>
    Value.isIn kind.name t.capabilities && t.typeId.isIn allowed).map fun t => ⟨t.typeId, []⟩

def variablesCategory (allowed variableNames : List Value) : PaletteCategory where
  name := "Variables"
  colour := "#f97316"
  custom := some "VARIABLE"
  entries := variableNames.flatMap fun name =>
    ([.text "variables_set", .text "variables_get"].filter (Value.isIn · allowed)).map
      fun type => ⟨type, [("VAR", name)]⟩

def build (registry : Registry) (allowed : List Value) (kinds : List ComponentKind)
    (variableNames : List Value) : List PaletteCategory :=
  sectionCategory registry allowed basics ::
    kinds.eraseDups.map (componentCategory registry allowed) ++
    (sections.map (sectionCategory registry allowed)).filter (!·.entries.isEmpty) ++
    [variablesCategory allowed variableNames]

def toValue (categories : List PaletteCategory) : Value :=
  .list (categories.map PaletteCategory.toValue)

end Palette

end BlockSketch
