import BlockSketch.Block.Registry
import BlockSketch.Component.Kind

/-!
# The built-in blocks

Every block of the editor with its sockets, its fields and the components that unlock it.
-/

namespace BlockSketch.Catalog

def basicsColour : String := "#3b82f6"
def pinsColour : String := "#10b981"
def analogColour : String := "#f59e0b"
def valuesColour : String := "#84cc16"
def logicColour : String := "#06b6d4"
def controlColour : String := "#8b5cf6"
def variablesColour : String := "#f97316"

def unlockedBy (kinds : List ComponentKind) : List Value :=
  kinds.map fun kind => .text kind.name

/-- A dropdown that starts at the first of its labelled values. -/
def labelled (choices : List (String × String)) : Field where
  kind := .dropdown
  initial := .text ((choices.head?.map Prod.snd).getD "")
  choices := choices.map fun (label, value) => [.text label, .text value]

def choice (values : List String) : Field :=
  labelled (values.map fun v => (v, v))

def number (initial : Int) (minimum maximum : Option Int) : Field where
  kind := .number
  initial := .int initial
  minimum := .ofOption (minimum.map .int)
  maximum := .ofOption (maximum.map .int)

def pin : Field := number 13 (some 0) (some 53)

def variableField : Field := { kind := .variable, initial := .text "item" }

def blockTypes : List BlockType := [
  { typeId := entryType
    shape := .statement
    sockets := [.statement "SETUP", .statement "LOOP"]
    deletable := .bool false
    chainable := .bool false
    category := "Arduino Basics"
    colour := basicsColour
    tooltip := "Setup runs once when the program starts, loop runs continuously" },
  { typeId := "arduino_delay"
    shape := .statement
    fields := [("TIME", number 1000 (some 1) none)]
    category := "Arduino Basics"
    colour := basicsColour
    tooltip := "Pause the program for specified milliseconds" },
  { typeId := "arduino_serial_begin"
    shape := .statement
    fields := [("BAUD", choice ["9600", "19200", "38400", "57600", "115200"])]
    category := "Arduino Basics"
    colour := basicsColour
    tooltip := "Initialize serial communication" },
  { typeId := "arduino_serial_print"
    shape := .statement
    sockets := [.value {
      name := "TEXT"
      check := ["String", "Number", "Boolean"]
      literal := "\"\""
      shadow := some ⟨"text", .object [("TEXT", "Hello World")]⟩ }]
    category := "Arduino Basics"
    colour := basicsColour
    tooltip := "Print text or number to serial monitor" },
  { typeId := "arduino_led_builtin"
    shape := .statement
    fields := [("STATE", labelled [("ON", "HIGH"), ("OFF", "LOW")])]
    category := "Digital I/O"
    colour := pinsColour
    tooltip := "Control the built-in LED" },
  { typeId := "arduino_analog_read"
    shape := .expression
    output := "Number"
    fields := [("PIN", choice ["A0", "A1", "A2", "A3", "A4", "A5"])]
    category := "Analog I/O"
    colour := analogColour
    tooltip := "Read analog value from pin (0-1023)" },
  { typeId := "arduino_pin_mode"
    shape := .statement
    fields := [("PIN", pin), ("MODE", choice ["OUTPUT", "INPUT", "INPUT_PULLUP"])]
    capabilities := unlockedBy [.led, .button]
    category := "Digital I/O"
    colour := pinsColour
    tooltip := "Set pin mode (INPUT, OUTPUT, INPUT_PULLUP)" },
  { typeId := "arduino_digital_write"
    shape := .statement
    fields := [("PIN", pin), ("STATE", choice ["HIGH", "LOW"])]
    capabilities := unlockedBy [.led]
    category := "Digital I/O"
    colour := pinsColour
    tooltip := "Write HIGH or LOW to a digital pin" },
  { typeId := "arduino_analog_write"
    shape := .statement
    fields := [("PIN", number 9 (some 0) (some 13)), ("VALUE", number 255 (some 0) (some 255))]
    capabilities := unlockedBy [.led]
    category := "Analog I/O"
    colour := analogColour
    tooltip := "Write PWM value to pin (0-255)" },
  { typeId := "arduino_digital_read"
    shape := .expression
    output := "Boolean"
    fields := [("PIN", number 2 (some 0) (some 53))]
    capabilities := unlockedBy [.button]
    category := "Digital I/O"
    colour := pinsColour
    tooltip := "Read the value of a digital pin" },
  { typeId := "arduino_temperature_read"
    shape := .expression
    output := "Number"
    capabilities := unlockedBy [.temperature]
    category := "Sensors"
    colour := pinsColour
    tooltip := "Read temperature from HTS221 sensor" },
  { typeId := "arduino_humidity_read"
    shape := .expression
    output := "Number"
    capabilities := unlockedBy [.humidity]
    category := "Sensors"
    colour := pinsColour
    tooltip := "Read humidity from HTS221 sensor" },
  { typeId := "arduino_sensor_begin"
    shape := .statement
    fields := [("SENSOR", labelled [("temperature/humidity", "HTS221"), ("microphone", "PDM")])]
    capabilities := unlockedBy [.temperature, .humidity, .microphone]
    category := "Sensors"
    colour := pinsColour
    tooltip := "Initialize sensor components" },
  { typeId := "arduino_imu_read"
    shape := .expression
    output := "Number"
    fields := [("AXIS", labelled [("X", "x"), ("Y", "y"), ("Z", "z")])]
    capabilities := unlockedBy [.imu]
    category := "Sensors"
    colour := pinsColour
    tooltip := "Read acceleration data from IMU sensor" },
  { typeId := "arduino_imu_begin"
    shape := .statement
    capabilities := unlockedBy [.imu]
    category := "Sensors"
    colour := pinsColour
    tooltip := "Initialize IMU motion sensor" },
  { typeId := "arduino_microphone_read"
    shape := .expression
    output := "Number"
    capabilities := unlockedBy [.microphone]
    category := "Sensors"
    colour := pinsColour
    tooltip := "Read microphone sound level" },
  { typeId := "text"
    shape := .expression
    output := "String"
    fields := [("TEXT", { kind := .text, initial := .text "" })]
    category := "Values"
    colour := valuesColour },
  { typeId := "math_number"
    shape := .expression
    output := "Number"
    fields := [("NUM", number 0 none none)]
    category := "Values"
    colour := valuesColour },
  { typeId := "math_arithmetic"
    shape := .expression
    output := "Number"
    sockets := [.value { name := "A", check := ["Number"] },
      .value { name := "B", check := ["Number"] }]
    fields := [("OP", labelled
      [("+", "ADD"), ("-", "MINUS"), ("*", "MULTIPLY"), ("/", "DIVIDE")])]
    category := "Values"
    colour := valuesColour },
  { typeId := "logic_boolean"
    shape := .expression
    output := "Boolean"
    fields := [("BOOL", labelled [("true", "TRUE"), ("false", "FALSE")])]
    category := "Logic"
    colour := logicColour },
  { typeId := "logic_compare"
    shape := .expression
    output := "Boolean"
    sockets := [.value { name := "A" }, .value { name := "B" }]
    fields := [("OP", labelled
      [("=", "EQ"), ("≠", "NEQ"), ("<", "LT"), ("≤", "LTE"), (">", "GT"), ("≥", "GTE")])]
    category := "Logic"
    colour := logicColour },
  { typeId := "logic_operation"
    shape := .expression
    output := "Boolean"
    sockets := [.value { name := "A", check := ["Boolean"], literal := "false" },
      .value { name := "B", check := ["Boolean"], literal := "false" }]
    fields := [("OP", labelled [("and", "AND"), ("or", "OR")])]
    category := "Logic"
    colour := logicColour },
  { typeId := "logic_negate"
    shape := .expression
    output := "Boolean"
    sockets := [.value { name := "BOOL", check := ["Boolean"], literal := "true" }]
    category := "Logic"
    colour := logicColour },
  { typeId := "controls_if"
    shape := .statement
    sockets := [.value { name := "IF0", check := ["Boolean"], literal := "false" },
      .statement "DO0", .statement "ELSE"]
    category := "Control"
    colour := controlColour },
  { typeId := "controls_repeat_ext"
    shape := .statement
    sockets := [.value {
        name := "TIMES"
        check := ["Number"]
        shadow := some ⟨"math_number", .object [("NUM", .int 10)]⟩ },
      .statement "DO"]
    category := "Control"
    colour := controlColour },
  { typeId := "controls_whileUntil"
    shape := .statement
    sockets := [.value { name := "BOOL", check := ["Boolean"], literal := "false" },
      .statement "DO"]
    fields := [("MODE", labelled [("repeat while", "WHILE"), ("repeat until", "UNTIL")])]
    category := "Control"
    colour := controlColour },
  { typeId := "variables_get"
    shape := .expression
    fields := [("VAR", variableField)]
    category := "Variables"
    colour := variablesColour },
  { typeId := "variables_set"
    shape := .statement
    sockets := [.value { name := "VALUE" }]
    fields := [("VAR", variableField)]
    category := "Variables"
    colour := variablesColour }]

def registry : Registry :=
  .ofTypes blockTypes

end BlockSketch.Catalog
