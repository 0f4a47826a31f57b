import BlockSketch.Sketch.Emit
import BlockSketch.Sketch.Identifier
import BlockSketch.Sketch.Literal
import BlockSketch.Text.Line

/-!
# Code of the built-in blocks

One emitter for each built-in block, on an Arduino board with its sensor libraries.
-/

namespace BlockSketch.Sketch.Arduino

/-- The value of a field, its initial one by default; it must lie in the field's domain. -/
def field (site : Site) (name : String) : Emit Value :=
  match site.type.fields.find? name with
  | none => fault (Text.quoted name)
  | some f =>
    match f.validate ((site.block.fields.find? name).getD f.initial) with
    | .ok v => pure v
    | .error e => fault e.message

def textField (site : Site) (name : String) (complaint : Value → String) : Emit String := do
  match ← field site name with
  | .text s => pure s
  | v => fault (complaint v)

def chosen (site : Site) (name : String) (table : Assoc α) : Emit α := do
  let v ← field site name
  match v.text?.bind table.find? with
  | some a => pure a
  | none => fault (if v.isContainer then v.noKey else v.quoted)

def operandText (socket : String) (outer : Order) : Emit String := do
  pure (← operand socket outer).plain

def freshText (base : String) : Emit String := do
  pure (← fresh base).plain

def variableName (site : Site) : Emit String := do
  let v ← field site "VAR"
  if !v.isIn site.variableNames then fault ("Variable '" ++ v.plain ++ "' is not declared")
  else match v.text?.filter isVariableName with
    | some name => pure name
    | none => fault ("'" ++ v.plain ++ "' is not a valid variable name")

def setPinMode (pin : String) (mode : String) : Emit Unit :=
  define (.text ("pinMode_" ++ pin)) (.text ("pinMode(" ++ pin ++ ", " ++ mode ++ ");\n")) .setup

def useHts : Emit Unit := do
  define "include_HTS221" "#include <Arduino_HTS221.h>\n" .global
  define "hts_setup"
    "void initHTS() \x7b\n  if (!HTS.begin()) \x7b\n    while (1);\n  \x7d\n\x7d\n" .global
  define "hts_call_setup" "initHTS();\n" .setup

def imuFunctions : String :=
  "void initIMU() \x7b\n  if (!IMU.begin()) \x7b\n    while (1);\n  \x7d\n\x7d\n\n" ++
  "float imuAcceleration(int axis) \x7b\n  float x = 0, y = 0, z = 0;\n" ++
  "  if (IMU.accelerationAvailable()) \x7b\n    IMU.readAcceleration(x, y, z);\n  \x7d\n" ++
  "  return axis == 0 ? x : (axis == 1 ? y : z);\n\x7d\n"

def useImu : Emit Unit := do
  define "include_LSM6DS3" "#include <Arduino_LSM6DS3.h>\n" .global
  define "imu_setup" imuFunctions .global
  define "imu_call_setup" "initIMU();\n" .setup

def microphoneFunctions : String :=
  "void onPDMdata() \x7b\n  int bytesAvailable = PDM.available();\n" ++
  "  PDM.read(sampleBuffer, bytesAvailable);\n  samplesRead = bytesAvailable / 2;\n\x7d\n\n" ++
  "void initMicrophone() \x7b\n  PDM.onReceive(onPDMdata);\n" ++
  "  if (!PDM.begin(1, 16000)) \x7b\n    while (1);\n  \x7d\n\x7d\n"

def useMicrophone : Emit Unit := do
  define "include_PDM" "#include <PDM.h>\n" .global
  define "mic_buffer" "short sampleBuffer[256];\nvolatile int samplesRead;\n" .global
  define "mic_setup" microphoneFunctions .global
  define "mic_call_setup" "initMicrophone();\n" .setup

def braces (body : String) : String :=
  "\x7b\n" ++ body ++ "\x7d"

def declareVariables : List Value → Emit Unit
  | [] => pure ()
  | v :: rest =>
    match v.text?.filter isVariableName with
    | some name => do
      define (.text ("variable_" ++ name)) (.text ("float " ++ name ++ " = 0;\n")) .global
      declareVariables rest
    | none => fault ("'" ++ v.plain ++ "' is not a valid variable name")

def joined (definitions : Definitions) (placement : Placement) : Emit String := do
  let texts ← orFault (Value.joinable 0 (definitions.texts (some placement)))
  pure (String.join texts)

def entryPoint (site : Site) : Emit Yield := do
  let setupCode ← body "SETUP"
  let loopCode ← body "LOOP"
  declareVariables site.variableNames
  let definitions ← defined
  let globals ← joined definitions .global
  let globals := if globals.isEmpty then globals else globals ++ "\n"
  let calls ← orFault (indentCode site.indent (← joined definitions .setup))
  pure (.statement (globals ++ "void setup() " ++ braces (calls ++ setupCode) ++ "\n\n" ++
    "void loop() " ++ braces loopCode ++ "\n"))

def delay (site : Site) : Emit Yield := do
  let time ← field site "TIME"
  pure (.statement ("delay(" ++ numberLiteral time ++ ");\n"))

def serialBegin (site : Site) : Emit Yield := do
  let baud ← field site "BAUD"
  pure (.statement ("Serial.begin(" ++ baud.plain ++ ");\n"))

def serialPrint (_ : Site) : Emit Yield := do
  let text ← operandText "TEXT" .loosest
  pure (.statement ("Serial.println(" ++ text ++ ");\n"))

def ledBuiltin (site : Site) : Emit Yield := do
  define "pinMode_LED_BUILTIN" "pinMode(LED_BUILTIN, OUTPUT);\n" .setup
  let state ← field site "STATE"
  pure (.statement ("digitalWrite(LED_BUILTIN, " ++ state.plain ++ ");\n"))

def analogRead (site : Site) : Emit Yield := do
  let pin ← field site "PIN"
  pure (.expression ("analogRead(" ++ pin.plain ++ ")") .unaryPostfix)

def pinMode (site : Site) : Emit Yield := do
  let pin ← field site "PIN"
  let mode ← field site "MODE"
  pure (.statement ("pinMode(" ++ numberLiteral pin ++ ", " ++ mode.plain ++ ");\n"))

def digitalWrite (site : Site) : Emit Yield := do
  let pin := numberLiteral (← field site "PIN")
  setPinMode pin "OUTPUT"
  let state ← field site "STATE"
  pure (.statement ("digitalWrite(" ++ pin ++ ", " ++ state.plain ++ ");\n"))

def analogWrite (site : Site) : Emit Yield := do
  let pin := numberLiteral (← field site "PIN")
  setPinMode pin "OUTPUT"
  let value := numberLiteral (← field site "VALUE")
  pure (.statement ("analogWrite(" ++ pin ++ ", " ++ value ++ ");\n"))

def digitalRead (site : Site) : Emit Yield := do
  let pin := numberLiteral (← field site "PIN")
  setPinMode pin "INPUT"
  pure (.expression ("digitalRead(" ++ pin ++ ")") .unaryPostfix)

def temperatureRead (_ : Site) : Emit Yield := do
  useHts
  pure (.expression "HTS.readTemperature()" .unaryPostfix)

def humidityRead (_ : Site) : Emit Yield := do
  useHts
  pure (.expression "HTS.readHumidity()" .unaryPostfix)

def sensorBegin (site : Site) : Emit Yield := do
  if (← field site "SENSOR").same (.text "PDM") then useMicrophone else useHts
  pure (.statement "")

def axisIndex? (s : String) : Option Nat :=
  (List.range 4).find? fun i => s.toList.isPrefixOf ("xyz".toList.drop i)

def imuRead (site : Site) : Emit Yield := do
  useImu
  let axis ← textField site "AXIS" fun v => "must be str, not " ++ v.kindName
  match axisIndex? axis with
  | some i => pure (.expression ("imuAcceleration(" ++ toString i ++ ")") .unaryPostfix)
  | none => fault "substring not found"

def imuBegin (_ : Site) : Emit Yield := do
  useImu
  pure (.statement "")

def microphoneRead (_ : Site) : Emit Yield := do
  useMicrophone
  pure (.expression "samplesRead > 0 ? sampleBuffer[0] : 0" .conditional)

def text (site : Site) : Emit Yield := do
  let s ← textField site "TEXT" fun v => "'" ++ v.kindName ++ "' object has no attribute 'replace'"
  pure (.expression (stringLiteral s) .atomic)

/-- A negative number starts with an operator. -/
def mathNumber (site : Site) : Emit Yield := do
  let v ← field site "NUM"
  match v.number? with
  | some n =>
    pure (.expression (numberLiteral v) (if n.less (.int 0) then .unaryPrefix else .atomic))
  | none => fault (Value.noOrder "<" v.kindName "int")

def binary (operator : String) (order : Order) : Emit Yield := do
  let left ← operandText "A" order
  let right ← operandText "B" order
  pure (.expression (left ++ " " ++ operator ++ " " ++ right) order)

def arithmeticOperators : Assoc (String × Order) := [
  ("ADD", "+", .additive), ("MINUS", "-", .additive),
  ("MULTIPLY", "*", .multiplicative), ("DIVIDE", "/", .multiplicative)]

def mathArithmetic (site : Site) : Emit Yield := do
  let (operator, order) ← chosen site "OP" arithmeticOperators
  binary operator order

def logicBoolean (site : Site) : Emit Yield := do
  let v ← field site "BOOL"
  pure (.expression (if v.same (.text "TRUE") then "true" else "false") .atomic)

def comparisonOperators : Assoc (String × Order) := [
  ("EQ", "==", .equality), ("NEQ", "!=", .equality), ("LT", "<", .relational),
  ("LTE", "<=", .relational), ("GT", ">", .relational), ("GTE", ">=", .relational)]

def logicCompare (site : Site) : Emit Yield := do
  let (operator, order) ← chosen site "OP" comparisonOperators
  binary operator order

def logicOperation (site : Site) : Emit Yield := do
  if (← field site "OP").same (.text "AND") then binary "&&" .logicalAnd
  else binary "||" .logicalOr

def logicNegate (_ : Site) : Emit Yield := do
  let operand ← operandText "BOOL" .unaryPrefix
  pure (.expression ("!" ++ operand) .unaryPrefix)

def controlsIf (site : Site) : Emit Yield := do
  let condition ← operandText "IF0" .loosest
  let yes ← body "DO0"
  let code := "if (" ++ condition ++ ") " ++ braces yes
  if (site.block.input? "ELSE").isSome then do
    let no ← body "ELSE"
    pure (.statement (code ++ " else " ++ braces no ++ "\n"))
  else pure (.statement (code ++ "\n"))

/-- A bound that is not a plain count is evaluated once, under a fresh name. -/
def controlsRepeat (_ : Site) : Emit Yield := do
  let times ← operand "TIMES" .assignment
  let branch ← body "DO"
  let counter ← freshText "count"
  let loop (init limit : String) := Yield.statement
    ("for (int " ++ init ++ "; " ++ counter ++ " < " ++ limit ++ "; " ++ counter ++ "++) " ++
      braces branch ++ "\n")
  match times with
  | .text times =>
    if isCount times then pure (loop (counter ++ " = 0") times)
    else do
      let limit ← freshText "repeat_end"
      pure (loop (counter ++ " = 0, " ++ limit ++ " = " ++ times) limit)
  | v => fault ("expected string or bytes-like object, got '" ++ v.kindName ++ "'")

def controlsWhile (site : Site) : Emit Yield := do
  let negated := (← field site "MODE").same (.text "UNTIL")
  let condition ← operandText "BOOL" (if negated then .unaryPrefix else .loosest)
  let condition := if negated then "!" ++ condition else condition
  let branch ← body "DO"
  pure (.statement ("while (" ++ condition ++ ") " ++ braces branch ++ "\n"))

def variablesGet (site : Site) : Emit Yield := do
  let name ← variableName site
  pure (.expression name .atomic)

def variablesSet (site : Site) : Emit Yield := do
  let name ← variableName site
  let value ← operandText "VALUE" .assignment
  pure (.statement (name ++ " = " ++ value ++ ";\n"))

def emitters : Emitters := [
  (entryType, entryPoint),
  ("arduino_delay", delay),
  ("arduino_serial_begin", serialBegin),
  ("arduino_serial_print", serialPrint),
  ("arduino_led_builtin", ledBuiltin),
  ("arduino_analog_read", analogRead),
  ("arduino_pin_mode", pinMode),
  ("arduino_digital_write", digitalWrite),
  ("arduino_analog_write", analogWrite),
  ("arduino_digital_read", digitalRead),
  ("arduino_temperature_read", temperatureRead),
  ("arduino_humidity_read", humidityRead),
  ("arduino_sensor_begin", sensorBegin),
  ("arduino_imu_read", imuRead),
  ("arduino_imu_begin", imuBegin),
  ("arduino_microphone_read", microphoneRead),
  ("text", text),
  ("math_number", mathNumber),
  ("math_arithmetic", mathArithmetic),
  ("logic_boolean", logicBoolean),
  ("logic_compare", logicCompare),
  ("logic_operation", logicOperation),
  ("logic_negate", logicNegate),
  ("controls_if", controlsIf),
  ("controls_repeat_ext", controlsRepeat),
  ("controls_whileUntil", controlsWhile),
  ("variables_get", variablesGet),
  ("variables_set", variablesSet)]

end BlockSketch.Sketch.Arduino
