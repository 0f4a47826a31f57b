import BlockSketch.Proofs.Sketch.Contract

/-!
# The fixed parts of programs

All code that is the same in every program, read once: the templates of the blocks, and what sensors
need before the functions of a sketch.
-/

namespace BlockSketch.Sketch

structure Templates : Prop where
  blank : Piece.IsClosedTemplate " "
  feed : Piece.IsClosedTemplate "\n"
  bang : Piece.IsClosedTemplate "!"
  comma : Piece.IsClosedTemplate ", "
  close : Piece.IsClosedTemplate ")"
  callEnd : Piece.IsClosedTemplate ");\n"
  statementEnd : Piece.IsClosedTemplate ";\n"
  equals : Piece.IsClosedTemplate " = "
  zero : Piece.IsTemplate " = 0"
  zeroes : Piece.IsClosedTemplate " = 0, "
  semicolon : Piece.IsClosedTemplate "; "
  less : Piece.IsClosedTemplate " < "
  increment : Piece.IsClosedTemplate "++) "
  ifHead : Piece.IsClosedTemplate "if ("
  forHead : Piece.IsClosedTemplate "for (int "
  whileHead : Piece.IsClosedTemplate "while ("
  headEnd : Piece.IsClosedTemplate ") "
  elseHead : Piece.IsClosedTemplate " else "
  delay : Piece.IsClosedTemplate "delay("
  serialBegin : Piece.IsClosedTemplate "Serial.begin("
  serialPrint : Piece.IsClosedTemplate "Serial.println("
  led : Piece.IsClosedTemplate "digitalWrite(LED_BUILTIN, "
  ledMode : Piece.IsClosedTemplate "pinMode(LED_BUILTIN, OUTPUT);\n"
  pinMode : Piece.IsClosedTemplate "pinMode("
  output : Piece.IsTemplate "OUTPUT"
  input : Piece.IsTemplate "INPUT"
  analogRead : Piece.IsClosedTemplate "analogRead("
  analogWrite : Piece.IsClosedTemplate "analogWrite("
  digitalRead : Piece.IsClosedTemplate "digitalRead("
  digitalWrite : Piece.IsClosedTemplate "digitalWrite("
  initHts : Piece.IsClosedTemplate "initHTS();\n"
  initImu : Piece.IsClosedTemplate "initIMU();\n"
  initMicrophone : Piece.IsClosedTemplate "initMicrophone();\n"
  temperature : Piece.IsTemplate "HTS.readTemperature()"
  humidity : Piece.IsTemplate "HTS.readHumidity()"
  acceleration : Piece.IsClosedTemplate "imuAcceleration("
  sample : Piece.IsTemplate "samplesRead > 0 ? sampleBuffer[0] : 0"
  yes : Piece.IsTemplate "true"
  no : Piece.IsTemplate "false"
  both : Piece.IsTemplate "&&"
  either : Piece.IsTemplate "||"
  baud : ∀ v ∈ ["9600", "19200", "38400", "57600", "115200"], Piece.IsTemplate v
  state : ∀ v ∈ ["HIGH", "LOW"], Piece.IsTemplate v
  mode : ∀ v ∈ ["OUTPUT", "INPUT", "INPUT_PULLUP"], Piece.IsTemplate v
  arithmetic : ∀ e ∈ Arduino.arithmeticOperators, Piece.IsTemplate e.2.1
  comparison : ∀ e ∈ Arduino.comparisonOperators, Piece.IsTemplate e.2.1
  htsHeader : IsPreamble "#include <Arduino_HTS221.h>\n"
  htsFunctions : IsPreamble
    "void initHTS() \x7b\n  if (!HTS.begin()) \x7b\n    while (1);\n  \x7d\n\x7d\n"
  imuHeader : IsPreamble "#include <Arduino_LSM6DS3.h>\n"
  imuFunctions : IsPreamble Arduino.imuFunctions
  microphoneHeader : IsPreamble "#include <PDM.h>\n"
  microphoneBuffer : IsPreamble "short sampleBuffer[256];\nvolatile int samplesRead;\n"
  microphoneFunctions : IsPreamble Arduino.microphoneFunctions

theorem append_eq_ofList {a b : String} (ha : a = .ofList cs) (hb : b = .ofList ds) :
    a ++ b = .ofList (cs ++ ds) := by
  rw [ha, hb, String.ofList_append]

-- One theorem for all, since each of these checks waits for the kernel.
theorem templates : Templates := by
  constructor
  case baud | state | mode | arithmetic | comparison =>
    simp only [Arduino.arithmeticOperators, Arduino.comparisonOperators, List.forall_mem_cons,
      List.not_mem_nil, false_implies, implies_true, and_true]
    and_intros <;> exact ⟨_, rfl, by decide +kernel⟩
  case imuFunctions | microphoneFunctions =>
    exact ⟨_, append_eq_ofList (append_eq_ofList (append_eq_ofList rfl rfl) rfl) rfl,
      by decide +kernel⟩
  all_goals exact ⟨_, rfl, by decide +kernel⟩

end BlockSketch.Sketch
