/-!
# Variable names

The names that a sketch can declare: C identifiers other than the keywords and the names of the
board's library.
-/

namespace BlockSketch.Sketch

def reservedNames : List String := [
  "alignas", "alignof", "and", "and_eq", "asm", "auto", "bitand", "bitor", "bool", "break", "case",
  "catch", "char", "class", "compl", "const", "constexpr", "const_cast", "continue", "decltype",
  "default", "delete", "do", "double", "dynamic_cast", "else", "enum", "explicit", "export",
  "extern", "false", "float", "for", "friend", "goto", "if", "inline", "int", "long", "mutable",
  "namespace", "new", "noexcept", "not", "not_eq", "nullptr", "operator", "or", "or_eq", "private",
  "protected", "public", "register", "reinterpret_cast", "return", "short", "signed", "sizeof",
  "static", "static_assert", "static_cast", "struct", "switch", "template", "this", "thread_local",
  "throw", "true", "try", "typedef", "typeid", "typename", "union", "unsigned", "using", "virtual",
  "void", "volatile", "wchar_t", "while", "xor", "xor_eq", "boolean", "byte", "word", "String",
  "HIGH", "LOW", "INPUT", "OUTPUT", "INPUT_PULLUP", "LED_BUILTIN", "setup", "loop", "delay",
  "delayMicroseconds", "millis", "micros", "pinMode", "digitalWrite", "digitalRead", "analogRead",
  "analogWrite", "Serial", "random", "map", "constrain", "min", "max", "abs", "HTS", "IMU", "PDM",
  "initHTS", "initIMU", "initMicrophone", "imuAcceleration", "onPDMdata", "sampleBuffer",
  "samplesRead"]

def isNameStart (c : Char) : Bool :=
  c.isAlpha || c = '_'

def isNameChar (c : Char) : Bool :=
  c.isAlphanum || c = '_'

def isNameTail : List Char → Bool
  | [] => true
  | ['\n'] => true
  | c :: rest => isNameChar c && isNameTail rest

/-- The form of an identifier. A line feed at the very end is let through. -/
def hasNameForm : List Char → Bool
  | [] => false
  | c :: rest => isNameStart c && isNameTail rest

def isVariableName (name : String) : Bool :=
  hasNameForm name.toList && !reservedNames.contains name

end BlockSketch.Sketch
