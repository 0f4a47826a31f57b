import BlockSketch.Error
import BlockSketch.Number.Numeral
import BlockSketch.Text.Basic

/-!
# Settings

Every setting is looked up among overrides first, then in the environment, and has a default.
-/

namespace BlockSketch

structure Settings where
  debounceSeconds : Value := .real (.ofDecimal false 1 (-1))
  indentWidth : Value := .int 2
  sketchFilename : Value := .text "arduino_sketch.ino"
  host : Value := .text "0.0.0.0"
  portNumber : Value := .int 5003

def settingVariables : Assoc String := [
  ("debounce_seconds", "SKETCH_EDITOR_DEBOUNCE_SECONDS"),
  ("indent_width", "SKETCH_EDITOR_INDENT"),
  ("sketch_filename", "SKETCH_EDITOR_SKETCH_NAME"),
  ("host", "SKETCH_EDITOR_HOST"),
  ("port", "SKETCH_EDITOR_PORT")]

/-- The value of a setting: the override unless it is null, the environment's text unless it is
blank, or the default. Overrides are looked up by keys and the environment by texts. -/
def lookupSetting (environment : Assoc String) (overrides : Assoc Value)
    (key envName default : Value) : Except Error Value :=
  if key.isContainer && !overrides.isEmpty then .error .illTyped
  else match (key.text?.bind overrides.find?).filter (!·.isNull), envName with
    | some v, _ => .ok v
    | none, .text name =>
      let text := Text.trim ((environment.find? name).getD "")
      .ok (if text.isEmpty then default else .text text)
    | none, _ => .error .illTyped

/-- An environment: texts by name. A zero character would end a text, an equals sign a name. -/
def readEnvironment (members : Assoc Value) : Except Error (Assoc String) :=
  members.mapM fun (name, v) => do
    let some text := v.text? | .error .illTyped
    if name.toList.contains '=' then .error (.unfit .equalsSign)
    else if (name ++ text).toList.contains (Char.ofNat 0) then .error (.unfit .zeroByte)
    else .ok (name, text)

inductive CastError where
  | noNumber
  | illTyped
  | outOfRange

def CastError.toError? : CastError → Option Error
  | .noNumber => none
  | .illTyped => some .illTyped
  | .outOfRange => some .outOfRange

def Value.castReal : Value → Except CastError Binary64
  | .text s => (Numeral.readReal? s).elim (.error .noNumber) .ok
  | .number (.real x) => .ok x
  | .number (.int n) =>
    let x := Binary64.ofInt n
    if x.isFinite then .ok x else .error .outOfRange
  | .bool b => .ok (Binary64.ofInt (if b then 1 else 0))
  | _ => .error .illTyped

def Value.castInt : Value → Except CastError Int
  | .text s => (Numeral.readInt? s).elim (.error .noNumber) .ok
  | .number (.int n) => .ok n
  | .number (.real (.nan _)) => .error .noNumber
  | .number (.real x) => (x.truncate?).elim (.error .outOfRange) .ok
  | .bool b => .ok (if b then 1 else 0)
  | _ => .error .illTyped

/-- A width of texts: a whole number of 64 bits, or a truth value. No text is wider than the
memory. -/
def readWidth (v : Value) : Except Error Int := do
  let n ← match v with
    | .number (.int n) => .ok n
    | .bool b => .ok (if b then 1 else 0)
    | _ => .error .illTyped
  if n < -(Int.pow 2 63) || Int.pow 2 63 ≤ n then .error .outOfRange
  else if Int.pow 2 36 ≤ n then .error .noMemory
  else .ok n

namespace Settings

def orDefault (default : Value) : Except CastError Value → Except Error Value
  | .ok v => .ok v
  | .error e => e.toError?.elim (.ok default) .error

def load (environment : Assoc String) (overrides : Assoc Value) : Except Error Settings := do
  let start : Settings := {}
  let raw (key : String) (default : Value) : Except Error Value :=
    lookupSetting environment overrides (.text key)
      (.text ((settingVariables.find? key).getD "")) (.text default.plain)
  let debounceSeconds ← orDefault start.debounceSeconds
    ((← raw "debounce_seconds" start.debounceSeconds).castReal.map .real)
  let indentWidth ← orDefault start.indentWidth
    ((← raw "indent_width" start.indentWidth).castInt.map .int)
  let portNumber ← orDefault start.portNumber ((← raw "port" start.portNumber).castInt.map .int)
  .ok { debounceSeconds, indentWidth, portNumber
        sketchFilename := ← raw "sketch_filename" start.sketchFilename
        host := ← raw "host" start.host }

def ofMembers (members : Assoc Value) : Except Error Settings :=
  if members.all fun (name, _) => settingVariables.has name then
    let start : Settings := {}
    .ok { debounceSeconds := (members.find? "debounce_seconds").getD start.debounceSeconds
          indentWidth := (members.find? "indent_width").getD start.indentWidth
          sketchFilename := (members.find? "sketch_filename").getD start.sketchFilename
          host := (members.find? "host").getD start.host
          portNumber := (members.find? "port").getD start.portNumber }
  else .error .illTyped

def indent (settings : Settings) : Except Error String := do
  let n ← readWidth settings.indentWidth
  .ok ("".pushn ' ' n.toNat)

def toValue (settings : Settings) : Value :=
  .object [("debounce_seconds", settings.debounceSeconds), ("indent_width", settings.indentWidth),
    ("sketch_filename", settings.sketchFilename), ("host", settings.host),
    ("port", settings.portNumber)]

end Settings

end BlockSketch
