import BlockSketch.Proofs.Sketch.Compiled

/-!
# What blocks demand

A block that uses a pin or a sensor demands it: a pin in some mode, or a sensor with all that is
declared for its library. Demands are read off blocks, and off the steps of a walk, without any
code. A run makes the definitions of all that is demanded on its way, in the order of the steps, and
no others; `compile_adds` says this of all blocks by induction over the depth.
-/

namespace BlockSketch.Sketch

-- ---------------------------------------------------------------------------
-- Demands
-- ---------------------------------------------------------------------------

/-- The sensors of the board, by the library that serves them. -/
inductive Family where
  | hts
  | imu
  | microphone
  deriving DecidableEq

def Family.scaffolding : Family → List (String × String)
  | .hts => [
      ("include_HTS221", "#include <Arduino_HTS221.h>\n"),
      ("hts_setup",
        "void initHTS() \x7b\n  if (!HTS.begin()) \x7b\n    while (1);\n  \x7d\n\x7d\n")]
  | .imu => [
      ("include_LSM6DS3", "#include <Arduino_LSM6DS3.h>\n"),
      ("imu_setup", Arduino.imuFunctions)]
  | .microphone => [
      ("include_PDM", "#include <PDM.h>\n"),
      ("mic_buffer", "short sampleBuffer[256];\nvolatile int samplesRead;\n"),
      ("mic_setup", Arduino.microphoneFunctions)]

/-- What is set up once, however many blocks use it. A pin goes by its number as it is written. -/
inductive Resource where
  | pin (name : String)
  | sensor (family : Family)
  deriving DecidableEq

def Resource.key : Resource → String
  | .pin name => "pinMode_" ++ name
  | .sensor .hts => "hts_call_setup"
  | .sensor .imu => "imu_call_setup"
  | .sensor .microphone => "mic_call_setup"

inductive Demand where
  | pin (name mode : String)
  | sensor (family : Family)

namespace Demand

def resource : Demand → Resource
  | .pin name _ => .pin name
  | .sensor family => .sensor family

def line : Demand → String
  | .pin name mode => "pinMode(" ++ name ++ ", " ++ mode ++ ");\n"
  | .sensor .hts => "initHTS();\n"
  | .sensor .imu => "initIMU();\n"
  | .sensor .microphone => "initMicrophone();\n"

def scaffolding : Demand → List (String × String)
  | .pin .. => []
  | .sensor family => family.scaffolding

def call (d : Demand) : Definition :=
  ⟨.text d.resource.key, .text d.line, .setup⟩

end Demand

def globally (e : String × String) : Definition :=
  ⟨.text e.1, .text e.2, .global⟩

def Demand.definitions (d : Demand) : List Definition :=
  d.scaffolding.map globally ++ [d.call]

def pinText (t : BlockType) (b : Block) : Option String :=
  (fieldValue t b "PIN").toOption.map numberLiteral

/-- What a block demands itself. Setting a mode by a block of its own demands nothing. -/
def demand? (t : BlockType) (b : Block) : Option Demand :=
  match t.typeId with
  | .text "arduino_led_builtin" => some (.pin "LED_BUILTIN" "OUTPUT")
  | .text "arduino_digital_write" | .text "arduino_analog_write" =>
    (pinText t b).map (.pin · "OUTPUT")
  | .text "arduino_digital_read" => (pinText t b).map (.pin · "INPUT")
  | .text "arduino_temperature_read" | .text "arduino_humidity_read" => some (.sensor .hts)
  | .text "arduino_sensor_begin" =>
    (fieldText t b "SENSOR").map fun s => .sensor (if s = "PDM" then .microphone else .hts)
  | .text "arduino_imu_read" | .text "arduino_imu_begin" => some (.sensor .imu)
  | .text "arduino_microphone_read" => some (.sensor .microphone)
  | _ => none

def nameTexts (names : List Value) : List String :=
  names.filterMap Value.text?

theorem map_nameTexts (h : ∀ v ∈ names, ∃ s, v = .text s ∧ isVariableName s = true) :
    (nameTexts names).map Value.text = names := by
  induction names with
  | nil => rfl
  | cons v names ih =>
    obtain ⟨⟨s, rfl, -⟩, hrest⟩ := List.forall_mem_cons.mp h
    exact congrArg (Value.text s :: ·) (ih hrest)

namespace Step

def demand? (w : Workspace) : Step → Option Demand
  | .block _ r =>
    (Catalog.registry.find? (w.block r).type).bind fun t => Sketch.demand? t (w.block r)
  | .names _ => none

/-- The definitions of a step: of what a block demands, or of all variables. -/
def definitions (w : Workspace) : Step → List Definition
  | .block position r => ((Step.block position r).demand? w).toList.flatMap Demand.definitions
  | .names _ => (nameTexts w.variableNames).map declaration

end Step

-- ---------------------------------------------------------------------------
-- Emitters
-- ---------------------------------------------------------------------------

/-- A run went on to make some definitions, and no others. -/
def Adds (ds : List Definition) (run run' : Run) : Prop :=
  run'.definitions = ds.foldl Definitions.add run.definitions

theorem Adds.nil (run : Run) : Adds [] run run := rfl

theorem Adds.append (h : Adds ds run mid) (h' : Adds ds' mid run') :
    Adds (ds ++ ds') run run' := by
  rw [Adds, List.foldl_append, ← h]
  exact h'

/-- An emitter makes some definitions, given those that are made for its sockets. -/
inductive Defines (inside : Value → List Definition) : List Definition → Emit Yield → Prop
  | done : Defines inside [] (.done yield)
  | complain : Defines inside ds (.complain c)
  | operand (h : ∀ v, Defines inside ds (k v)) :
      Defines inside (inside (.text socket) ++ ds) (.operand (.text socket) outer k)
  | body (h : ∀ code, Defines inside ds (k code)) :
      Defines inside (inside (.text socket) ++ ds) (.body (.text socket) k)
  | fresh (h : ∀ name, Defines inside ds (k name)) : Defines inside ds (.fresh (.text base) k)
  | define (h : Defines inside ds p) :
      Defines inside (⟨.text key, text, placement⟩ :: ds) (.define ⟨.text key, text, placement⟩ p)

section
variable {inside : Value → List Definition}

theorem Defines.sound {operand : Value → Order → Gen Value} {body : Value → Gen String}
    {complain : Complaint → Fault} (h : Defines inside ds p)
    (hoperand : ∀ socket outer run v run', operand (.text socket) outer run = .ok (v, run') →
      Adds (inside (.text socket)) run run')
    (hbody : ∀ socket run code run', body (.text socket) run = .ok (code, run') →
      Adds (inside (.text socket)) run run')
    (hrun : p.run operand body complain run = .ok (yield, run')) : Adds ds run run' := by
  induction h generalizing run with
  | done =>
    obtain ⟨-, rfl⟩ := gen_pure_ok.mp hrun
    exact .nil run'
  | complain => simp [Emit.run] at hrun
  | operand _ ih =>
    obtain ⟨v, mid, hcode, hrun⟩ := gen_bind_ok.mp hrun
    exact (hoperand _ _ _ _ _ hcode).append (ih v hrun)
  | body _ ih =>
    obtain ⟨code, mid, hcode, hrun⟩ := gen_bind_ok.mp hrun
    exact (hbody _ _ _ _ hcode).append (ih code hrun)
  | @fresh _ k base _ ih =>
    have hadds : Adds _ (run.freshName (.text base)).2 run' := ih _ hrun
    exact hadds
  | define _ ih =>
    have hadds : Adds _ { run with definitions := run.definitions.add _ } run' := ih hrun
    exact hadds

namespace Defines

variable {site : Site}

theorem of_eq (h : Defines inside ds p) (heq : ds' = ds) : Defines inside ds' p :=
  heq ▸ h

theorem field {k : Value → Emit Yield}
    (h : ∀ v, fieldValue site.type site.block name = .ok v → Defines inside ds (k v)) :
    Defines inside ds (Arduino.field site name >>= k) := by
  rw [field_eq]
  cases hv : fieldValue site.type site.block name with
  | error text => exact .complain
  | ok v => exact h v hv

theorem textField {k : String → Emit Yield} {complaint : Value → String}
    (h : ∀ s, Defines inside ds (k s)) :
    Defines inside ds (Arduino.textField site name complaint >>= k) := by
  rw [Arduino.textField, bind_assoc]
  refine .field fun v _ => ?_
  cases v with
  | text s => exact h s
  | _ => exact .complain

theorem chosen {k : α → Emit Yield} {table : Assoc α} (h : ∀ a, Defines inside ds (k a)) :
    Defines inside ds (Arduino.chosen site name table >>= k) := by
  rw [Arduino.chosen, bind_assoc]
  refine .field fun v _ => ?_
  cases v.text?.bind table.find? with
  | none => exact .complain
  | some a => exact h a

theorem variableName {k : String → Emit Yield} (h : ∀ s, Defines inside ds (k s)) :
    Defines inside ds (Arduino.variableName site >>= k) := by
  rw [Arduino.variableName, bind_assoc]
  refine .field fun v _ => ?_
  split
  · exact .complain
  · cases v.text?.filter isVariableName with
    | none => exact .complain
    | some s => exact h s

theorem operandText {k : String → Emit Yield} (h : ∀ code, Defines inside ds (k code)) :
    Defines inside (inside (.text socket) ++ ds) (Arduino.operandText socket outer >>= k) :=
  .operand fun v => h v.plain

theorem freshText {k : String → Emit Yield} (h : ∀ name, Defines inside ds (k name)) :
    Defines inside ds (Arduino.freshText base >>= k) :=
  .fresh fun name => h name.plain

theorem setPinMode (h : Defines inside ds (k ())) :
    Defines inside ((Demand.pin pin mode).definitions ++ ds)
      (Arduino.setPinMode pin mode >>= k) :=
  .define h

theorem useHts (h : Defines inside ds (k ())) :
    Defines inside ((Demand.sensor .hts).definitions ++ ds) (Arduino.useHts >>= k) :=
  .define (.define (.define h))

theorem useImu (h : Defines inside ds (k ())) :
    Defines inside ((Demand.sensor .imu).definitions ++ ds) (Arduino.useImu >>= k) :=
  .define (.define (.define h))

theorem useMicrophone (h : Defines inside ds (k ())) :
    Defines inside ((Demand.sensor .microphone).definitions ++ ds)
      (Arduino.useMicrophone >>= k) :=
  .define (.define (.define (.define h)))

end Defines

variable {site : Site}

theorem pinText_of (h : fieldValue t b "PIN" = .ok v) : pinText t b = some (numberLiteral v) := by
  simp [pinText, h, Except.toOption]

theorem Defines.pin {k : Value → Emit Yield}
    (h : ∀ v, Defines inside ((Demand.pin (numberLiteral v) mode).definitions ++ []) (k v)) :
    Defines inside
      (((pinText site.type site.block).map (Demand.pin · mode)).toList.flatMap Demand.definitions)
      (Arduino.field site "PIN" >>= k) := by
  refine .field fun v hv => ?_
  rw [pinText_of hv]
  exact h v

theorem digitalWrite_defines : Defines inside
    (((pinText site.type site.block).map (Demand.pin · "OUTPUT")).toList.flatMap Demand.definitions)
    (Arduino.digitalWrite site) :=
  .pin fun _ => .setPinMode (.field fun _ _ => .done)

theorem analogWrite_defines : Defines inside
    (((pinText site.type site.block).map (Demand.pin · "OUTPUT")).toList.flatMap Demand.definitions)
    (Arduino.analogWrite site) :=
  .pin fun _ => .setPinMode (.field fun _ _ => .done)

theorem digitalRead_defines : Defines inside
    (((pinText site.type site.block).map (Demand.pin · "INPUT")).toList.flatMap Demand.definitions)
    (Arduino.digitalRead site) :=
  .pin fun _ => .setPinMode .done

theorem sensorBegin_defines
    (hf : site.type.fields.find? "SENSOR" = some (Catalog.labelled choices)) :
    Defines inside
      (((fieldText site.type site.block "SENSOR").map fun s =>
        Demand.sensor (if s = "PDM" then .microphone else .hts)).toList.flatMap Demand.definitions)
      (Arduino.sensorBegin site) := by
  refine .field fun v hv => ?_
  obtain ⟨c, -, rfl⟩ := fieldValue_labelled hf hv
  rw [fieldText_of hv, Option.map_some]
  have hsame : (Value.text c.2).same (.text "PDM") = true ↔ c.2 = "PDM" := by simp
  by_cases hpdm : c.2 = "PDM"
  · rw [if_pos hpdm, hsame.mpr hpdm]
    exact .useMicrophone .done
  · rw [if_neg hpdm, Bool.eq_false_iff.mpr (mt hsame.mp hpdm)]
    exact .useHts .done

theorem imuRead_defines :
    Defines inside ((Demand.sensor .imu).definitions ++ []) (Arduino.imuRead site) := by
  refine .useImu (.textField fun s => ?_)
  split
  · exact .done
  · exact .complain

theorem mathNumber_defines : Defines inside [] (Arduino.mathNumber site) := by
  refine .field fun v _ => ?_
  split
  · exact .done
  · exact .complain

theorem binary_defines : Defines inside (inside "A" ++ (inside "B" ++ []))
    (Arduino.binary operator order) :=
  .operandText fun _ => .operandText fun _ => .done

theorem logicOperation_defines :
    Defines inside (inside "A" ++ (inside "B" ++ [])) (Arduino.logicOperation site) := by
  refine .field fun v _ => ?_
  split
  · exact binary_defines
  · exact binary_defines

theorem controlsIf_defines (helse : site.block.input? "ELSE" = none → inside "ELSE" = []) :
    Defines inside (inside "IF0" ++ (inside "DO0" ++ (inside "ELSE" ++ [])))
      (Arduino.controlsIf site) := by
  refine .operandText fun _ => .body fun _ => ?_
  cases hno : site.block.input? "ELSE" with
  | none =>
    rw [helse hno]
    exact .done
  | some _ => exact .body fun _ => .done

theorem controlsRepeat_defines :
    Defines inside (inside "TIMES" ++ (inside "DO" ++ [])) (Arduino.controlsRepeat site) := by
  refine .operand fun times => .body fun _ => .freshText fun _ => ?_
  cases times with
  | text times =>
    dsimp only
    split
    · exact .done
    · exact .freshText fun _ => .done
  | _ => exact .complain

end

/-- A type has an emitter that makes the definitions of what its blocks demand, and then those of
their sockets. -/
def Demanding (t : BlockType) : Prop :=
  ∃ emitter, Arduino.emitters.find? t.typeId = some emitter ∧
    ∀ {inside : Value → List Definition} (b : Block) (names : List Value) (indent : Value),
      (∀ name, .statement name ∈ t.sockets → b.input? name = none → inside name = []) →
      Defines inside
        ((demand? t b).toList.flatMap Demand.definitions ++
          t.sockets.flatMap fun s => inside s.name)
        (emitter ⟨b, t, names, indent⟩)

/-- All types but the entry point, which looks at what was defined. -/
theorem emitters_define : ∀ t ∈ Catalog.blockTypes, t.typeId = .text entryType ∨ Demanding t := by
  simp only [Catalog.blockTypes, List.forall_mem_cons]
  refine ⟨.inl trivial,
    .inr ⟨Arduino.delay, rfl, fun _ _ _ _ => .of_eq (.field fun _ _ => .done) rfl⟩,
    .inr ⟨Arduino.serialBegin, rfl, fun _ _ _ _ => .of_eq (.field fun _ _ => .done) rfl⟩,
    .inr ⟨Arduino.serialPrint, rfl, fun _ _ _ _ => .of_eq (.operandText fun _ => .done) rfl⟩,
    .inr ⟨Arduino.ledBuiltin, rfl, fun _ _ _ _ => .of_eq (.define (.field fun _ _ => .done)) rfl⟩,
    .inr ⟨Arduino.analogRead, rfl, fun _ _ _ _ => .of_eq (.field fun _ _ => .done) rfl⟩,
    .inr ⟨Arduino.pinMode, rfl, fun _ _ _ _ =>
      .of_eq (.field fun _ _ => .field fun _ _ => .done) rfl⟩,
    .inr ⟨Arduino.digitalWrite, rfl, fun _ _ _ _ =>
      .of_eq digitalWrite_defines (List.append_nil _)⟩,
    .inr ⟨Arduino.analogWrite, rfl, fun _ _ _ _ => .of_eq analogWrite_defines (List.append_nil _)⟩,
    .inr ⟨Arduino.digitalRead, rfl, fun _ _ _ _ => .of_eq digitalRead_defines (List.append_nil _)⟩,
    .inr ⟨Arduino.temperatureRead, rfl, fun _ _ _ _ => .of_eq (.useHts .done) rfl⟩,
    .inr ⟨Arduino.humidityRead, rfl, fun _ _ _ _ => .of_eq (.useHts .done) rfl⟩,
    .inr ⟨Arduino.sensorBegin, rfl, fun _ _ _ _ =>
      .of_eq (sensorBegin_defines rfl) (List.append_nil _)⟩,
    .inr ⟨Arduino.imuRead, rfl, fun _ _ _ _ => .of_eq imuRead_defines rfl⟩,
    .inr ⟨Arduino.imuBegin, rfl, fun _ _ _ _ => .of_eq (.useImu .done) rfl⟩,
    .inr ⟨Arduino.microphoneRead, rfl, fun _ _ _ _ => .of_eq (.useMicrophone .done) rfl⟩,
    .inr ⟨Arduino.text, rfl, fun _ _ _ _ => .of_eq (.textField fun _ => .done) rfl⟩,
    .inr ⟨Arduino.mathNumber, rfl, fun _ _ _ _ => .of_eq mathNumber_defines rfl⟩,
    .inr ⟨Arduino.mathArithmetic, rfl, fun _ _ _ _ =>
      .of_eq (.chosen fun _ => binary_defines) rfl⟩,
    .inr ⟨Arduino.logicBoolean, rfl, fun _ _ _ _ => .of_eq (.field fun _ _ => .done) rfl⟩,
    .inr ⟨Arduino.logicCompare, rfl, fun _ _ _ _ => .of_eq (.chosen fun _ => binary_defines) rfl⟩,
    .inr ⟨Arduino.logicOperation, rfl, fun _ _ _ _ => .of_eq logicOperation_defines rfl⟩,
    .inr ⟨Arduino.logicNegate, rfl, fun _ _ _ _ => .of_eq (.operandText fun _ => .done) rfl⟩,
    .inr ⟨Arduino.controlsIf, rfl, fun _ _ _ hempty =>
      .of_eq (controlsIf_defines (hempty "ELSE" (by simp))) rfl⟩,
    .inr ⟨Arduino.controlsRepeat, rfl, fun _ _ _ _ => .of_eq controlsRepeat_defines rfl⟩,
    .inr ⟨Arduino.controlsWhile, rfl, fun _ _ _ _ =>
      .of_eq (.field fun _ _ => .operandText fun _ => .body fun _ => .done) rfl⟩,
    .inr ⟨Arduino.variablesGet, rfl, fun _ _ _ _ => .of_eq (.variableName fun _ => .done) rfl⟩,
    .inr ⟨Arduino.variablesSet, rfl, fun _ _ _ _ =>
      .of_eq (.variableName fun _ => .operandText fun _ => .done) rfl⟩, by simp⟩

-- ---------------------------------------------------------------------------
-- Sockets
-- ---------------------------------------------------------------------------

/-- Where a block is met that is compiled in a role. Who asks for it makes no difference to what it
defines. -/
def Role.Meets : Role → Position → Prop
  | .chain, .statement _ | .operand, .operand _ => True
  | _, _ => False

/-- The code of a block makes the definitions of the steps from the block on. -/
def Adding (w : Workspace) (walked : Position → Ref → List Step)
    (compile : Role → Ref → Gen Code) : Prop :=
  ∀ ⦃role position r run code run'⦄, role.Meets position → compile role r run = .ok (code, run') →
    Adds ((walked position r).flatMap (Step.definitions w)) run run'

def socketDefinitions (w : Workspace) (walked : Position → Ref → List Step) (asker : Asker)
    (t : BlockType) (b : Block) (name : Value) : List Definition :=
  ((t.socket? name).toList.flatMap (inSocket walked asker b)).flatMap (Step.definitions w)

section
variable {w : Workspace} {walked : Position → Ref → List Step} {compile : Role → Ref → Gen Code}
  (hcompile : Adding w walked compile) (ht : Catalog.registry.find? v = some t)
include ht

theorem socketDefinitions_mem (asker : Asker) (b : Block) (hs : s ∈ t.sockets) :
    socketDefinitions w walked asker t b s.name =
      (inSocket walked asker b s).flatMap (Step.definitions w) := by
  rw [socketDefinitions, Catalog.registry_regular.socket?_mem ht hs, Option.toList_some,
    List.flatMap_singleton]

theorem flatMap_socketDefinitions (asker : Asker) (b : Block) :
    t.sockets.flatMap (fun s => socketDefinitions w walked asker t b s.name) =
      (t.sockets.flatMap (inSocket walked asker b)).flatMap (Step.definitions w) := by
  rw [List.flatMap_assoc]
  exact List.flatMap_congr fun s hs => socketDefinitions_mem ht asker b hs

include hcompile

theorem operandCode_adds (asker : Asker) (b : Block)
    (h : Generator.operandCode compile b t (.text socket) outer run = .ok (code, run')) :
    Adds (socketDefinitions w walked asker t b (.text socket)) run run' := by
  cases hsocket : t.socket? (.text socket) with
  | none => simp [Generator.operandCode, hsocket] at h
  | some found =>
    cases found with
    | statement name => simp [Generator.operandCode, hsocket] at h
    | value s =>
      obtain ⟨-, hmem, hname⟩ := Catalog.registry_regular.socket_text ht hsocket
      rw [← hname, socketDefinitions_mem ht asker b hmem, inSocket, hname]
      cases hchild : b.input? (.text socket) with
      | none =>
        rw [Generator.operandCode_empty hsocket hchild] at h
        obtain ⟨-, rfl⟩ := gen_pure_ok.mp h
        exact .nil run'
      | some child =>
        rw [Generator.operandCode_child hsocket hchild] at h
        simp only [gen_bind_ok, Generator.askedBy, mapError_ok] at h
        obtain ⟨inner, mid, hinner, h⟩ := h
        have hposition : Role.Meets .operand (.operand asker) := trivial
        have hadds := hcompile hposition hinner
        have hsame : run' = mid := by
          split at h
          · exact (gen_pure_ok.mp h).2
          · obtain ⟨text, htext, -⟩ := gen_map_ok.mp h
            exact (orRaise_ok.mp htext).2
        rw [hsame, Option.toList_some, List.flatMap_singleton]
        exact hadds

theorem bodyCode_adds (g : Generator) (asker : Asker) (b : Block)
    (h : g.bodyCode compile b t (.text socket) run = .ok (code, run')) :
    Adds (socketDefinitions w walked asker t b (.text socket)) run run' := by
  cases hsocket : t.socket? (.text socket) with
  | none => simp [Generator.bodyCode, hsocket] at h
  | some found =>
    cases found with
    | value s => simp [Generator.bodyCode, hsocket] at h
    | statement name =>
      obtain ⟨-, hmem, hname⟩ := Catalog.registry_regular.socket_text ht hsocket
      rw [← hname, socketDefinitions_mem ht asker b hmem, inSocket, hname]
      simp only [Generator.bodyCode, hsocket, Generator.childOf, Generator.requireKey_text,
        pure_bind] at h
      cases hchild : b.input? (.text socket) with
      | none =>
        rw [hchild] at h
        obtain ⟨-, rfl⟩ := gen_pure_ok.mp h
        exact .nil run'
      | some child =>
        simp only [hchild, gen_bind_ok, Generator.askedBy, mapError_ok] at h
        obtain ⟨inner, mid, hinner, h⟩ := h
        obtain ⟨-, rfl⟩ := orRaise_ok.mp h
        have hposition : Role.Meets .chain (.statement (some asker)) := trivial
        rw [Option.toList_some, List.flatMap_singleton]
        exact hcompile hposition hinner

end

-- ---------------------------------------------------------------------------
-- Blocks
-- ---------------------------------------------------------------------------

section
variable {operand : Value → Order → Gen Value} {body : Value → Gen String}
  {complain : Complaint → Fault}

theorem declareVariables_adds
    (hvalid : ∀ v ∈ names, ∃ s, v = .text s ∧ isVariableName s = true)
    (hrun : (Arduino.declareVariables names).run operand body complain run = .ok (u, run')) :
    run' = { run with
      definitions :=
        ((nameTexts names).map declaration).foldl Definitions.add run.definitions } := by
  induction names generalizing run with
  | nil => exact (gen_pure_ok.mp hrun).2
  | cons v names ih =>
    obtain ⟨⟨name, rfl, hname⟩, hrest⟩ := List.forall_mem_cons.mp hvalid
    rw [declareVariables_cons hname] at hrun
    exact ih hrest hrun

/-- The text of a sketch: what stands before its two functions, what the first one starts with, and
the bodies. -/
def sketchText (globals calls setupCode loopCode : String) : String :=
  (if globals.isEmpty then globals else globals ++ "\n") ++ "void setup() " ++
    Arduino.braces (calls ++ setupCode) ++ "\n\n" ++ "void loop() " ++ Arduino.braces loopCode ++
    "\n"

/-- An entry point asks for its two sockets, declares all variables, and puts the definitions of
each placement together. -/
theorem entryPoint_ok {site : Site} (hindent : site.indent = .text margin)
    (hrun : (Arduino.entryPoint site).run operand body complain run = .ok (yield, run')) :
    ∃ setupCode mid loopCode last globals calls,
      body "SETUP" run = .ok (setupCode, mid) ∧ body "LOOP" mid = .ok (loopCode, last) ∧
      Adds ((nameTexts site.variableNames).map declaration) last run' ∧
      run'.definitions.texts (some .global) = globals.map .text ∧
      run'.definitions.texts (some .setup) = calls.map .text ∧
      yield = .statement (sketchText (String.join globals)
        (Text.indent margin (String.join calls)) setupCode loopCode) := by
  have hvalid := entryPoint_names hrun
  simp only [Arduino.entryPoint, run_bind, gen_bind_ok, run_body] at hrun
  obtain ⟨setupCode, mid, hsetup, loopCode, last, hloop, _, run₁, hdeclare, definitions, _,
    hdefined, _, _, hglobals, _, _, hcalls, indented, _, hindented, hrun⟩ := hrun
  obtain ⟨rfl, rfl⟩ := run_defined_ok.mp hdefined
  obtain ⟨rfl, globals, hglobalTexts, rfl⟩ := joined_ok hglobals
  obtain ⟨rfl, calls, hcallTexts, rfl⟩ := joined_ok hcalls
  obtain ⟨hmoved, rfl⟩ := run_orFault_ok.mp hindented
  obtain ⟨rfl, rfl⟩ := gen_pure_ok.mp hrun
  rw [hindent] at hmoved
  obtain rfl := Except.ok.inj hmoved
  have hadds := congrArg Run.definitions (declareVariables_adds hvalid hdeclare)
  exact ⟨setupCode, mid, loopCode, last, globals, calls, hsetup, hloop, hadds, hglobalTexts,
    hcallTexts, rfl⟩

end

/-- What a block adds: what it demands, what its sockets do, and all variables if it is an entry
point. -/
theorem emitBlock_adds {w : Workspace} {walked : Position → Ref → List Step}
    {compile : Role → Ref → Gen Code} (hcompile : Adding w walked compile)
    (h : (arduino margin room).emitBlock w compile calls role r run = .ok (yield, run'))
    (position : Position) :
    ∃ t, Catalog.registry.find? (w.block r).type = some t ∧ t.isStatement = (role == .chain) ∧
      ∀ asker, Adds ((Step.block position r ::
        t.sockets.flatMap (inSocket walked asker (w.block r)) ++
        (if w.isEntry r then [Step.names r] else [])).flatMap (Step.definitions w)) run run' := by
  obtain ⟨t, emitter, ht, hshape, hemitter, hrun⟩ := arduino_emitBlock_ok h
  refine ⟨t, ht, hshape, fun asker => ?_⟩
  -- Marking the block makes no definition.
  show Adds _ { run with visited := r :: run.visited } run'
  obtain ⟨hmem, hid⟩ := Catalog.find?_registry ht
  have hown : Step.definitions w (.block position r) =
      (demand? t (w.block r)).toList.flatMap Demand.definitions := by
    rw [Step.definitions, Step.demand?, ht, Option.bind_some]
  rw [List.flatMap_append, List.flatMap_cons, hown, ← flatMap_socketDefinitions ht asker]
  by_cases hentry : t.typeId = .text entryType
  · have htype := hid.trans hentry
    rw [htype] at ht hemitter
    obtain rfl := entry_emitter hemitter
    obtain ⟨_, mid, _, last, _, _, hsetup, hloop, hnames, -⟩ := entryPoint_ok rfl hrun
    have hdemand : demand? t (w.block r) = none := by rw [demand?, hentry]; rfl
    have hadds := ((bodyCode_adds hcompile ht _ asker _ hsetup).append
      (bodyCode_adds hcompile ht _ asker _ hloop)).append hnames
    have hnested : w.isEntry r = true := by rw [Workspace.isEntry, htype]; rfl
    rw [hdemand, (entry_type ht).1, hnested]
    simpa [Socket.name, Step.definitions] using hadds
  · obtain ⟨_, hfind, hdefines⟩ := (emitters_define t hmem).resolve_left hentry
    rw [← hid, hemitter] at hfind
    obtain rfl := Option.some.inj hfind
    have hplain : w.isEntry r = false := by
      rw [← Bool.not_eq_true]
      simpa [Workspace.isEntry, hid] using hentry
    have hempty : ∀ name, .statement name ∈ t.sockets → (w.block r).input? name = none →
        socketDefinitions w walked asker t (w.block r) name = [] := by
      intro name hname hnone
      have hsocket : socketDefinitions w walked asker t (w.block r) name = _ :=
        socketDefinitions_mem ht asker (w.block r) hname
      rw [hsocket, inSocket, Socket.name, hnone]
      rfl
    rw [hplain, if_neg Bool.false_ne_true, List.flatMap_nil, List.append_nil]
    exact (hdefines _ _ _ hempty).sound (fun _ _ _ _ _ h => operandCode_adds hcompile ht _ _ h)
      (fun _ _ _ _ h => bodyCode_adds hcompile ht _ _ _ h) hrun

/-- The steps may reach further down than the code: a run that ends has not cut anything off. -/
theorem compile_adds {w : Workspace} (hdepth : fuel ≤ depth) :
    Adding w (walk w depth) ((arduino margin room).compile w fuel calls) := by
  induction fuel generalizing depth calls with
  | zero =>
    intro role position r run code run' _ h
    simp [Generator.compile] at h
  | succ fuel ih =>
    obtain ⟨depth, rfl⟩ : ∃ d, depth = d + 1 := ⟨depth - 1, by omega⟩
    have hinner : ∀ calls, Adding w (walk w depth) ((arduino margin room).compile w fuel calls) :=
      fun _ => ih (Nat.le_of_succ_le_succ hdepth)
    intro role position r run code run' hposition h
    cases role with
    | operand =>
      obtain ⟨t, ht, -, hadds⟩ :=
        emitBlock_adds (hinner _) (Generator.compile_operand_ok h) position
      have hchains : position.chains t = false := by
        cases position <;> first | rfl | cases hposition
      rw [walk_succ, ht]
      simpa [hchains] using hadds _
    | chain =>
      obtain ⟨text, mid, hemit, hnext⟩ := Generator.compile_chain_ok h
      obtain ⟨t, ht, -, hadds⟩ := emitBlock_adds (hinner _) hemit position
      have hchains : position.chains t = true := by
        cases position <;> first | rfl | cases hposition
      rw [walk_succ, ht]
      rcases hnext with ⟨hnone, -, rfl⟩ | ⟨next, rest, hsome, hrest, -⟩
      · simpa [hchains, hnone] using hadds _
      · have hnextPosition : Role.Meets .chain (.statement position.asker?) := trivial
        simpa [hchains, hsome] using (hadds _).append (hinner _ hnextPosition hrest)

end BlockSketch.Sketch
