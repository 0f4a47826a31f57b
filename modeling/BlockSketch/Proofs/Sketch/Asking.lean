import BlockSketch.Proofs.Catalog
import BlockSketch.Proofs.Sketch.Walk

/-!
# What emitters ask for

Every built-in emitter looks at all fields of its block before it asks for the code of a socket,
then asks for the code of every socket that holds something, in the order of the sockets, and has
no other complaint apart from the names of variables in the entry point. `Follows` says this of an
emitter; `emitters_follow` goes through the built-in ones.
-/

namespace BlockSketch.Sketch

def Textual (definitions : Definitions) : Prop :=
  ∀ e ∈ definitions, ∃ s, e.2.text = .text s

def Suits (t : BlockType) : Yield → Prop
  | .statement _ => t.isStatement = true
  | .expression _ (.level _) => t.isStatement = false
  | _ => False

/-- An emitter makes some checks, asks for some sockets, and may end in a complaint. -/
inductive Follows (site : Site) : List Check → List Socket → Option String → Emit Yield → Prop
  | done (h : Suits site.type yield) : Follows site [] [] none (.done yield)
  | complain : Follows site [] [] (some text) (.complain (.fault text))
  /-- A check that fails ends the run at once. -/
  | check (hfails : ∀ text, c.complaint site.type site.block site.variableNames = some text →
        p = .complain (.fault text))
      (h : c.complaint site.type site.block site.variableNames = none →
        Follows site cs sockets ending p) : Follows site (c :: cs) sockets ending p
  | operand (h : ∀ code, Follows site [] sockets ending (k (.text code))) :
      Follows site [] (.value s :: sockets) ending (.operand s.name (.level n) k)
  | body (h : ∀ code, Follows site [] sockets ending (k code)) :
      Follows site [] (.statement name :: sockets) ending (.body name k)
  /-- A socket that holds nothing need not be asked for. -/
  | skip (hempty : site.block.input? s.name = none) (h : Follows site [] sockets ending p) :
      Follows site [] (s :: sockets) ending p
  | fresh (h : ∀ name, Follows site [] sockets ending (k name)) :
      Follows site [] sockets ending (.fresh (.text base) k)
  | define (h : Follows site cs sockets ending p) :
      Follows site cs sockets ending (.define ⟨.text key, .text text, placement⟩ p)
  | defined (h : ∀ definitions, Textual definitions →
        Follows site [] sockets ending (k definitions)) :
      Follows site [] sockets ending (.defined k)

namespace Follows

section
variable {site : Site} {sockets : List Socket} {ending : Option String}

theorem field {k : Value → Emit Yield}
    (h : ∀ v, fieldValue site.type site.block name = .ok v → Follows site cs sockets ending (k v)) :
    Follows site (.field name :: cs) sockets ending (Arduino.field site name >>= k) := by
  rw [field_eq]
  cases hv : fieldValue site.type site.block name with
  | error text =>
    refine .check ?_ ?_ <;> simp only [Check.complaint, hv]
    · rintro _ ⟨⟩
      rfl
    · nofun
  | ok v =>
    refine .check ?_ ?_ <;> simp only [Check.complaint, hv]
    · nofun
    · exact fun _ => h v hv

theorem textField {k : String → Emit Yield} {complaint : Value → String}
    (hvalue : ∀ v, fieldValue site.type site.block name = .ok v →
      ∃ s, v = .text s ∧ Follows site cs sockets ending (k s)) :
    Follows site (.field name :: cs) sockets ending
      (Arduino.textField site name complaint >>= k) := by
  rw [Arduino.textField, bind_assoc]
  refine .field fun v hv => ?_
  obtain ⟨s, rfl, hk⟩ := hvalue v hv
  exact hk

theorem chosen {k : α → Emit Yield} {table : Assoc α}
    (hfield : site.type.fields.find? name = some (Catalog.labelled choices))
    (htable : ∀ c ∈ choices, ∃ a, table.find? c.2 = some a ∧
      Follows site cs sockets ending (k a)) :
    Follows site (.field name :: cs) sockets ending (Arduino.chosen site name table >>= k) := by
  rw [Arduino.chosen, bind_assoc]
  refine .field fun v hv => ?_
  obtain ⟨c, hc, rfl⟩ := fieldValue_labelled hfield hv
  obtain ⟨a, ha, hk⟩ := htable c hc
  simpa [Value.text?, ha] using hk

theorem variableName {k : String → Emit Yield}
    (h : ∀ name, Follows site cs sockets ending (k name)) :
    Follows site (.field "VAR" :: .variable :: cs) sockets ending
      (Arduino.variableName site >>= k) := by
  rw [Arduino.variableName, bind_assoc]
  refine .field fun v hv => ?_
  refine .check ?_ ?_ <;> simp only [Check.complaint, hv, ← Option.isSome_filter]
  · intro text htext
    cases hin : v.isIn site.variableNames with
    | false =>
      simp only [hin, Bool.not_false, if_true, Option.some.injEq] at htext ⊢
      subst htext
      rfl
    | true =>
      cases hname : v.text?.filter isVariableName with
      | some name => simp [hin, hname] at htext
      | none =>
        simp only [hin, hname, Bool.not_true, Bool.false_eq_true, if_false, Option.isSome_none,
          Option.some.injEq] at htext ⊢
        subst htext
        rfl
  · intro hnone
    cases hin : v.isIn site.variableNames with
    | false => simp [hin] at hnone
    | true =>
      cases hname : v.text?.filter isVariableName with
      | some name => exact h name
      | none => simp [hin, hname] at hnone

theorem operandText {k : String → Emit Yield} (hname : s.name = .text socket)
    (h : ∀ code, Follows site [] sockets ending (k code)) :
    Follows site [] (.value s :: sockets) ending
      (Arduino.operandText socket (.level n) >>= k) := by
  have hoperand : Follows site [] (.value s :: sockets) ending
      (.operand s.name (.level n) fun v => k v.plain) := .operand h
  rw [hname] at hoperand
  exact hoperand

theorem declareVariables {k : Unit → Emit Yield} (names : List Value)
    (h : Follows site [] [] none (k ())) :
    Follows site [] [] (nameComplaint names) (Arduino.declareVariables names >>= k) := by
  induction names with
  | nil => exact h
  | cons v names ih =>
    rw [Arduino.declareVariables, nameComplaint_cons, ← Option.isSome_filter]
    cases v.text?.filter isVariableName with
    | none => exact .complain
    | some name => exact .define ih

theorem joined {k : String → Emit Yield} (hdefinitions : Textual definitions)
    (h : ∀ code, Follows site cs sockets ending (k code)) :
    Follows site cs sockets ending (Arduino.joined definitions placement >>= k) := by
  have htexts : definitions.texts (some placement) =
      ((definitions.texts (some placement)).map Value.plain).map .text := by
    rw [List.map_map]
    refine (List.map_id _).symm.trans (List.map_congr_left fun v hv => ?_)
    obtain ⟨e, he, rfl⟩ := List.mem_map.mp hv
    obtain ⟨s, hs⟩ := hdefinitions e (List.mem_filter.mp he).1
    simp [hs, Value.plain]
  rw [Arduino.joined, htexts, Field.joinable_texts]
  exact h _

end
end Follows

-- ---------------------------------------------------------------------------
-- The built-in emitters
-- ---------------------------------------------------------------------------

section
variable {site : Site} {s a b : ValueSocket}

section Statements
variable (hshape : site.type.isStatement = true)
include hshape

theorem entryPoint_follows (hindent : site.indent = .text indent) :
    Follows site [] [.statement "SETUP", .statement "LOOP"] (nameComplaint site.variableNames)
      (Arduino.entryPoint site) := by
  refine .body fun setupCode => .body fun loopCode => .declareVariables _ ?_
  refine .defined fun definitions hdefinitions => .joined hdefinitions fun globals => ?_
  dsimp only
  refine .joined hdefinitions fun calls => ?_
  rw [hindent]
  exact .done hshape

theorem delay_follows : Follows site [.field "TIME"] [] none (Arduino.delay site) :=
  .field fun _ _ => .done hshape

theorem serialBegin_follows : Follows site [.field "BAUD"] [] none (Arduino.serialBegin site) :=
  .field fun _ _ => .done hshape

theorem serialPrint_follows (hname : s.name = "TEXT") :
    Follows site [] [.value s] none (Arduino.serialPrint site) :=
  .operandText hname fun _ => .done hshape

theorem ledBuiltin_follows : Follows site [.field "STATE"] [] none (Arduino.ledBuiltin site) :=
  .define (.field fun _ _ => .done hshape)

theorem pinMode_follows :
    Follows site [.field "PIN", .field "MODE"] [] none (Arduino.pinMode site) :=
  .field fun _ _ => .field fun _ _ => .done hshape

theorem digitalWrite_follows :
    Follows site [.field "PIN", .field "STATE"] [] none (Arduino.digitalWrite site) :=
  .field fun _ _ => .define (.field fun _ _ => .done hshape)

theorem analogWrite_follows :
    Follows site [.field "PIN", .field "VALUE"] [] none (Arduino.analogWrite site) :=
  .field fun _ _ => .define (.field fun _ _ => .done hshape)

theorem sensorBegin_follows : Follows site [.field "SENSOR"] [] none (Arduino.sensorBegin site) := by
  refine .field fun sensor _ => ?_
  split
  · exact .define (.define (.define (.define (.done hshape))))
  · exact .define (.define (.define (.done hshape)))

theorem imuBegin_follows : Follows site [] [] none (Arduino.imuBegin site) :=
  .define (.define (.define (.done hshape)))

theorem controlsIf_follows (hname : s.name = "IF0") :
    Follows site [] [.value s, .statement "DO0", .statement "ELSE"] none
      (Arduino.controlsIf site) := by
  refine .operandText hname fun condition => .body fun yes => ?_
  cases helse : site.block.input? "ELSE" with
  | none => exact .skip helse (.done hshape)
  | some no => exact .body fun _ => .done hshape

theorem controlsRepeat_follows (hname : s.name = "TIMES") :
    Follows site [] [.value s, .statement "DO"] none (Arduino.controlsRepeat site) := by
  unfold Arduino.controlsRepeat
  rw [← hname]
  refine .operand fun times => .body fun branch => .fresh fun counter => ?_
  dsimp only
  split
  · exact .done hshape
  · exact .fresh fun _ => .done hshape

theorem controlsWhile_follows (hname : s.name = "BOOL") :
    Follows site [.field "MODE"] [.value s, .statement "DO"] none (Arduino.controlsWhile site) := by
  refine .field fun mode _ => ?_
  cases mode.same (.text "UNTIL") with
  | true => exact .operandText hname fun _ => .body fun _ => .done hshape
  | false => exact .operandText hname fun _ => .body fun _ => .done hshape

theorem variablesSet_follows (hname : s.name = "VALUE") :
    Follows site [.field "VAR", .variable] [.value s] none (Arduino.variablesSet site) :=
  .variableName fun _ => .operandText hname fun _ => .done hshape

end Statements

section Expressions
variable (hshape : site.type.isStatement = false)
include hshape

theorem analogRead_follows : Follows site [.field "PIN"] [] none (Arduino.analogRead site) :=
  .field fun _ _ => .done hshape

theorem digitalRead_follows : Follows site [.field "PIN"] [] none (Arduino.digitalRead site) :=
  .field fun _ _ => .define (.done hshape)

theorem temperatureRead_follows : Follows site [] [] none (Arduino.temperatureRead site) :=
  .define (.define (.define (.done hshape)))

theorem humidityRead_follows : Follows site [] [] none (Arduino.humidityRead site) :=
  .define (.define (.define (.done hshape)))

theorem imuRead_follows (hfield : site.type.fields.find? "AXIS" =
      some (Catalog.labelled [("X", "x"), ("Y", "y"), ("Z", "z")])) :
    Follows site [.field "AXIS"] [] none (Arduino.imuRead site) := by
  refine .define (.define (.define (.textField fun v hv => ?_)))
  obtain ⟨c, hc, rfl⟩ := fieldValue_labelled hfield hv
  refine ⟨c.2, rfl, ?_⟩
  simp only [List.mem_cons, List.not_mem_nil, or_false] at hc
  rcases hc with rfl | rfl | rfl <;> exact .done hshape

theorem microphoneRead_follows : Follows site [] [] none (Arduino.microphoneRead site) :=
  .define (.define (.define (.define (.done hshape))))

theorem text_follows (hfield : site.type.fields.find? "TEXT" = some f) (hkind : f.kind = .text) :
    Follows site [.field "TEXT"] [] none (Arduino.text site) := by
  refine .textField fun v hv => ?_
  obtain ⟨s, rfl⟩ := fieldValue_text hfield (.inl hkind) hv
  exact ⟨s, rfl, .done hshape⟩

theorem mathNumber_follows
    (hfield : site.type.fields.find? "NUM" = some (Catalog.number initial low high)) :
    Follows site [.field "NUM"] [] none (Arduino.mathNumber site) := by
  refine .field fun v hv => ?_
  obtain ⟨n, rfl, -⟩ := fieldValue_number hfield hv
  simp only [Value.number?]
  split <;> exact .done hshape

theorem binary_follows (ha : a.name = "A") (hb : b.name = "B") (operator : String) (n : Nat) :
    Follows site [] [.value a, .value b] none (Arduino.binary operator (.level n)) :=
  .operandText ha fun _ => .operandText hb fun _ => .done hshape

theorem mathArithmetic_follows (ha : a.name = "A") (hb : b.name = "B")
    (hfield : site.type.fields.find? "OP" = some (Catalog.labelled
      [("+", "ADD"), ("-", "MINUS"), ("*", "MULTIPLY"), ("/", "DIVIDE")])) :
    Follows site [.field "OP"] [.value a, .value b] none (Arduino.mathArithmetic site) := by
  refine .chosen hfield ?_
  simp only [List.forall_mem_cons]
  exact ⟨⟨_, rfl, binary_follows hshape ha hb _ _⟩, ⟨_, rfl, binary_follows hshape ha hb _ _⟩,
    ⟨_, rfl, binary_follows hshape ha hb _ _⟩, ⟨_, rfl, binary_follows hshape ha hb _ _⟩, nofun⟩

theorem logicBoolean_follows : Follows site [.field "BOOL"] [] none (Arduino.logicBoolean site) :=
  .field fun _ _ => .done hshape

theorem logicCompare_follows (ha : a.name = "A") (hb : b.name = "B")
    (hfield : site.type.fields.find? "OP" = some (Catalog.labelled
      [("=", "EQ"), ("≠", "NEQ"), ("<", "LT"), ("≤", "LTE"), (">", "GT"), ("≥", "GTE")])) :
    Follows site [.field "OP"] [.value a, .value b] none (Arduino.logicCompare site) := by
  refine .chosen hfield ?_
  simp only [List.forall_mem_cons]
  exact ⟨⟨_, rfl, binary_follows hshape ha hb _ _⟩, ⟨_, rfl, binary_follows hshape ha hb _ _⟩,
    ⟨_, rfl, binary_follows hshape ha hb _ _⟩, ⟨_, rfl, binary_follows hshape ha hb _ _⟩,
    ⟨_, rfl, binary_follows hshape ha hb _ _⟩, ⟨_, rfl, binary_follows hshape ha hb _ _⟩, nofun⟩

theorem logicOperation_follows (ha : a.name = "A") (hb : b.name = "B") :
    Follows site [.field "OP"] [.value a, .value b] none (Arduino.logicOperation site) := by
  refine .field fun v _ => ?_
  split
  · exact binary_follows hshape ha hb _ _
  · exact binary_follows hshape ha hb _ _

theorem logicNegate_follows (hname : s.name = "BOOL") :
    Follows site [] [.value s] none (Arduino.logicNegate site) :=
  .operandText hname fun _ => .done hshape

theorem variablesGet_follows :
    Follows site [.field "VAR", .variable] [] none (Arduino.variablesGet site) :=
  .variableName fun _ => .done hshape

end Expressions

end

/-- Behind its sockets, an entry point looks at the names of all variables. -/
def ending (t : BlockType) (names : List Value) : Option String :=
  if t.typeId.same entryType then nameComplaint names else none

/-- A type has an emitter that makes the checks of the type and asks for all its sockets. -/
def Emitted (t : BlockType) : Prop :=
  ∃ emitter, Arduino.emitters.find? t.typeId = some emitter ∧
    ∀ {site : Site} {indent : String}, site.type = t → site.indent = .text indent →
      Follows site (checks t) t.sockets (ending t site.variableNames) (emitter site)

theorem emitters_follow : ∀ t ∈ Catalog.blockTypes, Emitted t := by
  simp only [Catalog.blockTypes, List.forall_mem_cons]
  refine ⟨⟨_, rfl, fun ht hi => entryPoint_follows (by rw [ht]; rfl) hi⟩,
    ⟨_, rfl, fun ht _ => delay_follows (by rw [ht]; rfl)⟩,
    ⟨_, rfl, fun ht _ => serialBegin_follows (by rw [ht]; rfl)⟩,
    ⟨_, rfl, fun ht _ => serialPrint_follows (by rw [ht]; rfl) rfl⟩,
    ⟨_, rfl, fun ht _ => ledBuiltin_follows (by rw [ht]; rfl)⟩,
    ⟨_, rfl, fun ht _ => analogRead_follows (by rw [ht]; rfl)⟩,
    ⟨_, rfl, fun ht _ => pinMode_follows (by rw [ht]; rfl)⟩,
    ⟨_, rfl, fun ht _ => digitalWrite_follows (by rw [ht]; rfl)⟩,
    ⟨_, rfl, fun ht _ => analogWrite_follows (by rw [ht]; rfl)⟩,
    ⟨_, rfl, fun ht _ => digitalRead_follows (by rw [ht]; rfl)⟩,
    ⟨_, rfl, fun ht _ => temperatureRead_follows (by rw [ht]; rfl)⟩,
    ⟨_, rfl, fun ht _ => humidityRead_follows (by rw [ht]; rfl)⟩,
    ⟨_, rfl, fun ht _ => sensorBegin_follows (by rw [ht]; rfl)⟩,
    ⟨_, rfl, fun ht _ => imuRead_follows (by rw [ht]; rfl) (by rw [ht]; rfl)⟩,
    ⟨_, rfl, fun ht _ => imuBegin_follows (by rw [ht]; rfl)⟩,
    ⟨_, rfl, fun ht _ => microphoneRead_follows (by rw [ht]; rfl)⟩,
    ⟨_, rfl, fun ht _ => text_follows (by rw [ht]; rfl) (by rw [ht]; rfl) rfl⟩,
    ⟨_, rfl, fun ht _ => mathNumber_follows (by rw [ht]; rfl) (by rw [ht]; rfl)⟩,
    ⟨_, rfl, fun ht _ => mathArithmetic_follows (by rw [ht]; rfl) rfl rfl (by rw [ht]; rfl)⟩,
    ⟨_, rfl, fun ht _ => logicBoolean_follows (by rw [ht]; rfl)⟩,
    ⟨_, rfl, fun ht _ => logicCompare_follows (by rw [ht]; rfl) rfl rfl (by rw [ht]; rfl)⟩,
    ⟨_, rfl, fun ht _ => logicOperation_follows (by rw [ht]; rfl) rfl rfl⟩,
    ⟨_, rfl, fun ht _ => logicNegate_follows (by rw [ht]; rfl) rfl⟩,
    ⟨_, rfl, fun ht _ => controlsIf_follows (by rw [ht]; rfl) rfl⟩,
    ⟨_, rfl, fun ht _ => controlsRepeat_follows (by rw [ht]; rfl) rfl⟩,
    ⟨_, rfl, fun ht _ => controlsWhile_follows (by rw [ht]; rfl) rfl⟩,
    ⟨_, rfl, fun ht _ => variablesGet_follows (by rw [ht]; rfl)⟩,
    ⟨_, rfl, fun ht _ => variablesSet_follows (by rw [ht]; rfl) rfl⟩, by simp⟩

end BlockSketch.Sketch
