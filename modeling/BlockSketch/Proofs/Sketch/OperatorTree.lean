import BlockSketch.Proofs.Catalog
import BlockSketch.Proofs.Expression.Numerals
import BlockSketch.Proofs.Sketch.Emit
import BlockSketch.Proofs.Sketch.Names

/-!
# The code of an expression is parsed as the expression

The blocks of an expression form an operator tree, which is said here without any code: what each
type of block stands for, and what an empty socket stands for. A number stands in it as a numeral,
which is read as a number of the same worth (`numeral_read`). The main result, `operand_parsed`,
says that the code in a value socket is parsed as that tree, alone and as an operand in a place of
the order that it was asked for.
-/

namespace BlockSketch.Sketch

open Expression

-- ---------------------------------------------------------------------------
-- Operator trees of blocks
-- ---------------------------------------------------------------------------

/-- A negative number is the negation of its opposite. -/
def numberTree (n : Number) : Tree :=
  if n.less (.int 0) then .unary .neg (.number (numeral n.opposite)) else .number (numeral n)

def arithmetic? : String → Option Binary
  | "ADD" => some .add
  | "MINUS" => some .sub
  | "MULTIPLY" => some .mul
  | "DIVIDE" => some .div
  | _ => none

def comparison? : String → Option Binary
  | "EQ" => some .eq
  | "NEQ" => some .notEq
  | "LT" => some .less
  | "LTE" => some .lessEq
  | "GT" => some .greater
  | "GTE" => some .greaterEq
  | _ => none

def connective? : String → Option Binary
  | "AND" => some .and
  | "OR" => some .or
  | _ => none

def truth? : String → Option Bool
  | "TRUE" => some true
  | "FALSE" => some false
  | _ => none

/-- The acceleration along an axis is asked for by the number of the axis. -/
def axis? : String → Option String
  | "x" => some "0"
  | "y" => some "1"
  | "z" => some "2"
  | _ => none

def literalTree : String → Option Tree
  | "0" => some (.number "0")
  | "true" => some (.boolean true)
  | "false" => some (.boolean false)
  | "\"\"" => some (.text "")
  | _ => none

def sampleTree : Tree :=
  .conditional (.binary .greater (.name "samplesRead") (.number "0"))
    (.index (.name "sampleBuffer") (.number "0")) (.number "0")

/-- What a type of block stands for, given the values of its fields and the trees of its operands. -/
def blockTree (value : String → Option Value) (operand : String → Option Tree) (type : String) :
    Option Tree :=
  let text (name : String) : Option String := (value name).bind Value.text?
  let number (name : String) : Option Number := (value name).bind Value.number?
  let binary (op : Option Binary) : Option Tree := do
    some (.binary (← op) (← operand "A") (← operand "B"))
  match type with
  | "math_number" => (number "NUM").map numberTree
  | "text" => (text "TEXT").map .text
  | "logic_boolean" => ((text "BOOL").bind truth?).map .boolean
  | "variables_get" => (text "VAR").map .name
  | "math_arithmetic" => binary ((text "OP").bind arithmetic?)
  | "logic_compare" => binary ((text "OP").bind comparison?)
  | "logic_operation" => binary ((text "OP").bind connective?)
  | "logic_negate" => (operand "BOOL").map (.unary .not)
  | "arduino_analog_read" => (text "PIN").map fun pin => .call (.name "analogRead") [.name pin]
  | "arduino_digital_read" =>
    (number "PIN").map fun pin => .call (.name "digitalRead") [numberTree pin]
  | "arduino_temperature_read" => some (.call (.member (.name "HTS") "readTemperature") [])
  | "arduino_humidity_read" => some (.call (.member (.name "HTS") "readHumidity") [])
  | "arduino_imu_read" =>
    ((text "AXIS").bind axis?).map fun axis => .call (.name "imuAcceleration") [.number axis]
  | "arduino_microphone_read" => some sampleTree
  | _ => none

def binaryTree (operand : String → Option Tree) (op : Option Binary) : Option Tree := do
  some (.binary (← op) (← operand "A") (← operand "B"))

theorem binaryTree_some {operand : String → Option Tree} (op : Binary) (hl : operand "A" = some l)
    (hr : operand "B" = some r) : binaryTree operand (some op) = some (.binary op l r) := by
  simp only [binaryTree, hl, hr, Option.bind_eq_bind, Option.bind_some]

-- The trees are taken apart type by type, as the match over all types is large.

section
variable (value : String → Option Value) (operand : String → Option Tree)

theorem blockTree_number : blockTree value operand "math_number" =
    ((value "NUM").bind Value.number?).map numberTree := rfl

theorem blockTree_text : blockTree value operand "text" =
    ((value "TEXT").bind Value.text?).map .text := rfl

theorem blockTree_boolean : blockTree value operand "logic_boolean" =
    (((value "BOOL").bind Value.text?).bind truth?).map .boolean := rfl

theorem blockTree_variable : blockTree value operand "variables_get" =
    ((value "VAR").bind Value.text?).map .name := rfl

theorem blockTree_arithmetic : blockTree value operand "math_arithmetic" =
    binaryTree operand (((value "OP").bind Value.text?).bind arithmetic?) := rfl

theorem blockTree_compare : blockTree value operand "logic_compare" =
    binaryTree operand (((value "OP").bind Value.text?).bind comparison?) := rfl

theorem blockTree_operation : blockTree value operand "logic_operation" =
    binaryTree operand (((value "OP").bind Value.text?).bind connective?) := rfl

theorem blockTree_negate : blockTree value operand "logic_negate" =
    (operand "BOOL").map (.unary .not) := rfl

theorem blockTree_analogRead : blockTree value operand "arduino_analog_read" =
    ((value "PIN").bind Value.text?).map fun pin => .call (.name "analogRead") [.name pin] := rfl

theorem blockTree_digitalRead : blockTree value operand "arduino_digital_read" =
    ((value "PIN").bind Value.number?).map fun pin =>
      .call (.name "digitalRead") [numberTree pin] := rfl

theorem blockTree_imuRead : blockTree value operand "arduino_imu_read" =
    (((value "AXIS").bind Value.text?).bind axis?).map fun axis =>
      .call (.name "imuAcceleration") [.number axis] := rfl

end

/-- The tree of the block in a socket, or that of the socket's literal. -/
def operandTree (tree : Ref → Option Tree) (b : Block) (t : BlockType) (socket : String) :
    Option Tree :=
  match t.socket? (.text socket) with
  | some (.value s) =>
    match b.input? (.text socket) with
    | some child => tree child
    | none => s.literal.text?.bind literalTree
  | _ => none

/-- The operator tree of a block; `depth` bounds how far it reaches down. -/
def operatorTree (w : Workspace) : Nat → Ref → Option Tree
  | 0, _ => none
  | depth + 1, r => do
    let b := w.block r
    let t ← Catalog.registry.find? b.type
    blockTree (fun name => (fieldValue t b name).toOption)
      (operandTree (operatorTree w depth) b t) (← b.type.text?)

-- ---------------------------------------------------------------------------
-- Places
-- ---------------------------------------------------------------------------

/-- The level up to which code is read as one operand in a place of an order. -/
def operandLevel (outer : Nat) : Nat :=
  min (outer - 1) 15

theorem enclose_phrase {inner : Nat} (h : Phrase code inner t) (hinner : inner ≤ 13) (outer : Nat) :
    ∃ text, enclose code (.level inner) (.level outer) = .ok text ∧
      Phrase text (operandLevel outer) t := by
  simp only [enclose, encloses_level]
  by_cases henclosed : outer ≤ inner ∧ ¬(inner = outer ∧ (outer = 0 ∨ outer = 99))
  · rw [decide_eq_true henclosed]
    exact ⟨_, rfl, (h.enclosed (by omega)).lift (Nat.zero_le _) (Nat.min_le_right _ _)⟩
  · rw [decide_eq_false henclosed]
    refine ⟨code, rfl, h.lift ?_ (Nat.min_le_right _ _)⟩
    unfold operandLevel
    omega

-- ---------------------------------------------------------------------------
-- Emitters of expressions
-- ---------------------------------------------------------------------------

/-- What was produced for a block is a phrase of its tree, given the trees of its operands. -/
def Expresses (site : Site) (trees : String → Option Tree) (type : String) (yield : Yield) : Prop :=
  ∃ code level t, yield = .expression code (.level level) ∧ level ≤ 13 ∧
    blockTree (fun name => (fieldValue site.type site.block name).toOption) trees type = some t ∧
    Phrase code level t

def OperandsAre (operand : Value → Order → Gen Value) (trees : String → Option Tree) : Prop :=
  ∀ socket outer run v run', operand (.text socket) (.level outer) run = .ok (v, run') →
    ∃ code t, v = .text code ∧ trees socket = some t ∧ Phrase code (operandLevel outer) t

section
variable {site : Site} {operand : Value → Order → Gen Value} {body : Value → Gen String}
  {complain : Complaint → Fault} {run run' : Run} {yield : Yield} {trees : String → Option Tree}

theorem number_phrase (hfinite : n.isFinite = true) :
    Phrase (numberLiteral (.number n)) (if n.less (.int 0) then 2 else 0) (numberTree n) := by
  have hcases := numeral_cases hfinite
  rw [numberLiteral_eq]
  unfold numberTree
  split at hcases
  · rename_i hless
    rw [if_pos hless, if_pos hless, hcases.1]
    exact ((Phrase.number hcases.2).lift (Nat.zero_le 1) (by omega)).unary .neg
  · rename_i hless
    rw [if_neg hless, if_neg hless]
    exact .number hcases

theorem mathNumber_expresses (hf : site.type.fields.find? "NUM" = some (Catalog.number i low high))
    (h : (Arduino.mathNumber site).run operand body complain run = .ok (yield, run')) :
    Expresses site trees "math_number" yield := by
  simp only [Arduino.mathNumber, field_eq, run_bind, gen_bind_ok, run_orFault_ok] at h
  obtain ⟨v, mid, ⟨hv, rfl⟩, h⟩ := h
  obtain ⟨n, rfl, hfinite, -⟩ := fieldValue_number hf hv
  simp only [Value.number?, run_pure, gen_pure_ok] at h
  have hphrase := number_phrase hfinite
  refine ⟨_, if n.less (.int 0) then 2 else 0, numberTree n, ?_, by split <;> omega, ?_, hphrase⟩
  · rw [h.1]
    split <;> rfl
  · simp [blockTree_number, hv, Except.toOption, Value.number?]

theorem text_expresses (hf : site.type.fields.find? "TEXT" = some f) (hkind : f.kind = .text)
    (h : (Arduino.text site).run operand body complain run = .ok (yield, run')) :
    Expresses site trees "text" yield := by
  simp only [Arduino.text, Arduino.textField, field_eq, run_bind, gen_bind_ok, run_orFault_ok] at h
  obtain ⟨s, mid, ⟨v, mid', ⟨hv, rfl⟩, hs⟩, h⟩ := h
  obtain ⟨s', rfl⟩ := fieldValue_text hf (.inl hkind) hv
  simp only [run_pure, gen_pure_ok] at h hs
  obtain ⟨rfl, rfl⟩ := hs
  refine ⟨_, 0, .text s, h.1, by omega, ?_, .text s⟩
  simp [blockTree_text, hv, Except.toOption, Value.text?]

theorem logicBoolean_expresses (hf : site.type.fields.find? "BOOL" =
      some (Catalog.labelled [("true", "TRUE"), ("false", "FALSE")]))
    (h : (Arduino.logicBoolean site).run operand body complain run = .ok (yield, run')) :
    Expresses site trees "logic_boolean" yield := by
  simp only [Arduino.logicBoolean, field_eq, run_bind, gen_bind_ok, run_orFault_ok, run_pure,
    gen_pure_ok] at h
  obtain ⟨v, mid, ⟨hv, rfl⟩, rfl, rfl⟩ := h
  obtain ⟨b, hb⟩ : ∃ b : Bool, v = .text (if b then "TRUE" else "FALSE") := by
    obtain ⟨c, hc, rfl⟩ := fieldValue_labelled hf hv
    simp only [List.mem_cons, List.not_mem_nil, or_false] at hc
    rcases hc with rfl | rfl
    · exact ⟨true, rfl⟩
    · exact ⟨false, rfl⟩
  subst hb
  refine ⟨_, 0, .boolean b, ?_, by omega, ?_, .boolean b⟩
  · cases b <;> simp [Order.atomic]
  · cases b <;> simp [blockTree_boolean, hv, Except.toOption, Value.text?, truth?]

theorem isName_variable (h : isVariableName s = true) (hfeed : '\n' ∉ s.toList) : IsName s := by
  rcases isVariableName_iff.mp h with ⟨hword, hfree⟩ | ⟨word, rfl, -⟩
  · exact ⟨hword, wordToken_name (by simpa using hfree)⟩
  · exact (hfeed (by simp)).elim

theorem variablesGet_expresses (hf : site.type.fields.find? "VAR" = some f)
    (hkind : f.kind = .variable)
    (hnames : ∀ s, .text s ∈ site.variableNames → '\n' ∉ s.toList)
    (h : (Arduino.variablesGet site).run operand body complain run = .ok (yield, run')) :
    Expresses site trees "variables_get" yield := by
  simp only [Arduino.variablesGet, Arduino.variableName, field_eq, run_bind, gen_bind_ok,
    run_orFault_ok, run_pure, gen_pure_ok] at h
  obtain ⟨name, mid, ⟨v, mid', ⟨hv, rfl⟩, hname⟩, rfl, rfl⟩ := h
  obtain ⟨s, rfl⟩ := fieldValue_text hf (.inr hkind) hv
  split at hname
  · simp [run_fault] at hname
  · rename_i hin
    simp only [Bool.not_eq_true', Bool.not_eq_false, Value.text_isIn] at hin
    cases hvalid : isVariableName s with
    | false => simp [Value.text?, Option.filter, hvalid, run_fault] at hname
    | true =>
      simp only [Value.text?, Option.filter, hvalid, if_true, run_pure, gen_pure_ok] at hname
      obtain ⟨rfl, rfl⟩ := hname
      refine ⟨_, 0, .name name, rfl, by omega, ?_, .name (isName_variable hvalid (hnames _ hin))⟩
      simp [blockTree_variable, hv, Except.toOption, Value.text?]

theorem binary_phrase (hoperand : OperandsAre operand trees) (op : Binary)
    (h : (Arduino.binary op.sign (.level op.level)).run operand body complain run =
      .ok (yield, run')) :
    ∃ code l r, yield = .expression code (.level op.level) ∧ trees "A" = some l ∧
      trees "B" = some r ∧ Phrase code op.level (.binary op l r) := by
  simp only [Arduino.binary, Arduino.operandText, run_bind, gen_bind_ok, run_operand, run_pure,
    gen_pure_ok] at h
  obtain ⟨_, mid, ⟨v, _, hleft, rfl, rfl⟩, _, _, ⟨v', _, hright, rfl, rfl⟩, rfl, rfl⟩ := h
  obtain ⟨left, l, rfl, hl, hlphrase⟩ := hoperand _ _ _ _ _ hleft
  obtain ⟨right, r, rfl, hr, hrphrase⟩ := hoperand _ _ _ _ _ hright
  have hlevel : operandLevel op.level = op.level - 1 := by
    have := op.level_bounds
    unfold operandLevel
    omega
  rw [hlevel] at hlphrase hrphrase
  exact ⟨_, l, r, rfl, hl, hr, hlphrase.binary op hrphrase⟩

/-- The operator is chosen by a field, out of a table that agrees with what the choices mean. -/
theorem chosen_phrase (meaning : String → Option Binary) (hoperand : OperandsAre operand trees)
    {table : Assoc (String × Order)}
    (hf : site.type.fields.find? "OP" = some (Catalog.labelled choices))
    (htable : ∀ c ∈ choices, ∃ op, meaning c.2 = some op ∧
      table.find? c.2 = some (op.sign, .level op.level))
    (h : (do
      let (sign, order) ← Arduino.chosen site "OP" table
      Arduino.binary sign order : Emit Yield).run operand body complain run = .ok (yield, run')) :
    ∃ s op code l r, fieldValue site.type site.block "OP" = .ok (.text s) ∧ meaning s = some op ∧
      yield = .expression code (.level op.level) ∧ trees "A" = some l ∧ trees "B" = some r ∧
      Phrase code op.level (.binary op l r) := by
  simp only [Arduino.chosen, field_eq, run_bind, gen_bind_ok, run_orFault_ok] at h
  obtain ⟨⟨sign, order⟩, mid, ⟨v, mid', ⟨hv, rfl⟩, hchosen⟩, h⟩ := h
  obtain ⟨c, hc, rfl⟩ := fieldValue_labelled hf hv
  obtain ⟨op, hop, hfind⟩ := htable c hc
  simp only [Value.text?, Option.bind_some, hfind, run_pure, gen_pure_ok, Prod.mk.injEq] at hchosen
  obtain ⟨⟨rfl, rfl⟩, rfl⟩ := hchosen
  obtain ⟨code, l, r, hyield, hl, hr, hphrase⟩ := binary_phrase hoperand op h
  exact ⟨c.2, op, code, l, r, hv, hop, hyield, hl, hr, hphrase⟩

theorem mathArithmetic_expresses (hoperand : OperandsAre operand trees)
    (hf : site.type.fields.find? "OP" = some (Catalog.labelled
      [("+", "ADD"), ("-", "MINUS"), ("*", "MULTIPLY"), ("/", "DIVIDE")]))
    (h : (Arduino.mathArithmetic site).run operand body complain run = .ok (yield, run')) :
    Expresses site trees "math_arithmetic" yield := by
  obtain ⟨s, op, code, l, r, hv, hop, rfl, hl, hr, hphrase⟩ :=
    chosen_phrase arithmetic? hoperand hf (by
      simp only [List.forall_mem_cons]
      exact ⟨⟨.add, rfl, rfl⟩, ⟨.sub, rfl, rfl⟩, ⟨.mul, rfl, rfl⟩, ⟨.div, rfl, rfl⟩, by simp⟩) h
  have := op.level_bounds
  refine ⟨code, op.level, .binary op l r, rfl, by omega, ?_, hphrase⟩
  simp [blockTree_arithmetic, hv, Except.toOption, Value.text?, hop, binaryTree_some op hl hr]

theorem logicCompare_expresses (hoperand : OperandsAre operand trees)
    (hf : site.type.fields.find? "OP" = some (Catalog.labelled
      [("=", "EQ"), ("≠", "NEQ"), ("<", "LT"), ("≤", "LTE"), (">", "GT"), ("≥", "GTE")]))
    (h : (Arduino.logicCompare site).run operand body complain run = .ok (yield, run')) :
    Expresses site trees "logic_compare" yield := by
  obtain ⟨s, op, code, l, r, hv, hop, rfl, hl, hr, hphrase⟩ :=
    chosen_phrase comparison? hoperand hf (by
      simp only [List.forall_mem_cons]
      exact ⟨⟨.eq, rfl, rfl⟩, ⟨.notEq, rfl, rfl⟩, ⟨.less, rfl, rfl⟩, ⟨.lessEq, rfl, rfl⟩,
        ⟨.greater, rfl, rfl⟩, ⟨.greaterEq, rfl, rfl⟩, by simp⟩) h
  have := op.level_bounds
  refine ⟨code, op.level, .binary op l r, rfl, by omega, ?_, hphrase⟩
  simp [blockTree_compare, hv, Except.toOption, Value.text?, hop, binaryTree_some op hl hr]

theorem logicOperation_expresses (hoperand : OperandsAre operand trees)
    (hf : site.type.fields.find? "OP" = some (Catalog.labelled [("and", "AND"), ("or", "OR")]))
    (h : (Arduino.logicOperation site).run operand body complain run = .ok (yield, run')) :
    Expresses site trees "logic_operation" yield := by
  simp only [Arduino.logicOperation, field_eq, run_bind, gen_bind_ok, run_orFault_ok] at h
  obtain ⟨v, mid, ⟨hv, rfl⟩, h⟩ := h
  obtain ⟨op, s, rfl, hop, h⟩ : ∃ op s, v = .text s ∧ connective? s = some op ∧
      (Arduino.binary op.sign (.level op.level)).run operand body complain mid =
        .ok (yield, run') := by
    obtain ⟨c, hc, rfl⟩ := fieldValue_labelled hf hv
    simp only [List.mem_cons, List.not_mem_nil, or_false] at hc
    rcases hc with rfl | rfl
    · exact ⟨.and, _, rfl, rfl, by simpa [Binary.sign, Binary.level, Order.logicalAnd] using h⟩
    · exact ⟨.or, _, rfl, rfl, by simpa [Binary.sign, Binary.level, Order.logicalOr] using h⟩
  obtain ⟨code, l, r, rfl, hl, hr, hphrase⟩ := binary_phrase hoperand op h
  have := op.level_bounds
  refine ⟨code, op.level, .binary op l r, rfl, by omega, ?_, hphrase⟩
  simp [blockTree_operation, hv, Except.toOption, Value.text?, hop, binaryTree_some op hl hr]

theorem logicNegate_expresses (hoperand : OperandsAre operand trees)
    (h : (Arduino.logicNegate site).run operand body complain run = .ok (yield, run')) :
    Expresses site trees "logic_negate" yield := by
  simp only [Arduino.logicNegate, Arduino.operandText, run_bind, gen_bind_ok, run_operand, run_pure,
    gen_pure_ok] at h
  obtain ⟨_, mid, ⟨v, _, hcode, rfl, rfl⟩, rfl, rfl⟩ := h
  obtain ⟨code, t, rfl, ht, hphrase⟩ := hoperand _ _ _ _ _ hcode
  refine ⟨_, 2, .unary .not t, rfl, by omega, ?_, hphrase.unary .not⟩
  simp [blockTree_negate, ht]

theorem analogRead_expresses (hf : site.type.fields.find? "PIN" =
      some (Catalog.choice ["A0", "A1", "A2", "A3", "A4", "A5"]))
    (h : (Arduino.analogRead site).run operand body complain run = .ok (yield, run')) :
    Expresses site trees "arduino_analog_read" yield := by
  simp only [Arduino.analogRead, field_eq, run_bind, gen_bind_ok, run_orFault_ok, run_pure,
    gen_pure_ok] at h
  obtain ⟨v, mid, ⟨hv, rfl⟩, rfl, rfl⟩ := h
  obtain ⟨pin, rfl, hpin⟩ : ∃ pin, v = .text pin ∧ IsName pin := by
    have hall : ∀ c ∈ ["A0", "A1", "A2", "A3", "A4", "A5"].map (fun v => (v, v)), IsName c.2 := by
      decide
    obtain ⟨c, hc, rfl⟩ := fieldValue_labelled hf hv
    exact ⟨c.2, rfl, hall c hc⟩
  refine ⟨_, 1, _, rfl, by omega, ?_, Phrase.call (f := "analogRead") (by decide)
    ((Phrase.name hpin).lift (by omega) (by omega))⟩
  simp [blockTree_analogRead, hv, Except.toOption, Value.text?]

theorem digitalRead_expresses
    (hf : site.type.fields.find? "PIN" = some (Catalog.number i (some 0) high))
    (h : (Arduino.digitalRead site).run operand body complain run = .ok (yield, run')) :
    Expresses site trees "arduino_digital_read" yield := by
  simp only [Arduino.digitalRead, field_eq, run_bind, gen_bind_ok, run_orFault_ok, run_pure,
    gen_pure_ok] at h
  obtain ⟨v, mid, ⟨hv, rfl⟩, _, _, -, rfl, rfl⟩ := h
  obtain ⟨n, rfl, hfinite, hlow⟩ := fieldValue_number hf hv
  have hphrase := number_phrase hfinite
  rw [hlow 0 rfl] at hphrase
  refine ⟨_, 1, _, rfl, by omega, ?_, Phrase.call (f := "digitalRead") (by decide)
    (hphrase.lift (by simp) (by omega))⟩
  simp [blockTree_digitalRead, hv, Except.toOption, Value.number?]

theorem temperatureRead_expresses
    (h : (Arduino.temperatureRead site).run operand body complain run = .ok (yield, run')) :
    Expresses site trees "arduino_temperature_read" yield := by
  simp only [Arduino.temperatureRead, run_bind, gen_bind_ok, run_pure, gen_pure_ok] at h
  obtain ⟨_, _, -, rfl, rfl⟩ := h
  exact ⟨_, 1, _, rfl, by omega, rfl,
    Phrase.method (o := "HTS") (m := "readTemperature") (by decide) (by decide)⟩

theorem humidityRead_expresses
    (h : (Arduino.humidityRead site).run operand body complain run = .ok (yield, run')) :
    Expresses site trees "arduino_humidity_read" yield := by
  simp only [Arduino.humidityRead, run_bind, gen_bind_ok, run_pure, gen_pure_ok] at h
  obtain ⟨_, _, -, rfl, rfl⟩ := h
  exact ⟨_, 1, _, rfl, by omega, rfl,
    Phrase.method (o := "HTS") (m := "readHumidity") (by decide) (by decide)⟩

theorem imuRead_expresses (hf : site.type.fields.find? "AXIS" =
      some (Catalog.labelled [("X", "x"), ("Y", "y"), ("Z", "z")]))
    (h : (Arduino.imuRead site).run operand body complain run = .ok (yield, run')) :
    Expresses site trees "arduino_imu_read" yield := by
  simp only [Arduino.imuRead, Arduino.textField, field_eq, run_bind, gen_bind_ok,
    run_orFault_ok] at h
  obtain ⟨_, _, -, axis, _, ⟨v, _, ⟨hv, rfl⟩, haxis⟩, h⟩ := h
  obtain ⟨s, i, rfl, hs, hindex, hnumeral⟩ : ∃ s i, v = .text s ∧ axis? s = some (toString i) ∧
      Arduino.axisIndex? s = some i ∧ isNumeral (toString i).toList = true := by
    obtain ⟨c, hc, rfl⟩ := fieldValue_labelled hf hv
    simp only [List.mem_cons, List.not_mem_nil, or_false] at hc
    rcases hc with rfl | rfl | rfl
    exacts [⟨_, 0, rfl, rfl, rfl, rfl⟩, ⟨_, 1, rfl, rfl, rfl, rfl⟩, ⟨_, 2, rfl, rfl, rfl, rfl⟩]
  simp only [run_pure, gen_pure_ok] at haxis
  obtain ⟨rfl, rfl⟩ := haxis
  simp only [hindex, run_pure, gen_pure_ok] at h
  refine ⟨_, 1, _, h.1, by omega, ?_, Phrase.call (f := "imuAcceleration") (by decide)
    ((Phrase.number hnumeral).lift (by omega) (by omega))⟩
  simp [blockTree_imuRead, hv, Except.toOption, Value.text?, hs]

theorem microphoneRead_expresses
    (h : (Arduino.microphoneRead site).run operand body complain run = .ok (yield, run')) :
    Expresses site trees "arduino_microphone_read" yield := by
  simp only [Arduino.microphoneRead, run_bind, gen_bind_ok, run_pure, gen_pure_ok] at h
  obtain ⟨_, _, -, rfl, rfl⟩ := h
  have hzero : Phrase "0" 0 (.number "0") := .number rfl
  have hread : Phrase "samplesRead" 0 (.name "samplesRead") := .name (by decide)
  have hcondition := (hread.lift (by decide) (by decide)).binary .greater
    (hzero.lift (by decide) (by decide))
  have hsample : Phrase ("sampleBuffer" ++ "[" ++ "0" ++ "]") 1 (.index (.name "sampleBuffer")
      (.number "0")) := .index (by decide) (hzero.lift (by decide) (by decide))
  have hphrase := (hcondition.lift (by decide) (by decide)).conditional
    (hsample.lift (by decide) (by decide)) (hzero.lift (by decide) (by decide))
  simp only [Binary.sign, String.reduceAppend] at hphrase
  exact ⟨_, 13, sampleTree, rfl, by omega, rfl, hphrase⟩

end

/-- No name ends in a line feed, so every valid one is a plain identifier. -/
def PlainNames (names : List Value) : Prop :=
  ∀ s, .text s ∈ names → '\n' ∉ s.toList

def EmitsTree (t : BlockType) : Prop :=
  ∃ s emitter, t.typeId = .text s ∧ Arduino.emitters.find? (.text s) = some emitter ∧
    ∀ {site : Site} {operand body complain trees run yield run'}, site.type = t →
      PlainNames site.variableNames → OperandsAre operand trees →
      (emitter site).run operand body complain run = .ok (yield, run') →
      Expresses site trees s yield

theorem emitsTree : ∀ t ∈ Catalog.blockTypes, t.isStatement = false → EmitsTree t := by
  have hno {t : BlockType} (h : true = false) : EmitsTree t := absurd h (by decide)
  simp only [Catalog.blockTypes, List.forall_mem_cons]
  refine ⟨hno, hno, hno, hno, hno, ?analog, hno, hno, hno, ?digital, ?temperature, ?humidity, hno,
    ?imu, hno, ?microphone, ?text, ?number, ?arithmetic, ?boolean, ?compare, ?operation, ?negate,
    hno, hno, hno, ?name, hno, by simp⟩
  case analog =>
    exact fun _ => ⟨_, _, rfl, rfl, fun ht _ _ => analogRead_expresses (by rw [ht]; rfl)⟩
  case digital =>
    exact fun _ => ⟨_, _, rfl, rfl, fun ht _ _ => digitalRead_expresses (by rw [ht]; rfl)⟩
  case temperature => exact fun _ => ⟨_, _, rfl, rfl, fun _ _ _ => temperatureRead_expresses⟩
  case humidity => exact fun _ => ⟨_, _, rfl, rfl, fun _ _ _ => humidityRead_expresses⟩
  case imu => exact fun _ => ⟨_, _, rfl, rfl, fun ht _ _ => imuRead_expresses (by rw [ht]; rfl)⟩
  case microphone => exact fun _ => ⟨_, _, rfl, rfl, fun _ _ _ => microphoneRead_expresses⟩
  case text => exact fun _ => ⟨_, _, rfl, rfl, fun ht _ _ => text_expresses (by rw [ht]; rfl) rfl⟩
  case number =>
    exact fun _ => ⟨_, _, rfl, rfl, fun ht _ _ => mathNumber_expresses (by rw [ht]; rfl)⟩
  case arithmetic =>
    exact fun _ => ⟨_, _, rfl, rfl, fun ht _ ho => mathArithmetic_expresses ho (by rw [ht]; rfl)⟩
  case boolean =>
    exact fun _ => ⟨_, _, rfl, rfl, fun ht _ _ => logicBoolean_expresses (by rw [ht]; rfl)⟩
  case compare =>
    exact fun _ => ⟨_, _, rfl, rfl, fun ht _ ho => logicCompare_expresses ho (by rw [ht]; rfl)⟩
  case operation =>
    exact fun _ => ⟨_, _, rfl, rfl, fun ht _ ho => logicOperation_expresses ho (by rw [ht]; rfl)⟩
  case negate => exact fun _ => ⟨_, _, rfl, rfl, fun _ _ ho => logicNegate_expresses ho⟩
  case name =>
    exact fun _ => ⟨_, _, rfl, rfl, fun ht hn _ => variablesGet_expresses (by rw [ht]; rfl) rfl hn⟩

-- ---------------------------------------------------------------------------
-- Runs
-- ---------------------------------------------------------------------------

theorem literal_phrase : ∀ t ∈ Catalog.blockTypes, ∀ s, Socket.value s ∈ t.sockets →
    ∃ code tree, s.literal = .text code ∧ literalTree code = some tree ∧ Phrase code 0 tree := by
  have hzero : ∃ tree, literalTree "0" = some tree ∧ Phrase "0" 0 tree := ⟨_, rfl, .number rfl⟩
  have htrue : ∃ tree, literalTree "true" = some tree ∧ Phrase "true" 0 tree :=
    ⟨_, rfl, .boolean true⟩
  have hfalse : ∃ tree, literalTree "false" = some tree ∧ Phrase "false" 0 tree :=
    ⟨_, rfl, .boolean false⟩
  have htext : ∃ tree, literalTree "\"\"" = some tree ∧ Phrase "\"\"" 0 tree := ⟨_, rfl, .text ""⟩
  simp only [Catalog.blockTypes, List.forall_mem_cons]
  simp [hzero, htrue, hfalse, htext, or_imp, forall_and]

/-- The code in a socket of a built-in block stands in any place as one operand. -/
theorem operandCode_phrase {compile : Role → Ref → Gen Code} {tree : Ref → Option Tree}
    (hcompile : ∀ r run code run', compile .operand r run = .ok (code, run') →
      ∃ level t, code.order = .level level ∧ level ≤ 13 ∧ tree r = some t ∧ Phrase code.text level t)
    (ht : t ∈ Catalog.blockTypes) (b : Block) :
    OperandsAre (Generator.operandCode compile b t) (operandTree tree b t) := by
  intro socket outer run v run' h
  unfold operandTree
  cases hsocket : t.socket? (.text socket) with
  | none => simp [Generator.operandCode, hsocket] at h
  | some found =>
    cases found with
    | statement name => simp [Generator.operandCode, hsocket] at h
    | value s =>
      cases hchild : b.input? (.text socket) with
      | none =>
        rw [Generator.operandCode_empty hsocket hchild] at h
        obtain ⟨rfl, rfl⟩ := gen_pure_ok.mp h
        obtain ⟨code, tree, hliteral, htree, hphrase⟩ :=
          literal_phrase t ht s (List.mem_of_find?_eq_some hsocket)
        refine ⟨code, tree, hliteral, by simp [hliteral, Value.text?, htree], ?_⟩
        exact hphrase.lift (Nat.zero_le _) (Nat.min_le_right _ _)
      | some child =>
        rw [Generator.operandCode_child hsocket hchild] at h
        simp only [gen_bind_ok, Generator.askedBy, mapError_ok] at h
        obtain ⟨code, mid, hcode, h⟩ := h
        obtain ⟨level, tree, horder, hlevel, htree, hphrase⟩ := hcompile _ _ _ _ hcode
        obtain ⟨text, htext, hplaced⟩ := enclose_phrase hphrase hlevel outer
        simp only [hphrase.not_empty, horder, Bool.false_eq_true, if_false, htext,
          Generator.orRaise, gen_map_ok, gen_pure_ok] at h
        obtain ⟨_, ⟨rfl, rfl⟩, rfl⟩ := h
        exact ⟨_, tree, rfl, htree, hplaced⟩

theorem compile_phrase {w : Workspace} (hnames : PlainNames w.variableNames) (indent : Value)
    (room : Option Nat) (depth : Nat) : ∀ calls r run code run',
      Generator.compile ⟨Catalog.registry, Arduino.emitters, indent, room⟩ w depth calls .operand r
        run = .ok (code, run') →
      ∃ level t, code.order = .level level ∧ level ≤ 13 ∧ operatorTree w depth r = some t ∧
        Phrase code.text level t := by
  induction depth with
  | zero => simp [Generator.compile]
  | succ depth ih =>
    intro calls r run code run' h
    obtain ⟨t, emitter, ht, hrole, hemitter, hrun⟩ :=
      Generator.emitBlock_ok (Generator.compile_operand_ok h)
    have hshape : t.isStatement = false := by
      cases hshape : t.isStatement with
      | false => rfl
      | true => simp [hshape] at hrole
    dsimp only at ht
    obtain ⟨hmem, htype⟩ := Catalog.find?_registry ht
    obtain ⟨s, emitter', hs, hemitter', hexpresses⟩ := emitsTree t hmem hshape
    rw [htype, hs, hemitter'] at hemitter
    obtain rfl := Option.some.inj hemitter
    obtain ⟨_, level, tree, hyield, hlevel, htree, hphrase⟩ :=
      hexpresses rfl hnames (operandCode_phrase (ih _) hmem (w.block r)) hrun
    obtain ⟨rfl, horder⟩ := Yield.expression.inj hyield
    refine ⟨level, tree, horder, hlevel, ?_, hphrase⟩
    rw [htype, hs] at ht
    simpa [operatorTree, htype, hs, ht, Value.text?] using htree

/-- Where an operand can stand: the operators of one order around it, with names for the other
operands. -/
inductive Place where
  | assigned (target : String)
  | prefixed (op : Unary)
  | left (op : Binary) (other : String)
  | right (op : Binary) (other : String)
  | between (first second : Binary) (l r : String) (h : second.level = first.level)

namespace Place

def order : Place → Nat
  | .assigned _ => 14
  | .prefixed _ => 2
  | .left op _ | .right op _ | .between op .. => op.level

def names : Place → List String
  | .assigned name | .left _ name | .right _ name => [name]
  | .prefixed _ => []
  | .between _ _ l r _ => [l, r]

def code (text : String) : Place → String
  | .assigned target => target ++ " = " ++ text
  | .prefixed op => op.sign ++ text
  | .left op other => text ++ " " ++ op.sign ++ " " ++ other
  | .right op other => other ++ " " ++ op.sign ++ " " ++ text
  | .between op op' l r _ =>
    l ++ " " ++ op.sign ++ " " ++ (text ++ " " ++ op'.sign ++ " " ++ r)

def tree (t : Tree) : Place → Tree
  | .assigned target => .assign none (.name target) t
  | .prefixed op => .unary op t
  | .left op other => .binary op t (.name other)
  | .right op other => .binary op (.name other) t
  | .between op op' l r _ => .binary op' (.binary op (.name l) t) (.name r)

theorem parse_code {place : Place} (hnames : ∀ s ∈ place.names, IsName s)
    (h : Phrase text (operandLevel place.order) t) :
    parse (place.code text) = some (place.tree t) := by
  have hname : ∀ {s} (level : Nat), IsName s → level ≤ 15 → Phrase s level (.name s) :=
    fun level hs hlevel => (Phrase.name hs).lift (Nat.zero_le _) hlevel
  have hlevel : ∀ op : Binary, operandLevel op.level = op.level - 1 ∧ op.level - 1 ≤ 15 := by
    intro op
    have := op.level_bounds
    unfold operandLevel
    omega
  have hbelow : ∀ op : Binary, op.level ≤ 15 := fun op => by
    have := op.level_bounds
    omega
  cases place with
  | assigned target =>
    have htarget := hname 12 (hnames target (by simp [names])) (by decide)
    have hvalue : Phrase text 14 t := h.lift (show 13 ≤ 14 by decide) (by decide)
    exact (htarget.assigned hvalue).parse (by decide)
  | prefixed op => exact (h.unary op).parse (by decide)
  | left op other =>
    have hother := hname (op.level - 1) (hnames other (by simp [names])) (hlevel op).2
    simp only [order, (hlevel op).1] at h
    exact (h.binary op hother).parse (hbelow op)
  | right op other =>
    have hother := hname (op.level - 1) (hnames other (by simp [names])) (hlevel op).2
    simp only [order, (hlevel op).1] at h
    exact (hother.binary op h).parse (hbelow op)
  | between op op' l r hop =>
    have hleft := hname (op.level - 1) (hnames l (by simp [names])) (hlevel op).2
    have hright := hname (op.level - 1) (hnames r (by simp [names])) (hlevel op).2
    simp only [order, (hlevel op).1] at h
    exact (Phrase.between hop hleft h hright).parse (hbelow op)

end Place

/-- **The code of an operand is parsed as its operator tree.** Where the code in a value socket of a
built-in block is found at all, it is parsed alone as the tree of the blocks in the socket, and in a
place of the order that it was asked for as one operand with that tree. The numerals in the tree are
read as the numbers of the blocks. -/
theorem operand_parsed {w : Workspace} (hnames : PlainNames w.variableNames) (indent : Value)
    (room : Option Nat) (depth calls : Nat) {b : Block} {t : BlockType}
    (ht : Catalog.registry.find? b.type = some t) (socket : String) (outer : Nat) {run run' : Run}
    {v : Value}
    (h : Generator.operandCode
      (Generator.compile ⟨Catalog.registry, Arduino.emitters, indent, room⟩ w depth calls) b t
      (.text socket) (.level outer) run = .ok (v, run')) :
    ∃ text tree, v = .text text ∧ operandTree (operatorTree w depth) b t socket = some tree ∧
      parse text = some tree ∧
      (∀ place : Place, place.order = outer → (∀ s ∈ place.names, IsName s) →
        parse (place.code text) = some (place.tree tree)) ∧
      ∀ n : Number, n.isFinite = true → (∀ x, n = .real x → x.IsCanonical) →
        ∃ m, Json.readNumber (numeral n).toList = .ok (m, []) ∧ m.same n = true := by
  have hcompile := compile_phrase hnames indent room depth calls
  obtain ⟨text, tree, rfl, htree, hphrase⟩ :=
    operandCode_phrase hcompile (Catalog.find?_registry ht).1 b socket outer run v run' h
  refine ⟨text, tree, rfl, htree, hphrase.parse (Nat.min_le_right _ _), ?_, fun _ => numeral_read⟩
  rintro place rfl hplace
  exact Place.parse_code hplace hphrase

/-- A difference whose right operand is a difference, with a negative number and an empty socket. -/
def nestedDifference : Workspace where
  blocks := #[
    { type := "variables_set", id := "set", fields := [("VAR", "x")], inputs := [("VALUE", some 1)] },
    { type := "math_arithmetic", id := "outer", fields := [("OP", "MINUS")]
      inputs := [("A", some 2), ("B", some 3)] },
    { type := "variables_get", id := "get", fields := [("VAR", "x")] },
    { type := "math_arithmetic", id := "inner", fields := [("OP", "MINUS")]
      inputs := [("A", some 4)] },
    { type := "math_number", id := "number", fields := [("NUM", .int (-5))] }]
  roots := [0]
  variableNames := ["x"]

theorem operand_parsed_nested :
    (∃ t run', Catalog.registry.find? (nestedDifference.block 0).type = some t ∧
      Generator.operandCode
        (Generator.compile ⟨Catalog.registry, Arduino.emitters, "  ", none⟩ nestedDifference 6 0)
        (nestedDifference.block 0) t (.text "VALUE") .assignment {} =
          .ok (.text "x - (-5 - 0)", run')) ∧
    parse "x - (-5 - 0)" = some (.binary .sub (.name "x")
      (.binary .sub (.unary .neg (.number "5")) (.number "0"))) ∧
    parse "y = x - (-5 - 0)" = some (.assign none (.name "y") (.binary .sub (.name "x")
      (.binary .sub (.unary .neg (.number "5")) (.number "0")))) := by
  obtain ⟨t, run', ht, hcode, htree⟩ : ∃ t run',
      Catalog.registry.find? (nestedDifference.block 0).type = some t ∧
      Generator.operandCode
        (Generator.compile ⟨Catalog.registry, Arduino.emitters, "  ", none⟩ nestedDifference 6 0)
        (nestedDifference.block 0) t (.text "VALUE") (.level 14) {} =
          .ok (.text "x - (-5 - 0)", run') ∧
      operandTree (operatorTree nestedDifference 6) (nestedDifference.block 0) t "VALUE" =
        some (.binary .sub (.name "x")
          (.binary .sub (.unary .neg (.number "5")) (.number "0"))) := by
    rw [Catalog.registry_eq]
    exact ⟨_, _, rfl, rfl, rfl⟩
  have hnames : PlainNames nestedDifference.variableNames := by simp [PlainNames, nestedDifference]
  obtain ⟨text, tree, htext, htree', hparse, hplace, -⟩ :=
    operand_parsed hnames "  " none 6 0 ht "VALUE" 14 hcode
  cases htext
  obtain rfl := Option.some.inj (htree.symm.trans htree')
  exact ⟨⟨t, run', ht, hcode⟩, hparse, hplace (.assigned "y") rfl (by decide)⟩

end BlockSketch.Sketch
