import BlockSketch.Proofs.Sketch.Templates

/-!
# What the built-in emitters write

The marks of a workspace are said here without any code: what each block tells itself, then what is
in its sockets, then what follows it. Every built-in emitter keeps the contract with the marks of
its block.
-/

namespace BlockSketch.Sketch

open Expression (isWord)

-- ---------------------------------------------------------------------------
-- Marks of a workspace
-- ---------------------------------------------------------------------------

def fieldText (t : BlockType) (b : Block) (name : String) : Option String :=
  (fieldValue t b name).toOption.bind Value.text?

def ownMarks (t : BlockType) (b : Block) : List Mark :=
  match t.typeId with
  | .text "controls_setup" => [.program]
  | .text "text" => (fieldText t b "TEXT").toList.map (.text · 0)
  | .text "arduino_analog_read" => (fieldText t b "PIN").toList.map .pin
  | .text "variables_get" | .text "variables_set" => (fieldText t b "VAR").toList.map .use
  | _ => []

def literalMarks (v : Value) : List Mark :=
  (Program.literals ((v.text?.bind Program.tokens).getD [])).map (.text · 0)

/-- What the code in a socket tells, given the marks of the blocks. -/
def insideMarks (marks : Ref → List Mark) (b : Block) : Socket → List Mark
  | .value s =>
    match b.input? s.name with
    | some child => marks child
    | none => literalMarks s.literal
  | .statement name => ((b.input? name).toList.flatMap marks).map Mark.deeper

/-- The marks of a block, of what is in its sockets, and of what follows it; `depth` bounds how far
they reach down. -/
def marks (w : Workspace) : Nat → Ref → List Mark
  | 0, _ => []
  | depth + 1, r =>
    (Catalog.registry.find? (w.block r).type).toList.flatMap fun t =>
      ownMarks t (w.block r) ++ t.sockets.flatMap (insideMarks (marks w depth) (w.block r)) ++
        (if t.isStatement then (w.block r).next.toList.flatMap (marks w depth) else [])

-- ---------------------------------------------------------------------------
-- Emitters
-- ---------------------------------------------------------------------------

section
variable {margin : List Char} {declared : String → Bool} {inside : Value → List Mark} {site : Site}
  (hreserved : ∀ s ∈ Piece.fixedWords, declared s = false)

theorem fieldText_of (h : fieldValue t b name = .ok (.text s)) : fieldText t b name = some s := by
  simp [fieldText, h, Except.toOption, Value.text?]

include hreserved

theorem Piece.framed (ha : Piece.IsClosedTemplate a) (h : Piece margin declared .any ms code)
    (hb : Piece.IsClosedTemplate b)
    (hhead : b.toList.head?.any (fun c => Program.isClosing c && c != '"') = true) :
    Piece margin declared .closed ms (a ++ code ++ b) := by
  have hopen : Piece margin declared .closed [] a := .fixed hreserved ha
  have hclose : Piece margin declared .closed [] b := .fixed hreserved hb
  simpa using (hopen.append h).follow hclose hhead

theorem piece_labelled (hf : site.type.fields.find? name = some (Catalog.labelled choices))
    (hchoices : ∀ c ∈ choices, Piece.IsTemplate c.2)
    (hv : fieldValue site.type site.block name = .ok v) :
    ∃ s, v = .text s ∧ Piece margin declared .any [] s := by
  obtain ⟨c, hc, rfl⟩ := fieldValue_labelled hf hv
  exact ⟨c.2, rfl, .fixedAny hreserved (hchoices c hc)⟩

theorem piece_number (hf : site.type.fields.find? name = some (Catalog.number initial low high))
    (hv : fieldValue site.type site.block name = .ok v) :
    Piece margin declared .any [] (numberLiteral v) := by
  obtain ⟨n, rfl, hfinite, -⟩ := fieldValue_number hf hv
  exact .number hreserved hfinite

theorem delay_writes
    (hf : site.type.fields.find? "TIME" = some (Catalog.number initial low high)) :
    Writes margin declared inside [] (Arduino.delay site) := by
  refine .field fun v hv => .done ?_
  exact .framed hreserved templates.delay (piece_number hreserved hf hv) templates.callEnd rfl

theorem serialBegin_writes (hf : site.type.fields.find? "BAUD" = some (Catalog.labelled choices))
    (hchoices : ∀ c ∈ choices, Piece.IsTemplate c.2) :
    Writes margin declared inside [] (Arduino.serialBegin site) := by
  refine .field fun v hv => .done ?_
  obtain ⟨s, rfl, hpiece⟩ := piece_labelled hreserved hf hchoices hv
  exact .framed hreserved templates.serialBegin hpiece templates.callEnd rfl

theorem serialPrint_writes :
    Writes margin declared inside (inside "TEXT") (Arduino.serialPrint site) := by
  refine .operandText fun code hcode => .done ?_
  exact .framed hreserved templates.serialPrint hcode templates.callEnd rfl

theorem proper_setup (h : Piece.IsClosedTemplate code) :
    Proper margin declared ⟨key, .text code, .setup⟩ :=
  ⟨code, rfl, .fixed hreserved h⟩

omit hreserved in
theorem proper_global (h : IsPreamble code) :
    Proper margin declared ⟨key, .text code, .global⟩ :=
  ⟨code, rfl, h.tokens⟩

theorem piece_call (ha : Piece.IsClosedTemplate a) (hfirst : Piece margin declared .any [] first)
    (hsecond : Piece margin declared .any [] second) :
    Piece margin declared .closed [] (a ++ first ++ ", " ++ second ++ ");\n") := by
  have hopen : Piece margin declared .closed [] (a ++ first ++ ", ") :=
    .framed hreserved ha hfirst templates.comma rfl
  exact (hopen.append hsecond).follow (.fixed hreserved templates.callEnd) rfl

theorem ledBuiltin_writes (hf : site.type.fields.find? "STATE" = some (Catalog.labelled choices))
    (hchoices : ∀ c ∈ choices, Piece.IsTemplate c.2) :
    Writes margin declared inside [] (Arduino.ledBuiltin site) := by
  refine .define (proper_setup hreserved templates.ledMode) (.field fun v hv => .done ?_)
  obtain ⟨s, rfl, hpiece⟩ := piece_labelled hreserved hf hchoices hv
  exact .framed hreserved templates.led hpiece templates.callEnd rfl

theorem analogRead_writes (hf : site.type.fields.find? "PIN" = some (Catalog.labelled choices))
    (hchoices : ∀ c ∈ choices, isWord c.2.toList = true) :
    Writes margin declared inside ((fieldText site.type site.block "PIN").toList.map .pin)
      (Arduino.analogRead site) := by
  refine .field fun v hv => .done ⟨by simp, ?_⟩
  obtain ⟨c, hc, rfl⟩ := fieldValue_labelled hf hv
  rw [fieldText_of hv]
  have hpin : Piece margin declared .any [.pin c.2] c.2 := (Piece.pin (hchoices c hc)).weaken
  exact (Piece.framed hreserved templates.analogRead hpin templates.close rfl).weaken

theorem pinMode_writes
    (hpin : site.type.fields.find? "PIN" = some (Catalog.number initial low high))
    (hmode : site.type.fields.find? "MODE" = some (Catalog.labelled choices))
    (hchoices : ∀ c ∈ choices, Piece.IsTemplate c.2) :
    Writes margin declared inside [] (Arduino.pinMode site) := by
  refine .field fun v hv => .field fun v' hv' => .done ?_
  obtain ⟨s, rfl, hpiece⟩ := piece_labelled hreserved hmode hchoices hv'
  exact piece_call hreserved templates.pinMode (piece_number hreserved hpin hv) hpiece

theorem Writes.setPinMode (hpin : Piece margin declared .any [] pin)
    (hmode : Piece.IsTemplate mode) (h : Writes margin declared inside ms (k ())) :
    Writes margin declared inside ms (Arduino.setPinMode pin mode >>= k) :=
  .define ⟨_, rfl, piece_call hreserved templates.pinMode hpin (.fixedAny hreserved hmode)⟩ h

theorem digitalWrite_writes
    (hpin : site.type.fields.find? "PIN" = some (Catalog.number initial low high))
    (hstate : site.type.fields.find? "STATE" = some (Catalog.labelled choices))
    (hchoices : ∀ c ∈ choices, Piece.IsTemplate c.2) :
    Writes margin declared inside [] (Arduino.digitalWrite site) := by
  refine .field fun v hv => ?_
  have hpiece : Piece margin declared .any [] (numberLiteral v) := piece_number hreserved hpin hv
  refine .setPinMode hreserved hpiece templates.output (.field fun v' hv' => .done ?_)
  obtain ⟨s, rfl, hstate⟩ := piece_labelled hreserved hstate hchoices hv'
  exact piece_call hreserved templates.digitalWrite hpiece hstate

theorem analogWrite_writes
    (hpin : site.type.fields.find? "PIN" = some (Catalog.number initial low high))
    (hvalue : site.type.fields.find? "VALUE" = some (Catalog.number initial' low' high')) :
    Writes margin declared inside [] (Arduino.analogWrite site) := by
  refine .field fun v hv => ?_
  have hpiece : Piece margin declared .any [] (numberLiteral v) := piece_number hreserved hpin hv
  refine .setPinMode hreserved hpiece templates.output (.field fun v' hv' => .done ?_)
  exact piece_call hreserved templates.analogWrite hpiece (piece_number hreserved hvalue hv')

theorem digitalRead_writes
    (hpin : site.type.fields.find? "PIN" = some (Catalog.number initial low high)) :
    Writes margin declared inside [] (Arduino.digitalRead site) := by
  refine .field fun v hv => ?_
  have hpiece : Piece margin declared .any [] (numberLiteral v) := piece_number hreserved hpin hv
  refine .setPinMode hreserved hpiece templates.input (.done ⟨by simp, ?_⟩)
  exact (Piece.framed hreserved templates.digitalRead hpiece templates.close rfl).weaken

theorem Writes.useHts (h : Writes margin declared inside ms (k ())) :
    Writes margin declared inside ms (Arduino.useHts >>= k) :=
  .define (proper_global templates.htsHeader) (.define (proper_global templates.htsFunctions)
    (.define (proper_setup hreserved templates.initHts) h))

theorem Writes.useImu (h : Writes margin declared inside ms (k ())) :
    Writes margin declared inside ms (Arduino.useImu >>= k) :=
  .define (proper_global templates.imuHeader) (.define (proper_global templates.imuFunctions)
    (.define (proper_setup hreserved templates.initImu) h))

theorem Writes.useMicrophone (h : Writes margin declared inside ms (k ())) :
    Writes margin declared inside ms (Arduino.useMicrophone >>= k) :=
  .define (proper_global templates.microphoneHeader)
    (.define (proper_global templates.microphoneBuffer)
      (.define (proper_global templates.microphoneFunctions)
        (.define (proper_setup hreserved templates.initMicrophone) h)))

theorem temperatureRead_writes : Writes margin declared inside [] (Arduino.temperatureRead site) :=
  .useHts hreserved (.done ⟨by decide, .fixedAny hreserved templates.temperature⟩)

theorem humidityRead_writes : Writes margin declared inside [] (Arduino.humidityRead site) :=
  .useHts hreserved (.done ⟨by decide, .fixedAny hreserved templates.humidity⟩)

theorem sensorBegin_writes : Writes margin declared inside [] (Arduino.sensorBegin site) := by
  refine .field fun v _ => ?_
  dsimp only
  split
  · exact .useMicrophone hreserved (.done .empty)
  · exact .useHts hreserved (.done .empty)

theorem imuRead_writes : Writes margin declared inside [] (Arduino.imuRead site) := by
  refine .useImu hreserved (.textField fun s _ => ?_)
  split
  · rename_i i _
    have hindex : Piece margin declared .any [] (toString i) :=
      .numeral (Expression.isNumeral_toString i)
    refine .done ⟨by simp, ?_⟩
    exact (Piece.framed hreserved templates.acceleration hindex templates.close rfl).weaken
  · exact .complain

theorem imuBegin_writes : Writes margin declared inside [] (Arduino.imuBegin site) :=
  .useImu hreserved (.done .empty)

theorem microphoneRead_writes : Writes margin declared inside [] (Arduino.microphoneRead site) :=
  .useMicrophone hreserved (.done ⟨by decide, .fixedAny hreserved templates.sample⟩)

omit hreserved in
theorem text_writes : Writes margin declared inside
    ((fieldText site.type site.block "TEXT").toList.map (.text · 0)) (Arduino.text site) := by
  refine .textField fun s hs => .done ⟨?_, ?_⟩
  · simp [stringLiteral, stringLiteralChars]
  · rw [fieldText_of hs]
    exact (Piece.text s).weaken

omit hreserved in
theorem ne_empty_of_numeral (h : Expression.isNumeral s.toList = true) : s ≠ "" := by
  rintro rfl
  cases h

theorem mathNumber_writes
    (hf : site.type.fields.find? "NUM" = some (Catalog.number initial low high)) :
    Writes margin declared inside [] (Arduino.mathNumber site) := by
  refine .field fun v hv => ?_
  have hpiece : Piece margin declared .any [] (numberLiteral v) := piece_number hreserved hf hv
  obtain ⟨n, rfl, hfinite, -⟩ := fieldValue_number hf hv
  refine .done ⟨?_, hpiece⟩
  have hcases := Expression.numeral_cases hfinite
  rw [Expression.numberLiteral_eq]
  split at hcases
  · rw [hcases.1]
    simp
  · exact ne_empty_of_numeral hcases

theorem binary_writes (hoperator : Piece.IsTemplate operator) :
    Writes margin declared inside (inside "A" ++ inside "B") (Arduino.binary operator order) := by
  refine .operandText fun left hleft => .operandText fun right hright => .done ⟨by simp, ?_⟩
  have hblank : Piece margin declared .closed [] " " := .fixed hreserved templates.blank
  have hsign : Piece margin declared .any [] operator := .fixedAny hreserved hoperator
  simpa using (((hleft.follow hblank rfl).append hsign).follow hblank rfl).append hright

theorem logicBoolean_writes : Writes margin declared inside [] (Arduino.logicBoolean site) := by
  refine .field fun v _ => .done ?_
  split
  · exact ⟨by decide, .fixedAny hreserved templates.yes⟩
  · exact ⟨by decide, .fixedAny hreserved templates.no⟩

theorem chosen_writes {table : Assoc (String × Order)}
    (htable : ∀ e ∈ table, Piece.IsTemplate e.2.1) :
    Writes margin declared inside (inside "A" ++ inside "B") (do
      let (operator, order) ← Arduino.chosen site "OP" table
      Arduino.binary operator order) :=
  .chosen fun _ _ ha => binary_writes hreserved (htable _ (Assoc.find?_mem ha))

theorem logicOperation_writes :
    Writes margin declared inside (inside "A" ++ inside "B") (Arduino.logicOperation site) := by
  refine .field fun v _ => ?_
  split
  · exact binary_writes hreserved templates.both
  · exact binary_writes hreserved templates.either

theorem Piece.negated (h : Piece margin declared .any ms code) :
    Piece margin declared .any ms ("!" ++ code) := by
  have hsign : Piece margin declared .closed [] "!" := .fixed hreserved templates.bang
  exact hsign.append h

theorem logicNegate_writes :
    Writes margin declared inside (inside "BOOL") (Arduino.logicNegate site) :=
  .operandText fun _ hcode => .done ⟨by simp, hcode.negated hreserved⟩

theorem controlsIf_writes (helse : site.block.input? "ELSE" = none → inside "ELSE" = []) :
    Writes margin declared inside (inside "IF0" ++ inside "DO0" ++ inside "ELSE")
      (Arduino.controlsIf site) := by
  refine .operandText fun condition hcondition => .body fun yes hyes => ?_
  have hend : Piece margin declared .closed [] "\n" := .fixed hreserved templates.feed
  have hhead : Piece margin declared .closed (inside "IF0") ("if (" ++ condition ++ ") ") :=
    .framed hreserved templates.ifHead hcondition templates.headEnd rfl
  have hthen := hhead.append hyes.braces
  cases hno : site.block.input? "ELSE" with
  | none =>
    rw [helse hno, List.append_nil]
    exact .done (by simpa [Yields] using hthen.append hend)
  | some _ =>
    refine .body fun no hno => .done ?_
    have hword : Piece margin declared .closed [] " else " := .fixed hreserved templates.elseHead
    simpa [Yields] using ((hthen.append hword).append hno.braces).append hend

/-- The head of a loop: what a counter starts with, and its limit. -/
theorem piece_loop (hcounter : Piece margin declared .name [] counter)
    (hinit : Piece margin declared .any ms init) (hlimit : Piece margin declared .any ms' limit)
    (hbranch : Piece margin declared .closed ms'' branch) :
    Piece margin declared .closed (ms ++ ms' ++ ms'')
      ("for (int " ++ init ++ "; " ++ counter ++ " < " ++ limit ++ "; " ++ counter ++ "++) " ++
        Arduino.braces branch ++ "\n") := by
  have hsemicolon : Piece margin declared .closed [] "; " := .fixed hreserved templates.semicolon
  have hless : Piece margin declared .closed [] " < " := .fixed hreserved templates.less
  have hnext : Piece margin declared .closed [] "++) " := .fixed hreserved templates.increment
  have hend : Piece margin declared .closed [] "\n" := .fixed hreserved templates.feed
  have hinit : Piece margin declared .closed ms ("for (int " ++ init ++ "; ") :=
    .framed hreserved templates.forHead hinit templates.semicolon rfl
  have hlimit := (((hinit.append hcounter).follow hless rfl).append hlimit).follow hsemicolon rfl
  simpa using (((hlimit.append hcounter).follow hnext rfl).append hbranch.braces).append hend

theorem controlsRepeat_writes :
    Writes margin declared inside (inside "TIMES" ++ inside "DO")
      (Arduino.controlsRepeat site) := by
  refine .operand fun times htimes => .body fun branch hbranch => ?_
  refine .freshText rfl fun counter hword hfree => ?_
  have hcounter : Piece margin declared .name [] counter := .quietWord hword hfree
  have hzero : Piece margin declared .any [] " = 0" := .fixedAny hreserved templates.zero
  dsimp only
  split
  · have hinit := hcounter.follow hzero rfl
    exact .done (by simpa [Yields] using piece_loop hreserved hcounter hinit htimes hbranch)
  · refine .freshText rfl fun limit hword' hfree' => .done ?_
    have hlimit : Piece margin declared .name [] limit := .quietWord hword' hfree'
    have hcomma : Piece margin declared .closed [] " = 0, " := .fixed hreserved templates.zeroes
    have hequals : Piece margin declared .closed [] " = " := .fixed hreserved templates.equals
    have hinit := (((hcounter.follow hcomma rfl).append hlimit).follow hequals rfl).append htimes
    simpa [Yields] using piece_loop hreserved hcounter hinit hlimit.weaken hbranch

theorem controlsWhile_writes :
    Writes margin declared inside (inside "BOOL" ++ inside "DO") (Arduino.controlsWhile site) := by
  refine .field fun mode _ => .operandText fun condition hcondition => ?_
  refine .body fun branch hbranch => ?_
  have hend : Piece margin declared .closed [] "\n" := .fixed hreserved templates.feed
  have hasked : Piece margin declared .any (inside "BOOL")
      (if mode.same (.text "UNTIL") then "!" ++ condition else condition) := by
    split
    · exact hcondition.negated hreserved
    · exact hcondition
  have hhead : Piece margin declared .closed (inside "BOOL")
      ("while (" ++ (if mode.same (.text "UNTIL") then "!" ++ condition else condition) ++ ") ") :=
    .framed hreserved templates.whileHead hasked templates.headEnd rfl
  exact .done (by simpa [Yields] using (hhead.append hbranch.braces).append hend)

omit hreserved in
theorem ne_empty_of_variable (h : isVariableName s = true) : s ≠ "" := by
  rintro rfl
  cases h

omit hreserved in
theorem variablesGet_writes : Writes margin declared inside
    ((fieldText site.type site.block "VAR").toList.map .use) (Arduino.variablesGet site) := by
  refine .variableName fun s hs hvalid => .done ⟨ne_empty_of_variable hvalid, ?_⟩
  rw [fieldText_of hs]
  exact .use hvalid

theorem variablesSet_writes : Writes margin declared inside
    ((fieldText site.type site.block "VAR").toList.map .use ++ inside "VALUE")
      (Arduino.variablesSet site) := by
  refine .variableName fun s hs hvalid => .operandText fun value hvalue => .done ?_
  rw [fieldText_of hs]
  have hequals : Piece margin declared .closed [] " = " := .fixed hreserved templates.equals
  have hend : Piece margin declared .closed [] ";\n" := .fixed hreserved templates.statementEnd
  have hname : Piece margin declared .any [.use s] s := .use hvalid
  simpa [Yields] using ((hname.follow hequals rfl).append hvalue).follow hend rfl

end

-- ---------------------------------------------------------------------------
-- All types
-- ---------------------------------------------------------------------------

def Written (t : BlockType) : Prop :=
  ∃ emitter, Arduino.emitters.find? t.typeId = some emitter ∧
    ∀ {margin : List Char} {declared : String → Bool} {inside : Value → List Mark} (b : Block)
      (names : List Value) (indent : Value), (∀ s ∈ Piece.fixedWords, declared s = false) →
      (∀ name, .statement name ∈ t.sockets → b.input? name = none → inside name = []) →
      Writes margin declared inside (ownMarks t b ++ t.sockets.flatMap fun s => inside s.name)
        (emitter ⟨b, t, names, indent⟩)

theorem Writes.of_marks (h : Writes margin declared inside ms p) (heq : ms' = ms) :
    Writes margin declared inside ms' p :=
  heq ▸ h

theorem forall_choice {values : List String} (h : ∀ v ∈ values, Piece.IsTemplate v) :
    ∀ c ∈ values.map fun v => (v, v), Piece.IsTemplate c.2 := by
  intro c hc
  obtain ⟨v, hv, rfl⟩ := List.mem_map.mp hc
  exact h v hv

/-- All types but the entry point, whose program is taken apart in its own way. -/
theorem emitters_written : ∀ t ∈ Catalog.blockTypes, t.typeId = .text entryType ∨ Written t := by
  have hled : ∀ c ∈ [("ON", "HIGH"), ("OFF", "LOW")], Piece.IsTemplate c.2 := by
    simpa using templates.state
  have hpins : ∀ c ∈ ["A0", "A1", "A2", "A3", "A4", "A5"].map fun v => (v, v),
      isWord c.2.toList = true := by decide
  simp only [Catalog.blockTypes, List.forall_mem_cons]
  refine ⟨.inl trivial,
    .inr ⟨Arduino.delay, rfl, fun _ _ _ h _ => .of_marks (delay_writes h rfl) rfl⟩,
    .inr ⟨Arduino.serialBegin, rfl, fun _ _ _ h _ =>
      .of_marks (serialBegin_writes h rfl (forall_choice templates.baud)) rfl⟩,
    .inr ⟨Arduino.serialPrint, rfl, fun _ _ _ h _ =>
      .of_marks (serialPrint_writes h) (List.append_nil _)⟩,
    .inr ⟨Arduino.ledBuiltin, rfl, fun _ _ _ h _ => .of_marks (ledBuiltin_writes h rfl hled) rfl⟩,
    .inr ⟨Arduino.analogRead, rfl, fun _ _ _ h _ =>
      .of_marks (analogRead_writes h rfl hpins) (List.append_nil _)⟩,
    .inr ⟨Arduino.pinMode, rfl, fun _ _ _ h _ =>
      .of_marks (pinMode_writes h rfl rfl (forall_choice templates.mode)) rfl⟩,
    .inr ⟨Arduino.digitalWrite, rfl, fun _ _ _ h _ =>
      .of_marks (digitalWrite_writes h rfl rfl (forall_choice templates.state)) rfl⟩,
    .inr ⟨Arduino.analogWrite, rfl, fun _ _ _ h _ => .of_marks (analogWrite_writes h rfl rfl) rfl⟩,
    .inr ⟨Arduino.digitalRead, rfl, fun _ _ _ h _ => .of_marks (digitalRead_writes h rfl) rfl⟩,
    .inr ⟨Arduino.temperatureRead, rfl, fun _ _ _ h _ => .of_marks (temperatureRead_writes h) rfl⟩,
    .inr ⟨Arduino.humidityRead, rfl, fun _ _ _ h _ => .of_marks (humidityRead_writes h) rfl⟩,
    .inr ⟨Arduino.sensorBegin, rfl, fun _ _ _ h _ => .of_marks (sensorBegin_writes h) rfl⟩,
    .inr ⟨Arduino.imuRead, rfl, fun _ _ _ h _ => .of_marks (imuRead_writes h) rfl⟩,
    .inr ⟨Arduino.imuBegin, rfl, fun _ _ _ h _ => .of_marks (imuBegin_writes h) rfl⟩,
    .inr ⟨Arduino.microphoneRead, rfl, fun _ _ _ h _ => .of_marks (microphoneRead_writes h) rfl⟩,
    .inr ⟨Arduino.text, rfl, fun _ _ _ h _ => .of_marks text_writes (List.append_nil _)⟩,
    .inr ⟨Arduino.mathNumber, rfl, fun _ _ _ h _ => .of_marks (mathNumber_writes h rfl) rfl⟩,
    .inr ⟨Arduino.mathArithmetic, rfl, fun _ _ _ h _ =>
      .of_marks (chosen_writes h templates.arithmetic) (by simp [ownMarks, Socket.name])⟩,
    .inr ⟨Arduino.logicBoolean, rfl, fun _ _ _ h _ => .of_marks (logicBoolean_writes h) rfl⟩,
    .inr ⟨Arduino.logicCompare, rfl, fun _ _ _ h _ =>
      .of_marks (chosen_writes h templates.comparison) (by simp [ownMarks, Socket.name])⟩,
    .inr ⟨Arduino.logicOperation, rfl, fun _ _ _ h _ =>
      .of_marks (logicOperation_writes h) (by simp [ownMarks, Socket.name])⟩,
    .inr ⟨Arduino.logicNegate, rfl, fun _ _ _ h _ =>
      .of_marks (logicNegate_writes h) (List.append_nil _)⟩,
    .inr ⟨Arduino.controlsIf, rfl, fun _ _ _ h hempty =>
      .of_marks (controlsIf_writes h (hempty "ELSE" (by simp))) (by simp [ownMarks, Socket.name])⟩,
    .inr ⟨Arduino.controlsRepeat, rfl, fun _ _ _ h _ =>
      .of_marks (controlsRepeat_writes h) (by simp [ownMarks, Socket.name])⟩,
    .inr ⟨Arduino.controlsWhile, rfl, fun _ _ _ h _ =>
      .of_marks (controlsWhile_writes h) (by simp [ownMarks, Socket.name])⟩,
    .inr ⟨Arduino.variablesGet, rfl, fun _ _ _ h _ =>
      .of_marks variablesGet_writes (List.append_nil _)⟩,
    .inr ⟨Arduino.variablesSet, rfl, fun _ _ _ h _ =>
      .of_marks (variablesSet_writes h) (by simp [ownMarks, Socket.name])⟩, by simp⟩

end BlockSketch.Sketch
