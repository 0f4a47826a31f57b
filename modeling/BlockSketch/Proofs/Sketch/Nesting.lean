import BlockSketch.Proofs.Sketch.Compiled

/-!
# Nested code

The code of a chain is the codes of its statements one after the other. A statement of the built-in
blocks is empty or ends with a line feed, whatever stands in its sockets, so the chain in a socket
is moved right statement by statement. What is nested deeper is moved right once more for each
level.
-/

namespace BlockSketch.Sketch

open Text (Whole)

-- ---------------------------------------------------------------------------
-- What emitters end in
-- ---------------------------------------------------------------------------

/-- What an emitter ends in satisfies `P`, whatever it is given on the way. -/
inductive Always (P : α → Prop) : Emit α → Prop
  | done (h : P a) : Always P (.done a)
  | complain : Always P (.complain c)
  | operand (h : ∀ code, Always P (k code)) : Always P (.operand socket outer k)
  | body (h : ∀ code, Always P (k code)) : Always P (.body socket k)
  | fresh (h : ∀ name, Always P (k name)) : Always P (.fresh base k)
  | define (h : Always P p) : Always P (.define definition p)
  | warn (h : Always P p) : Always P (.warn warning p)
  | defined (h : ∀ definitions, Always P (k definitions)) : Always P (.defined k)

namespace Always

variable {P : α → Prop}

/-- Only what comes last matters. -/
theorem after {x : Emit β} {f : β → Emit α} (h : ∀ b, Always P (f b)) : Always P (x >>= f) := by
  show Always P (x.bind f)
  induction x with
  | done b => exact h b
  | complain c => exact .complain
  | operand socket outer k ih => exact .operand ih
  | body socket k ih => exact .body ih
  | fresh base k ih => exact .fresh ih
  | define definition k ih => exact .define ih
  | warn warning k ih => exact .warn ih
  | defined k ih => exact .defined ih

theorem ends {operand : Value → Order → Gen Value} {body : Value → Gen String}
    {complain : Complaint → Fault} (h : Always P p)
    (hrun : p.run operand body complain run = .ok (a, run')) : P a := by
  induction h generalizing run with
  | done h =>
    obtain ⟨rfl, -⟩ := gen_pure_ok.mp hrun
    exact h
  | complain => simp [Emit.run] at hrun
  | operand _ ih | body _ ih =>
    obtain ⟨code, _, -, hrun⟩ := gen_bind_ok.mp hrun
    exact ih code hrun
  | fresh _ ih =>
    obtain ⟨_, _, -, hrun⟩ := gen_bind_ok.mp hrun
    exact ih _ hrun
  | define _ ih =>
    obtain ⟨_, _, -, hrun⟩ := gen_bind_ok.mp hrun
    exact ih hrun
  | warn _ ih => exact ih hrun
  | defined _ ih => exact ih _ hrun

end Always

def Yield.IsWhole : Yield → Prop
  | .statement code => Whole code
  | _ => True

/-- All statements that a generator writes are texts of whole lines. -/
def Generator.WritesLines (g : Generator) : Prop :=
  ∀ e ∈ g.emitters, ∀ site, Always Yield.IsWhole (e.2 site)

theorem binary_whole (operator : String) (order : Order) :
    Always Yield.IsWhole (Arduino.binary operator order) :=
  .after fun _ => .after fun _ => .done trivial

theorem sensorBegin_whole (site : Site) : Always Yield.IsWhole (Arduino.sensorBegin site) := by
  refine .after fun v => ?_
  dsimp only
  split <;> exact .after fun _ => .done Text.whole_empty

theorem imuRead_whole (site : Site) : Always Yield.IsWhole (Arduino.imuRead site) := by
  refine .after fun _ => .after fun axis => ?_
  split
  · exact .done trivial
  · exact .complain

theorem mathNumber_whole (site : Site) : Always Yield.IsWhole (Arduino.mathNumber site) := by
  refine .after fun v => ?_
  split
  · exact .done trivial
  · exact .complain

theorem logicOperation_whole (site : Site) :
    Always Yield.IsWhole (Arduino.logicOperation site) := by
  refine .after fun v => ?_
  split <;> exact binary_whole _ _

theorem controlsIf_whole (site : Site) : Always Yield.IsWhole (Arduino.controlsIf site) := by
  refine .after fun condition => .after fun yes => ?_
  dsimp only
  split
  · exact .after fun no => .done (Text.whole_append _ rfl)
  · exact .done (Text.whole_append _ rfl)

theorem controlsRepeat_whole (site : Site) :
    Always Yield.IsWhole (Arduino.controlsRepeat site) := by
  refine .after fun times => .after fun branch => .after fun counter => ?_
  dsimp only
  split
  · split
    · exact .done (Text.whole_append _ rfl)
    · exact .after fun limit => .done (Text.whole_append _ rfl)
  · exact .complain

/-- The other emitters go straight to what they end in. -/
theorem arduino_writesLines (margin : String) (room : Option Nat) :
    (arduino margin room).WritesLines := by
  simp only [Generator.WritesLines, arduino, Arduino.emitters, List.forall_mem_cons]
  refine ⟨fun _ => ?entry, fun _ => ?delay, fun _ => ?serialBegin, fun _ => ?serialPrint,
    fun _ => ?ledBuiltin, fun _ => ?analogRead, fun _ => ?pinMode, fun _ => ?digitalWrite,
    fun _ => ?analogWrite, fun _ => ?digitalRead, fun _ => ?temperatureRead,
    fun _ => ?humidityRead, sensorBegin_whole, imuRead_whole, fun _ => ?imuBegin,
    fun _ => ?microphoneRead, fun _ => ?text, mathNumber_whole, fun _ => ?mathArithmetic,
    fun _ => ?logicBoolean, fun _ => ?logicCompare, logicOperation_whole, fun _ => ?logicNegate,
    controlsIf_whole, controlsRepeat_whole, fun _ => ?controlsWhile, fun _ => ?variablesGet,
    fun _ => ?variablesSet, fun _ he => (List.not_mem_nil he).elim⟩
  case entry =>
    exact .after fun _ => .after fun _ => .after fun _ => .after fun _ => .after fun _ =>
      .after fun _ => .after fun _ => .done (Text.whole_append _ rfl)
  case mathArithmetic | logicCompare => exact .after fun _ => binary_whole _ _
  case delay | serialBegin | serialPrint => exact .after fun _ => .done (Text.whole_append _ rfl)
  case ledBuiltin | pinMode | variablesSet =>
    exact .after fun _ => .after fun _ => .done (Text.whole_append _ rfl)
  case digitalWrite | analogWrite | controlsWhile =>
    exact .after fun _ => .after fun _ => .after fun _ => .done (Text.whole_append _ rfl)
  case imuBegin => exact .after fun _ => .done Text.whole_empty
  case digitalRead => exact .after fun _ => .after fun _ => .done trivial
  all_goals exact .after fun _ => .done trivial

-- ---------------------------------------------------------------------------
-- Chains
-- ---------------------------------------------------------------------------

namespace Generator

variable {g : Generator} {w : Workspace}

/-- The codes of the statements of a chain, one by one. -/
def statements (g : Generator) (w : Workspace) : Nat → Nat → Ref → Gen (List String)
  | 0, _, r => throw (blockFault (w.block r) .revisited)
  | fuel + 1, depth, r => do
    let b := w.block r
    let inner := depth + Role.calls .chain
    match ← g.emitBlock w (g.compile w fuel inner) inner .chain r with
    | .statement text =>
      match b.next with
      | none => pure [text]
      | some next => (text :: ·) <$> g.statements w fuel depth next
    | yield => throw (blockFault b (.notText yield.kindName))

/-- A chain is compiled statement by statement, and fails where one of them does. -/
theorem compile_chain_eq (g : Generator) (w : Workspace) (fuel depth : Nat) (r : Ref) :
    g.compile w fuel depth .chain r = (fun texts => { text := String.join texts }) <$>
      g.statements w fuel depth r := by
  induction fuel generalizing r with
  | zero => rfl
  | succ fuel ih =>
    rw [compile, statements, map_bind]
    congr 1
    funext yield
    cases yield with
    | statement text =>
      cases (w.block r).next with
      | none => simp
      | some next => simp [ih]
    | _ => rfl

theorem statements_whole (hlines : g.WritesLines)
    (h : g.statements w fuel depth r run = .ok (texts, run')) : ∀ text ∈ texts, Whole text := by
  induction fuel generalizing r run texts with
  | zero => simp [statements] at h
  | succ fuel ih =>
    simp only [statements, gen_bind_ok] at h
    obtain ⟨yield, mid, hemit, h⟩ := h
    obtain ⟨t, emitter, -, -, hemitter, hrun⟩ := emitBlock_ok hemit
    obtain ⟨e, he, rfl⟩ := Option.map_eq_some_iff.mp hemitter
    have hwhole := (hlines e (List.mem_of_find?_eq_some he) _).ends hrun
    cases yield with
    | statement text =>
      cases hnext : (w.block r).next with
      | none =>
        simp only [hnext, gen_pure_ok] at h
        obtain ⟨rfl, -⟩ := h
        exact List.forall_mem_singleton.mpr hwhole
      | some next =>
        simp only [hnext, gen_map_ok] at h
        obtain ⟨rest, hrest, rfl⟩ := h
        exact List.forall_mem_cons.mpr ⟨hwhole, ih hrest⟩
    | _ => simp at h

theorem askedBy_map (b : Block) (f : α → β) (x : Gen α) :
    askedBy b (f <$> x) = f <$> askedBy b x := by
  funext run
  show ((x run).bind fun p => .ok (f p.1, p.2)).mapError _ =
    ((x run).mapError _).bind fun p => .ok (f p.1, p.2)
  cases x run <;> rfl

theorem askedBy_ok : askedBy b x run = .ok (a, run') ↔ x run = .ok (a, run') :=
  mapError_ok

theorem gen_bind_congr {x : Gen α} {f k : α → Gen β}
    (h : ∀ a run run', x run = .ok (a, run') → f a run' = k a run') : x >>= f = x >>= k := by
  funext run
  show ((x run).bind fun p => f p.1 p.2) = (x run).bind fun p => k p.1 p.2
  cases hx : x run with
  | error e => rfl
  | ok p => exact h p.1 run p.2 hx

theorem bodyCode_eq_statements (hlines : g.WritesLines) (hmargin : g.indent = .text margin)
    (hsocket : t.socket? (.text socket) = some (.statement name))
    (hchild : b.input? (.text socket) = some child) (w : Workspace) (fuel depth : Nat) :
    g.bodyCode (g.compile w fuel depth) b t (.text socket) =
      (fun texts => String.join (texts.map (Text.indent margin))) <$>
        askedBy b (g.statements w fuel depth child) := by
  simp only [bodyCode, hsocket, childOf, requireKey_text, pure_bind, hchild, compile_chain_eq,
    askedBy_map, bind_map_left]
  rw [map_eq_pure_bind]
  refine gen_bind_congr fun texts run run' htexts => ?_
  have hwhole := statements_whole hlines (askedBy_ok.mp htexts)
  rw [hmargin, ← Text.indent_join hwhole]
  rfl

end Generator

/-- A margin is put before the lines that are not blank. Margins of spaces add up, over any number
of levels, and texts of whole lines keep to themselves. All statements of the built-in blocks are
whole lines. So the code of a chain, which is that of its statements in a row, is indented statement
by statement where it stands in a socket. -/
theorem margins_add_up :
    (∀ text : String, ∃ lines, Text.Lines lines ∧ lines.flatten = text.toList ∧
      ∀ margin : String, (Text.indent margin text).toList = lines.flatMap fun line =>
        if line.all Text.isBlank then line else margin.toList ++ line) ∧
    (∀ outer inner text : String, (∀ c ∈ inner.toList, c = ' ') →
      Text.indent outer (Text.indent inner text) = Text.indent (outer ++ inner) text ∧
      ∀ depth, (Text.indent inner)^[depth] text =
        Text.indent (String.join (List.replicate depth inner)) text) ∧
    (∀ margin text rest : String, Whole text →
      Text.indent margin (text ++ rest) = Text.indent margin text ++ Text.indent margin rest) ∧
    (∀ margin room, (arduino margin room).WritesLines) ∧
    ∀ (g : Generator) (w : Workspace) (fuel depth : Nat) (child : Ref),
      Code.text <$> g.compile w fuel depth .chain child =
        String.join <$> g.statements w fuel depth child ∧
      ∀ (margin socket : String) (name : Value) (t : BlockType) (b : Block), g.WritesLines →
        g.indent = .text margin → t.socket? (.text socket) = some (.statement name) →
        b.input? (.text socket) = some child →
          g.bodyCode (g.compile w fuel depth) b t (.text socket) =
            (fun texts => String.join (texts.map (Text.indent margin))) <$>
              Generator.askedBy b (g.statements w fuel depth child) := by
  refine ⟨fun text => ?_, fun outer inner text hinner => ?_, fun margin text rest hwhole => ?_,
    arduino_writesLines, fun g w fuel depth child => ⟨?_, ?_⟩⟩
  · exact ⟨_, Text.lines_splitLines text.toList, Text.flatten_splitLines text.toList,
      fun margin => Text.toList_indent margin text⟩
  · have hspaces := Text.unbroken_spaces hinner
    exact ⟨Text.indent_indent hspaces outer text,
      fun depth => Text.iterate_indent hspaces depth text⟩
  · exact Text.indent_append hwhole margin rest
  · rw [Generator.compile_chain_eq, Functor.map_map]
  · intro margin socket name t b hlines hmargin hsocket hchild
    exact Generator.bodyCode_eq_statements hlines hmargin hsocket hchild w fuel depth

/-- A loop around two statements, one of them without code. -/
def loopAround : Workspace where
  blocks := #[
    { type := "controls_whileUntil", id := "loop", inputs := [("DO", some 1)] },
    { type := "arduino_delay", id := "first", next := some 2 },
    { type := "arduino_imu_begin", id := "second" }]
  roots := [0]

theorem margins_add_up_loop : ∃ t, Catalog.registry.find? "controls_whileUntil" = some t ∧
    (∀ c ∈ "  ".toList, c = ' ') ∧ Whole "while (x) \x7b\r\n" ∧
    t.socket? "DO" = some (.statement "DO") ∧ (loopAround.block 0).input? "DO" = some 1 ∧
    Text.indent "\t" (Text.indent "  " "a\r\n\r\x0b b") = Text.indent "\t  " "a\r\n\r\x0b b" ∧
    Text.indent "\t  " "a\r\n\r\x0b b" = "\t  a\r\n\r\x0b\t   b" ∧
    Text.indent "  " ("while (x) \x7b\r\n" ++ "x = 0;") =
      Text.indent "  " "while (x) \x7b\r\n" ++ Text.indent "  " "x = 0;" ∧
    (arduino "  ").bodyCode ((arduino "  ").compile loopAround 4 7) (loopAround.block 0) t "DO" =
      (fun texts => String.join (texts.map (Text.indent "  "))) <$>
        Generator.askedBy (loopAround.block 0) ((arduino "  ").statements loopAround 4 7 1) := by
  have hspaces : ∀ c ∈ "  ".toList, c = ' ' := by simp
  have hwhole : Whole "while (x) \x7b\r\n" := .inr ⟨"while (x) \x7b\r", rfl⟩
  have htype : ∃ t, Catalog.registry.find? "controls_whileUntil" = some t ∧
      t.socket? "DO" = some (.statement "DO") := by
    rw [Catalog.registry_find?]
    exact ⟨_, rfl, rfl⟩
  obtain ⟨t, ht, hsocket⟩ := htype
  obtain ⟨-, hadd, hkeep, hlines, hchain⟩ := margins_add_up
  obtain ⟨-, hbody⟩ := hchain (arduino "  ") loopAround 4 7 1
  exact ⟨t, ht, hspaces, hwhole, hsocket, rfl, (hadd "\t" "  " _ hspaces).1, by decide +kernel,
    hkeep "  " _ "x = 0;" hwhole, hbody _ _ _ t (loopAround.block 0) (hlines _ _) rfl hsocket rfl⟩

end BlockSketch.Sketch
