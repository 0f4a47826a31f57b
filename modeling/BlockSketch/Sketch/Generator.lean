import BlockSketch.Block.Registry
import BlockSketch.Error
import BlockSketch.Sketch.Diagnostic
import BlockSketch.Sketch.Emit

/-!
# The generator

Compiles a workspace into a sketch. Every block is compiled at most once in a run, so a run ends on
every graph; its depth is bounded by the number of blocks.
-/

namespace BlockSketch.Sketch

structure Run where
  definitions : Definitions := []
  warnings : List Value := []
  visited : List Ref := []
  counters : Table Nat := []
  taken : List Value := []

abbrev Gen := StateT Run (Except Fault)

def candidate (base : Value) (count : Nat) : Value :=
  if count = 1 then base else .text (base.plain ++ toString count)

/-- The first count after `count` whose candidate is free. One of `fuel + 1` candidates is, if fewer
names are taken. -/
def freeCount (taken : List Value) (base : Value) : Nat → Nat → Nat
  | 0, count => count + 1
  | fuel + 1, count =>
    if (candidate base (count + 1)).isIn taken then freeCount taken base fuel (count + 1)
    else count + 1

def Run.freshName (run : Run) (base : Value) : Value × Run :=
  let count := freeCount run.taken base run.taken.length ((run.counters.find? base).getD 0)
  let name := candidate base count
  (name, { run with counters := run.counters.put base count, taken := name :: run.taken })

def Run.start (variableNames : List Value) : Run :=
  { taken := variableNames }

structure Generator where
  registry : Registry
  emitters : Emitters
  indent : Value := "  "
  /-- How many calls can be nested in a run; none is for no limit. -/
  room : Option Nat := none

inductive Role where
  | chain
  | operand
  deriving DecidableEq

inductive Phase where
  | idle
  | generating
  | success
  | failed
  deriving DecidableEq, Repr

def Phase.name : Phase → String
  | .idle => "idle"
  | .generating => "generating"
  | .success => "success"
  | .failed => "failed"

/-- Where a generator stands: what it does now, and how its last run ended. -/
structure Progress where
  phase : Phase := .idle
  outcome : Option Phase := none

/-- The calls that lead from a run, or from the emitter that asks, to the emitter of a block. -/
def Role.calls : Role → Nat
  | .chain => 7
  | .operand => 6

structure Code where
  text : String
  order : Order := Order.atomic

def requireKey (complain : Complaint → Fault) (v : Value) : Gen Unit :=
  if v.isContainer then throw (complain (.fault v.noKey)) else pure ()

def Emit.run (operand : Value → Order → Gen Value) (body : Value → Gen String)
    (complain : Complaint → Fault) : Emit α → Gen α
  | .done a => pure a
  | .complain c => throw (complain c)
  | .operand socket outer k => do ((k (← operand socket outer)).run operand body complain)
  | .body socket k => do ((k (← body socket)).run operand body complain)
  | .fresh base k => do
    requireKey complain base
    let (name, run) := (← get).freshName base
    set run
    (k name).run operand body complain
  | .define definition k => do
    requireKey complain definition.key
    modify fun run => { run with definitions := run.definitions.add definition }
    k.run operand body complain
  | .warn warning k => do
    modify fun run => { run with warnings := run.warnings ++ [warning] }
    k.run operand body complain
  | .defined k => do (k (← get).definitions).run operand body complain

namespace Generator

def describe (g : Generator) (b : Block) : Gen BlockType :=
  if b.type.isContainer then throw (.passed b.type.noKey)
  else match g.registry.find? b.type with
    | some t => pure t
    | none => throw (.unknownType b.type b.id)

def blockFault (b : Block) (fault : BlockFault) : Fault :=
  .block fault b.id b.type

def complaintFault (b : Block) : Complaint → Fault
  | .fault text => blockFault b (.raised text)
  | .refusal text => .refused text

def visit (w : Workspace) (r : Ref) : Gen Unit := do
  if (← get).visited.contains r then throw (blockFault (w.block r) .revisited)
  modify fun run => { run with visited := r :: run.visited }

def childOf (b : Block) (socket : Value) : Gen (Option Ref) := do
  requireKey (complaintFault b) socket
  pure (b.input? socket)

/-- A fault that no block has told yet is told of the block that asked. -/
def toldBy (b : Block) : Fault → Fault
  | .passed text => blockFault b (.raised text)
  | .overflow => blockFault b (.raised overflowText)
  | fault => fault

def askedBy (b : Block) (code : Gen α) : Gen α := fun run =>
  (code run).mapError (toldBy b)

def orRaise (b : Block) : Except String α → Gen α
  | .ok a => pure a
  | .error text => throw (blockFault b (.raised text))

/-- The code in a value socket. Nothing there, or nothing written for it, leaves the socket's
literal. -/
def operandCode (compile : Role → Ref → Gen Code) (b : Block) (t : BlockType) (socket : Value)
    (outer : Order) : Gen Value :=
  match t.socket? socket with
  | some (.value s) => do
    match ← childOf b socket with
    | none => pure s.literal
    | some child =>
      let code ← askedBy b (compile .operand child)
      if code.text.isEmpty then pure s.literal
      else .text <$> orRaise b (enclose code.text code.order outer)
  | _ => throw (blockFault b (.noSocket false socket))

def bodyCode (g : Generator) (compile : Role → Ref → Gen Code) (b : Block) (t : BlockType)
    (socket : Value) : Gen String :=
  match t.socket? socket with
  | some (.statement _) => do
    match ← childOf b socket with
    | none => pure ""
    | some child =>
      let code ← askedBy b (compile .chain child)
      orRaise b (indentCode g.indent code.text)
  | _ => throw (blockFault b (.noSocket true socket))

def emitterOf (g : Generator) (b : Block) : Gen Emitter :=
  match g.emitters.find? b.type with
  | some emitter => pure emitter
  | none => throw (blockFault b .noEmitter)

def enter (g : Generator) (depth : Nat) : Gen Unit :=
  if g.room.any (· < depth) then throw .overflow else pure ()

def emitBlock (g : Generator) (w : Workspace) (compile : Role → Ref → Gen Code) (depth : Nat)
    (role : Role) (r : Ref) : Gen Yield := do
  let b := w.block r
  let t ← g.describe b
  match role, t.isStatement with
  | .chain, false => throw (blockFault b .usedAsStatement)
  | .operand, true => throw (blockFault b .usedAsValue)
  | _, _ =>
    visit w r
    let emitter ← g.emitterOf b
    g.enter depth
    (emitter ⟨b, t, w.variableNames, g.indent⟩).run (operandCode compile b t)
      (g.bodyCode compile b t) (complaintFault b)

/-- The code of a block in a role, asked for at a depth. Every level of recursion marks a block that
was not marked, so a fuel above the number of blocks is never used up. -/
def compile (g : Generator) (w : Workspace) : Nat → Nat → Role → Ref → Gen Code
  | 0, _, _, r => throw (blockFault (w.block r) .revisited)
  | fuel + 1, depth, role, r => do
    let b := w.block r
    let inner := depth + role.calls
    let yield ← g.emitBlock w (g.compile w fuel inner) inner role r
    match role, yield with
    | .operand, .expression text order => pure ⟨text, order⟩
    | .operand, _ => throw (blockFault b .notPair)
    | .chain, .statement text =>
      match b.next with
      | none => pure { text }
      | some next => do
        -- A successor is asked for by the one who asked for the chain.
        let rest ← g.compile w fuel depth .chain next
        pure { text := text ++ rest.text }
    | .chain, yield => throw (blockFault b (.notText yield.kindName))

def rootCode (g : Generator) (w : Workspace) (r : Ref) : Gen String := do
  let t ← g.describe (w.block r)
  let code ← g.compile w (w.blocks.size + 1) 0 (if t.isStatement then .chain else .operand) r
  pure code.text

/-- Roots other than the entry point are compiled for their faults only. -/
def looseRoot (g : Generator) (w : Workspace) (r : Ref) : Gen Unit := do
  let _ ← g.rootCode w r
  let text := "Block '" ++ (w.block r).id.plain ++ "' is not attached to setup/loop and was ignored"
  modify fun run => { run with warnings := run.warnings ++ [.text text] }

def program (g : Generator) (w : Workspace) : Gen String := do
  match w.entry? with
  | none => do
    w.roots.forM (g.looseRoot w)
    pure emptyLine
  | some entry => do
    let code ← g.rootCode w entry
    (w.roots.filter (· ≠ entry)).forM (g.looseRoot w)
    pure code

/-- The report on a workspace. There is none if a variable, or the type of a block that no other
block asked for, cannot be a key. -/
def generate (g : Generator) (w : Workspace) : Except Error Report :=
  if w.variableNames.any Value.isContainer then .error .illTyped
  else match (g.program w).run (Run.start w.variableNames) with
    | .ok (code, run) => .ok ⟨code, none, run.warnings⟩
    | .error (.passed _) => .error .illTyped
    | .error fault => .ok (.ofFault fault)

/-- A run leaves the generator idle, with how it ended. One that breaks off leaves it busy. -/
def conduct (g : Generator) (progress : Progress) (w : Workspace) :
    Except Error Report × Progress :=
  match g.generate w with
  | .ok report => (.ok report, ⟨.idle, some (if report.success then .success else .failed)⟩)
  | .error e => (.error e, { progress with phase := .generating })

end Generator

end BlockSketch.Sketch
