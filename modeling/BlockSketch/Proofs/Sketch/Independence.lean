import BlockSketch.Proofs.Sketch.Failures
import BlockSketch.Proofs.Sketch.Warnings
import BlockSketch.Sketch.Script

/-!
# Loose roots and the sketch

The text of a sketch is that of the first entry point, which is compiled before all other roots. Two
runs on workspaces that agree on what hangs from it go side by side, whatever else the workspaces
hold: an emitter sees a block's fields and which of its sockets are filled, and the names and
definitions in use are the same.
-/

namespace BlockSketch

/-- A correspondence between the blocks of two workspaces. Blocks that correspond have the same type
and fields, and what is attached to them corresponds. -/
structure Workspace.Matches (w w' : Workspace) (same : Ref → Ref → Prop) : Prop where
  type : same r r' → (w'.block r').type = (w.block r).type
  fields : same r r' → (w'.block r').fields = (w.block r).fields
  input : same r r' → ∀ socket,
    Option.Rel same ((w.block r).input? socket) ((w'.block r').input? socket)
  next : same r r' → Option.Rel same (w.block r).next (w'.block r').next

namespace Sketch

-- ---------------------------------------------------------------------------
-- Two runs side by side
-- ---------------------------------------------------------------------------

structure Run.Alike (run run' : Run) : Prop where
  definitions : run'.definitions = run.definitions
  counters : run'.counters = run.counters
  taken : run'.taken = run.taken

/-- If two computations both succeed from runs alike, they leave runs alike and related results. -/
def Parallel (rel : α → β → Prop) (x : Gen α) (y : Gen β) : Prop :=
  ∀ ⦃run run' a b out out'⦄, Run.Alike run run' → x run = .ok (a, out) → y run' = .ok (b, out') →
    rel a b ∧ Run.Alike out out'

namespace Parallel

theorem pure {rel : α → β → Prop} (h : rel a b) :
    Parallel rel (pure a : Gen α) (pure b : Gen β) := by
  intro run run' a' b' out out' halike hx hy
  obtain ⟨rfl, rfl⟩ := gen_pure_ok.mp hx
  obtain ⟨rfl, rfl⟩ := gen_pure_ok.mp hy
  exact ⟨h, halike⟩

theorem throw {rel : α → β → Prop} (f : Fault) (y : Gen β) :
    Parallel rel (throw f : Gen α) y := by
  intro run run' a b out out' halike hx
  exact (gen_throw_ok.mp hx).elim

theorem bind {rel : α → β → Prop} {rel' : γ → δ → Prop} {x : Gen α} {y : Gen β} {f : α → Gen γ}
    {k : β → Gen δ} (hxy : Parallel rel x y) (hfk : ∀ a b, rel a b → Parallel rel' (f a) (k b)) :
    Parallel rel' (x >>= f) (y >>= k) := by
  intro run run' c d out out' halike hx hy
  obtain ⟨a, mid, hx, hf⟩ := gen_bind_ok.mp hx
  obtain ⟨b, mid', hy, hk⟩ := gen_bind_ok.mp hy
  obtain ⟨hrel, hmid⟩ := hxy halike hx hy
  exact hfk a b hrel hmid hf hk

theorem modify {f f' : Run → Run} (h : ∀ run run', Run.Alike run run' → Run.Alike (f run) (f' run')) :
    Parallel Eq (modify f : Gen Unit) (modify f') := by
  rintro run run' _ _ _ _ halike ⟨⟩ ⟨⟩
  exact ⟨rfl, h _ _ halike⟩

theorem get : Parallel Run.Alike (get : Gen Run) get := by
  rintro run run' _ _ _ _ halike ⟨⟩ ⟨⟩
  exact ⟨halike, halike⟩

theorem set (h : Run.Alike a b) : Parallel Eq (set a : Gen Unit) (set b) := by
  rintro run run' _ _ _ _ - ⟨⟩ ⟨⟩
  exact ⟨rfl, h⟩

theorem requireKey (complain complain' : Complaint → Fault) (v : Value) :
    Parallel Eq (requireKey complain v) (requireKey complain' v) := by
  unfold Sketch.requireKey
  split
  · exact .throw _ _
  · exact .pure rfl

theorem askedBy {rel : α → β → Prop} {x : Gen α} {y : Gen β} (h : Parallel rel x y)
    (b b' : Block) : Parallel rel (Generator.askedBy b x) (Generator.askedBy b' y) :=
  fun _ _ _ _ _ _ halike hx hy => h halike (mapError_ok.mp hx) (mapError_ok.mp hy)

theorem orRaise (b b' : Block) (x : Except String α) :
    Parallel Eq (Generator.orRaise b x) (Generator.orRaise b' x) := by
  cases x with
  | error text => exact .throw _ _
  | ok a => exact .pure rfl

end Parallel

theorem Run.Alike.freshName (h : Run.Alike run run') (base : Value) :
    (run'.freshName base).1 = (run.freshName base).1 ∧
      Run.Alike (run.freshName base).2 (run'.freshName base).2 := by
  have hcount : freeCount run'.taken base run'.taken.length ((run'.counters.find? base).getD 0) =
      freeCount run.taken base run.taken.length ((run.counters.find? base).getD 0) := by
    rw [h.taken, h.counters]
  refine ⟨congrArg (candidate base) hcount, h.definitions, ?_, ?_⟩
  · show run'.counters.put base _ = run.counters.put base _
    rw [hcount, h.counters]
  · show candidate base _ :: run'.taken = candidate base _ :: run.taken
    rw [hcount, h.taken]

/-- A program runs alike wherever what is in the sockets compiles alike. -/
theorem emit_parallel {operand operand' : Value → Order → Gen Value} {body body' : Value → Gen String}
    (complain complain' : Complaint → Fault)
    (hoperand : ∀ socket outer, Parallel Eq (operand socket outer) (operand' socket outer))
    (hbody : ∀ socket, Parallel Eq (body socket) (body' socket)) (p : Emit α) :
    Parallel Eq (p.run operand body complain) (p.run operand' body' complain') := by
  induction p with
  | done a => exact .pure rfl
  | complain c => exact .throw _ _
  | operand socket outer k ih => exact (hoperand socket outer).bind fun v _ heq => heq ▸ ih v
  | body socket k ih => exact (hbody socket).bind fun code _ heq => heq ▸ ih code
  | fresh base k ih =>
    refine (Parallel.requireKey _ _ base).bind fun _ _ _ => Parallel.get.bind fun run run' h => ?_
    obtain ⟨hname, hafter⟩ := h.freshName base
    have hrest : Parallel Eq ((k (run.freshName base).1).run operand body complain)
        ((k (run'.freshName base).1).run operand' body' complain') := by
      rw [hname]
      exact ih _
    exact (Parallel.set hafter).bind fun _ _ _ => hrest
  | define definition k ih =>
    refine (Parallel.requireKey _ _ definition.key).bind fun _ _ _ => ?_
    refine (Parallel.modify fun run run' h => ?_).bind fun _ _ _ => ih
    exact ⟨congrArg (Definitions.add · definition) h.definitions, h.counters, h.taken⟩
  | warn warning k ih =>
    refine (Parallel.modify fun run run' h => ?_).bind fun _ _ _ => ih
    exact ⟨h.definitions, h.counters, h.taken⟩
  | defined k ih =>
    refine Parallel.get.bind fun run run' h => ?_
    rw [h.definitions]
    exact ih _

-- ---------------------------------------------------------------------------
-- What emitters see
-- ---------------------------------------------------------------------------

/-- Of a block, an emitter sees the fields and which sockets are filled. -/
def Blind (emitter : Emitter) : Prop :=
  ∀ b b' t names indent, b'.fields = b.fields →
    (∀ socket, (b'.input? socket).isSome = (b.input? socket).isSome) →
    emitter ⟨b', t, names, indent⟩ = emitter ⟨b, t, names, indent⟩

theorem controlsIf_blind : Blind Arduino.controlsIf := by
  intro b b' t names indent _ hfilled
  unfold Arduino.controlsIf
  rw [hfilled]

theorem emitters_blind : ∀ e ∈ Arduino.emitters, Blind e.2 := by
  simp only [Arduino.emitters, List.forall_mem_cons, List.not_mem_nil, false_implies, implies_true,
    and_true]
  and_intros
  all_goals first
    | exact controlsIf_blind
    | rintro ⟨⟩ ⟨⟩ t names indent ⟨⟩ -
      rfl

theorem script_blind (script : Script) : Blind script.emitter :=
  fun _ _ _ _ _ _ _ => rfl

-- ---------------------------------------------------------------------------
-- The generator on two workspaces
-- ---------------------------------------------------------------------------

theorem isSome_of_rel {a : Option α} {b : Option β} (h : Option.Rel rel a b) :
    b.isSome = a.isSome := by
  cases h <;> rfl

namespace Generator

section
variable {same : Ref → Ref → Prop} {compile compile' : Role → Ref → Gen Code} {b b' : Block}
  (hcompile : ∀ role r r', same r r' → Parallel Eq (compile role r) (compile' role r'))
  (hinput : ∀ socket, Option.Rel same (b.input? socket) (b'.input? socket))
include hinput

theorem childOf_parallel (socket : Value) :
    Parallel (Option.Rel same) (childOf b socket) (childOf b' socket) :=
  (Parallel.requireKey _ _ socket).bind fun _ _ _ => .pure (hinput socket)

include hcompile

theorem operandCode_parallel (t : BlockType) (socket : Value) (outer : Order) :
    Parallel Eq (operandCode compile b t socket outer) (operandCode compile' b' t socket outer) := by
  unfold operandCode
  split
  · refine (childOf_parallel hinput socket).bind fun child child' hchild => ?_
    cases hchild with
    | none => exact .pure rfl
    | some hsame =>
      refine ((hcompile _ _ _ hsame).askedBy b b').bind fun code _ heq => ?_
      subst heq
      split
      · exact .pure rfl
      · simp only [map_eq_pure_bind]
        exact (Parallel.orRaise b b' _).bind fun _ _ heq => .pure (congrArg Value.text heq)
  · exact .throw _ _

theorem bodyCode_parallel (g : Generator) (t : BlockType) (socket : Value) :
    Parallel Eq (g.bodyCode compile b t socket) (g.bodyCode compile' b' t socket) := by
  unfold bodyCode
  split
  · refine (childOf_parallel hinput socket).bind fun child child' hchild => ?_
    cases hchild with
    | none => exact .pure rfl
    | some hsame =>
      refine ((hcompile _ _ _ hsame).askedBy b b').bind fun code _ heq => ?_
      subst heq
      exact .orRaise b b' _
  · exact .throw _ _

end

section
variable {g : Generator} {w w' : Workspace} {same : Ref → Ref → Prop}
  (hblind : ∀ e ∈ g.emitters, Blind e.2) (hnames : w'.variableNames = w.variableNames)
  (hmatches : w.Matches w' same)
include hblind hnames hmatches

theorem emitBlock_parallel {compile compile' : Role → Ref → Gen Code}
    (hcompile : ∀ role r r', same r r' → Parallel Eq (compile role r) (compile' role r'))
    (depth : Nat) (role : Role) (hsame : same r r') :
    Parallel Eq (g.emitBlock w compile depth role r) (g.emitBlock w' compile' depth role r') := by
  intro run run' yield yield' out out' halike hemit hemit'
  obtain ⟨t, emitter, ht, -, hfind, hrun⟩ := emitBlock_ok hemit
  obtain ⟨t', emitter', ht', -, hfind', hrun'⟩ := emitBlock_ok hemit'
  rw [hmatches.type hsame] at ht' hfind'
  obtain rfl := Option.some.inj (ht.symm.trans ht')
  obtain rfl := Option.some.inj (hfind.symm.trans hfind')
  obtain ⟨e, hmem, rfl⟩ := emitterOf_mem hfind
  have hinput := hmatches.input hsame
  rw [hnames, hblind e hmem _ _ t _ _ (hmatches.fields hsame)
    fun socket => isSome_of_rel (hinput socket)] at hrun'
  refine emit_parallel _ _ (operandCode_parallel hcompile hinput t)
    (bodyCode_parallel hcompile hinput g t) _ ?_ hrun hrun'
  exact ⟨halike.definitions, halike.counters, halike.taken⟩

/-- Trees that correspond have the same code, with whatever fuel it is found. -/
theorem compile_parallel (fuel fuel' depth : Nat) (role : Role) (hsame : same r r') :
    Parallel Eq (g.compile w fuel depth role r) (g.compile w' fuel' depth role r') := by
  -- The two workspaces have different sizes, so that each run has a fuel of its own.
  induction fuel generalizing fuel' depth role r r' with
  | zero => exact .throw _ _
  | succ fuel ih =>
    cases fuel' with
    | zero =>
      intro run run' code code' out out' _ _ hthrow
      exact (gen_throw_ok.mp hthrow).elim
    | succ fuel' =>
      have hemit := emitBlock_parallel hblind hnames hmatches
        (fun role' r r' hsame => ih fuel' (depth + role.calls) role' hsame) (depth + role.calls) role
        hsame
      refine hemit.bind fun yield _ heq => ?_
      subst heq
      cases role with
      | operand =>
        cases yield with
        | expression text order => exact .pure rfl
        | _ => exact .throw _ _
      | chain =>
        cases yield with
        | statement text =>
          have hnext := hmatches.next hsame
          dsimp only
          generalize (w.block r).next = next, (w'.block r').next = next' at hnext
          cases hnext with
          | none => exact .pure rfl
          | some hsame' =>
            exact (ih fuel' depth .chain hsame').bind fun _ _ heq => .pure (by rw [heq])
        | _ => exact .throw _ _

theorem rootCode_parallel (hsame : same r r') :
    Parallel Eq (g.rootCode w r) (g.rootCode w' r') := by
  have hdescribe : Parallel Eq (g.describe (w.block r)) (g.describe (w'.block r')) := by
    intro run run' t t' out out' halike hx hy
    obtain ⟨-, ht, rfl⟩ := describe_ok.mp hx
    obtain ⟨-, ht', rfl⟩ := describe_ok.mp hy
    rw [hmatches.type hsame] at ht'
    exact ⟨Option.some.inj (ht.symm.trans ht'), halike⟩
  refine hdescribe.bind fun t _ heq => ?_
  subst heq
  exact (compile_parallel hblind hnames hmatches _ _ _ _ hsame).bind fun _ _ heq =>
    .pure (congrArg Code.text heq)

end

theorem program_code {g : Generator} (h : g.program w run = .ok (code, out))
    (hentry : w.entry? = some entry) : ∃ mid, g.rootCode w entry run = .ok (code, mid) := by
  simp only [program, hentry, gen_bind_ok, gen_pure_ok] at h
  obtain ⟨_, mid, hroot, _, _, -, rfl, -⟩ := h
  exact ⟨mid, hroot⟩

end Generator

def Builtin (emitter : Emitter) : Prop :=
  ∃ e ∈ Arduino.emitters, emitter = e.2

/-- Loose roots do not reach the sketch. Two workspaces with the same variables and the same tree at
the first entry point have the same text, whatever other roots there are and wherever they stand,
with any types and with emitters that are built in or scripted. With the built-in emitters, the
warnings are one for each other root, in their order. -/
theorem text_of_same_entry (g : Generator) (w w' : Workspace) (same : Ref → Ref → Prop)
    {report report' : Report}
    (hemitters : ∀ e ∈ g.emitters, Builtin e.2 ∨ ∃ script : Script, e.2 = script.emitter)
    (hnames : w'.variableNames = w.variableNames) (hmatches : w.Matches w' same)
    (hentry : Option.Rel same w.entry? w'.entry?)
    (h : g.generate w = .ok report) (hsuccess : report.success = true)
    (h' : g.generate w' = .ok report') (hsuccess' : report'.success = true) :
    report'.code = report.code ∧
      ((∀ e ∈ g.emitters, Builtin e.2) →
        report.warnings = (Generator.looseRoots w).map (Generator.ignored w) ∧
        report'.warnings = (Generator.looseRoots w').map (Generator.ignored w')) := by
  obtain ⟨out, hrun, hwarnings⟩ := Generator.generate_ok h hsuccess
  obtain ⟨out', hrun', hwarnings'⟩ := Generator.generate_ok h' hsuccess'
  constructor
  · have hblind : ∀ e ∈ g.emitters, Blind e.2 := by
      intro e he
      rcases hemitters e he with ⟨builtin, hmem, heq⟩ | ⟨script, heq⟩
      · exact heq ▸ emitters_blind builtin hmem
      · exact heq ▸ script_blind script
    generalize hfirst : w.entry? = first, hfirst' : w'.entry? = first' at hentry
    cases hentry with
    | none =>
      simp only [Generator.program, hfirst, hfirst', gen_bind_ok, gen_pure_ok] at hrun hrun'
      obtain ⟨_, _, -, hcode, -⟩ := hrun
      obtain ⟨_, _, -, hcode', -⟩ := hrun'
      rw [hcode, hcode']
    | some hsame =>
      obtain ⟨_, hcode⟩ := Generator.program_code hrun hfirst
      obtain ⟨_, hcode'⟩ := Generator.program_code hrun' hfirst'
      have hstart : Run.Alike (.start w.variableNames) (.start w'.variableNames) :=
        ⟨rfl, rfl, hnames⟩
      have hparallel := Generator.rootCode_parallel hblind hnames hmatches hsame
      exact (hparallel hstart hcode hcode').1.symm
  · intro hbuiltin
    have hmute : ∀ e ∈ g.emitters, ∀ site, (e.2 site).Mute := by
      intro e he
      obtain ⟨builtin, hmem, heq⟩ := hbuiltin e he
      exact heq ▸ emitters_mute builtin hmem
    rw [hwarnings, hwarnings', Generator.program_warnings hmute hrun,
      Generator.program_warnings hmute hrun']
    exact ⟨rfl, rfl⟩

def loopFirst : Workspace where
  blocks := #[
    { type := "controls_setup", id := "entry", inputs := [("LOOP", some 1)] },
    { type := "controls_repeat_ext", id := "loop" },
    { type := "controls_repeat_ext", id := "loose" }]
  roots := [0, 2]
  variableNames := ["count"]

/-- The same entry point, stored elsewhere and between other roots. -/
def loopBetween : Workspace where
  blocks := #[
    { type := "variables_set", id := "set", fields := [("VAR", "count")],
      inputs := [("VALUE", some 1)] },
    { type := "arduino_digital_read", id := "read" },
    { type := "controls_repeat_ext", id := "again" },
    { type := "controls_setup", id := "start", inputs := [("LOOP", some 2)] },
    { type := "math_number", id := "number" }]
  roots := [0, 3, 4]
  variableNames := ["count"]

def loopSame (r r' : Ref) : Prop :=
  r = 0 ∧ r' = 3 ∨ r = 1 ∧ r' = 2

theorem loopFirst_matches : loopFirst.Matches loopBetween loopSame where
  type := by rintro r r' (⟨rfl, rfl⟩ | ⟨rfl, rfl⟩) <;> rfl
  fields := by rintro r r' (⟨rfl, rfl⟩ | ⟨rfl, rfl⟩) <;> rfl
  input := by
    rintro r r' (⟨rfl, rfl⟩ | ⟨rfl, rfl⟩) socket
    · have hinput : ∀ child : Ref, (Table.find? [(.text "LOOP", some child)] socket).bind id =
          if (Value.text "LOOP").coincides socket then some child else none := by
        intro child
        cases hsocket : (Value.text "LOOP").coincides socket <;> simp [Table.find?, hsocket]
      show Option.Rel loopSame ((Table.find? [("LOOP", some 1)] socket).bind id)
        ((Table.find? [("LOOP", some 2)] socket).bind id)
      rw [hinput, hinput]
      split
      · exact .some (.inr ⟨rfl, rfl⟩)
      · exact .none
    · exact .none
  next := by rintro r r' (⟨rfl, rfl⟩ | ⟨rfl, rfl⟩) <;> exact .none

theorem text_of_loops : loopFirst.Matches loopBetween loopSame ∧
    ∃ report report', (arduino "  ").generate loopFirst = .ok report ∧ report.success = true ∧
      (arduino "  ").generate loopBetween = .ok report' ∧ report'.success = true ∧
      report'.code = report.code ∧
      report.warnings = [Generator.ignored loopFirst 2] ∧
      report'.warnings = [Generator.ignored loopBetween 0, Generator.ignored loopBetween 4] := by
  have hbuiltin : ∀ e ∈ (arduino "  ").emitters, Builtin e.2 := fun e he => ⟨e, he, rfl⟩
  obtain ⟨report, report', hreport, hsuccess, hreport', hsuccess'⟩ : ∃ report report',
      (arduino "  ").generate loopFirst = .ok report ∧ report.success = true ∧
        (arduino "  ").generate loopBetween = .ok report' ∧ report'.success = true := by
    rw [arduino, Catalog.registry_eq]
    exact ⟨_, _, rfl, rfl, rfl, rfl⟩
  have htext := text_of_same_entry (arduino "  ") loopFirst loopBetween loopSame
    (fun e he => .inl (hbuiltin e he)) rfl loopFirst_matches (.some (.inl ⟨rfl, rfl⟩)) hreport
    hsuccess hreport' hsuccess'
  exact ⟨loopFirst_matches, report, report', hreport, hsuccess, hreport', hsuccess', htext.1,
    htext.2 hbuiltin⟩

end Sketch

end BlockSketch
