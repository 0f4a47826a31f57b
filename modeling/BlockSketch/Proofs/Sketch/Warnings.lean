import BlockSketch.Proofs.Sketch.Emit

/-!
# Warnings

The built-in emitters warn of nothing, wherever they are used. With them the warnings of a sketch
are those of the loose roots, one for each.
-/

namespace BlockSketch.Sketch

-- ---------------------------------------------------------------------------
-- Emitters
-- ---------------------------------------------------------------------------

/-- A program that warns of nothing, whatever it is given. -/
def Emit.Mute : Emit α → Prop
  | .done _ | .complain _ => True
  | .operand _ _ k => ∀ v, (k v).Mute
  | .body _ k => ∀ code, (k code).Mute
  | .fresh _ k => ∀ name, (k name).Mute
  | .define _ k => k.Mute
  | .warn _ _ => False
  | .defined k => ∀ definitions, (k definitions).Mute

namespace Emit.Mute

theorem bind {x : Emit α} {f : α → Emit β} (hx : x.Mute) (hf : ∀ a, (f a).Mute) :
    (x >>= f).Mute := by
  show (x.bind f).Mute
  induction x with
  | done a => exact hf a
  | complain c => trivial
  | operand socket outer k ih => exact fun v => ih v (hx v)
  | body socket k ih => exact fun code => ih code (hx code)
  | fresh base k ih => exact fun name => ih name (hx name)
  | define definition k ih => exact ih hx
  | warn warning k ih => exact hx.elim
  | defined k ih => exact fun definitions => ih definitions (hx definitions)

theorem orFault (x : Except String α) : (orFault x).Mute := by
  cases x <;> trivial

theorem field (site : Site) (name : String) : (Arduino.field site name).Mute := by
  rw [field_eq]
  exact orFault _

theorem textField (site : Site) (name : String) (complaint : Value → String) :
    (Arduino.textField site name complaint).Mute := by
  refine (field site name).bind fun v => ?_
  cases v <;> trivial

theorem chosen (site : Site) (name : String) (table : Assoc α) :
    (Arduino.chosen site name table).Mute := by
  refine (field site name).bind fun v => ?_
  split <;> trivial

theorem operandText (socket : String) (outer : Order) : (Arduino.operandText socket outer).Mute :=
  fun _ => trivial

theorem body (socket : Value) : (Sketch.body socket).Mute :=
  fun _ => trivial

theorem freshText (base : String) : (Arduino.freshText base).Mute :=
  fun _ => trivial

theorem variableName (site : Site) : (Arduino.variableName site).Mute := by
  refine (field site "VAR").bind fun v => ?_
  split
  · trivial
  · split <;> trivial

theorem declareVariables (names : List Value) : (Arduino.declareVariables names).Mute := by
  induction names with
  | nil => trivial
  | cons v names ih =>
    unfold Arduino.declareVariables
    split
    · exact ih
    · trivial

theorem joined (definitions : Definitions) (placement : Placement) :
    (Arduino.joined definitions placement).Mute :=
  (orFault _).bind fun _ => trivial

theorem binary (operator : String) (order : Order) : (Arduino.binary operator order).Mute :=
  fun _ _ => trivial

theorem entryPoint (site : Site) : (Arduino.entryPoint site).Mute := by
  refine (body _).bind fun _ => (body _).bind fun _ => (declareVariables _).bind fun _ => ?_
  refine fun definitions => (joined definitions _).bind fun _ => (joined definitions _).bind fun _ => ?_
  exact (orFault _).bind fun _ => trivial

theorem imuRead (site : Site) : (Arduino.imuRead site).Mute := by
  refine (textField site "AXIS" _).bind fun axis => ?_
  split <;> trivial

theorem sensorBegin (site : Site) : (Arduino.sensorBegin site).Mute := by
  refine (field site "SENSOR").bind fun v => ?_
  split <;> trivial

theorem logicOperation (site : Site) : (Arduino.logicOperation site).Mute := by
  refine (field site "OP").bind fun v => ?_
  split <;> exact binary _ _

theorem mathNumber (site : Site) : (Arduino.mathNumber site).Mute := by
  refine (field site "NUM").bind fun v => ?_
  split <;> trivial

theorem controlsIf (site : Site) : (Arduino.controlsIf site).Mute := by
  refine (operandText _ _).bind fun _ => (body _).bind fun _ => ?_
  dsimp only
  split
  · exact fun _ => trivial
  · trivial

theorem controlsRepeat (site : Site) : (Arduino.controlsRepeat site).Mute := by
  refine Mute.bind (fun _ => trivial) fun times => (body _).bind fun _ => (freshText _).bind fun _ => ?_
  cases times with
  | text times =>
    dsimp only
    split
    · trivial
    · exact (freshText _).bind fun _ => trivial
  | _ => trivial

end Emit.Mute

open Emit in
theorem emitters_mute : ∀ e ∈ Arduino.emitters, ∀ site, (e.2 site).Mute := by
  have hfield : ∀ {site : Site} {name : String} {f : Value → Emit Yield}, (∀ v, (f v).Mute) →
      (Arduino.field site name >>= f).Mute := fun hf => (Mute.field _ _).bind hf
  simp only [Arduino.emitters, List.forall_mem_cons, List.not_mem_nil, false_implies, implies_true,
    and_true]
  -- In the order of the table.
  refine ⟨Mute.entryPoint,
    fun _ => hfield fun _ => trivial,
    fun _ => hfield fun _ => trivial,
    fun _ _ => trivial,
    fun _ => hfield fun _ => trivial,
    fun _ => hfield fun _ => trivial,
    fun _ => hfield fun _ => hfield fun _ => trivial,
    fun _ => hfield fun _ => hfield fun _ => trivial,
    fun _ => hfield fun _ => hfield fun _ => trivial,
    fun _ => hfield fun _ => trivial,
    fun _ => trivial,
    fun _ => trivial,
    Mute.sensorBegin,
    Mute.imuRead,
    fun _ => trivial,
    fun _ => trivial,
    fun _ => (Mute.textField _ _ _).bind fun _ => trivial,
    Mute.mathNumber,
    fun _ => (Mute.chosen _ _ _).bind fun _ => Mute.binary _ _,
    fun _ => hfield fun _ => trivial,
    fun _ => (Mute.chosen _ _ _).bind fun _ => Mute.binary _ _,
    Mute.logicOperation,
    fun _ _ => trivial,
    Mute.controlsIf,
    Mute.controlsRepeat,
    fun _ => hfield fun _ _ _ => trivial,
    fun _ => (Mute.variableName _).bind fun _ => trivial,
    fun _ => (Mute.variableName _).bind fun _ _ => trivial⟩

-- ---------------------------------------------------------------------------
-- Computations
-- ---------------------------------------------------------------------------

def Quiet (x : Gen α) : Prop :=
  ∀ ⦃run a out⦄, x run = .ok (a, out) → out.warnings = run.warnings

namespace Quiet

theorem pure (a : α) : Quiet (pure a : Gen α) := by
  rintro run _ _ ⟨⟩
  rfl

theorem throw (f : Fault) : Quiet (throw f : Gen α) :=
  fun _ _ _ h => (gen_throw_ok.mp h).elim

theorem bind {x : Gen α} {k : α → Gen β} (hx : Quiet x) (hk : ∀ a, Quiet (k a)) :
    Quiet (x >>= k) := by
  intro run b out h
  obtain ⟨a, mid, hx', hk'⟩ := gen_bind_ok.mp h
  exact (hk a hk').trans (hx hx')

theorem modify {f : Run → Run} (h : ∀ run, (f run).warnings = run.warnings) :
    Quiet (modify f : Gen Unit) := by
  rintro run _ _ ⟨⟩
  exact h run

theorem requireKey (v : Value) : Quiet (requireKey complain v) := by
  unfold Sketch.requireKey
  split
  · exact throw _
  · exact pure ()

theorem askedBy {x : Gen α} (h : Quiet x) (b : Block) : Quiet (Generator.askedBy b x) :=
  fun _ _ _ hx => h (mapError_ok.mp hx)

theorem orRaise (b : Block) (x : Except String α) : Quiet (Generator.orRaise b x) := by
  cases x with
  | error text => exact throw _
  | ok a => exact pure a

theorem emit {operand : Value → Order → Gen Value} {body : Value → Gen String}
    (complain : Complaint → Fault) (hoperand : ∀ socket outer, Quiet (operand socket outer))
    (hbody : ∀ socket, Quiet (body socket)) {p : Emit α} (hp : p.Mute) :
    Quiet (p.run operand body complain) := by
  induction p with
  | done a => exact pure a
  | complain c => exact throw _
  | operand socket outer k ih => exact (hoperand socket outer).bind fun v => ih v (hp v)
  | body socket k ih => exact (hbody socket).bind fun code => ih code (hp code)
  | fresh base k ih =>
    refine (requireKey base).bind fun _ run a out h => ?_
    obtain ⟨_, _, ⟨⟩, h⟩ := gen_bind_ok.mp h
    obtain ⟨_, _, ⟨⟩, h⟩ := gen_bind_ok.mp h
    have hrest := ih _ (hp _) h
    exact hrest
  | define definition k ih =>
    refine (requireKey _).bind fun _ => Quiet.bind ?_ fun _ => ih hp
    exact modify fun _ => rfl
  | warn warning k ih => exact hp.elim
  | defined k ih => exact fun run a out h => ih _ (hp _) h

end Quiet

theorem emitterOf_mem {emitters : Emitters} (h : emitters.find? key = some emitter) :
    ∃ e ∈ emitters, e.2 = emitter := by
  simp only [Table.find?, Option.map_eq_some_iff] at h
  obtain ⟨e, hfind, heq⟩ := h
  exact ⟨e, List.mem_of_find?_eq_some hfind, heq⟩

namespace Generator

theorem childOf_quiet (b : Block) (socket : Value) : Quiet (childOf b socket) :=
  (Quiet.requireKey socket).bind fun _ => .pure _

section
variable {compile : Role → Ref → Gen Code} (hcompile : ∀ role r, Quiet (compile role r))
include hcompile

theorem operandCode_quiet (b : Block) (t : BlockType) (socket : Value) (outer : Order) :
    Quiet (operandCode compile b t socket outer) := by
  unfold operandCode
  split
  · refine (childOf_quiet b socket).bind fun child => ?_
    cases child with
    | none => exact .pure _
    | some child =>
      refine ((hcompile _ _).askedBy b).bind fun code => ?_
      split
      · exact .pure _
      · simp only [map_eq_pure_bind]
        exact (Quiet.orRaise b _).bind fun _ => .pure _
  · exact .throw _

theorem bodyCode_quiet (g : Generator) (b : Block) (t : BlockType) (socket : Value) :
    Quiet (g.bodyCode compile b t socket) := by
  unfold bodyCode
  split
  · refine (childOf_quiet b socket).bind fun child => ?_
    cases child with
    | none => exact .pure _
    | some child => exact ((hcompile _ _).askedBy b).bind fun code => .orRaise b _
  · exact .throw _

end

section
variable {g : Generator} (hmute : ∀ e ∈ g.emitters, ∀ site, (e.2 site).Mute) (w : Workspace)
include hmute

theorem compile_quiet (fuel depth : Nat) (role : Role) (r : Ref) :
    Quiet (g.compile w fuel depth role r) := by
  induction fuel generalizing depth role r with
  | zero => exact .throw _
  | succ fuel ih =>
    have hemit : ∀ depth, Quiet (g.emitBlock w (g.compile w fuel depth) depth role r) := by
      intro depth run yield out h
      obtain ⟨t, emitter, -, -, hfind, hrun⟩ := emitBlock_ok h
      obtain ⟨e, hmem, rfl⟩ := emitterOf_mem hfind
      have hquiet := Quiet.emit (complaintFault (w.block r))
        (operandCode_quiet (ih depth) (w.block r) t) (bodyCode_quiet (ih depth) g (w.block r) t)
        (hmute e hmem ⟨w.block r, t, w.variableNames, g.indent⟩) hrun
      exact hquiet
    refine (hemit _).bind fun yield => ?_
    split
    · exact .pure _
    · exact .throw _
    · split
      · exact .pure _
      · exact (ih _ _ _).bind fun _ => .pure _
    · exact .throw _

theorem rootCode_quiet (r : Ref) : Quiet (g.rootCode w r) := by
  intro run text out h
  simp only [rootCode, gen_bind_ok, gen_pure_ok] at h
  obtain ⟨t, _, hdescribe, code, _, hcompile, -, rfl⟩ := h
  obtain ⟨-, -, rfl⟩ := describe_ok.mp hdescribe
  exact compile_quiet hmute w _ _ _ r hcompile

end

def ignored (w : Workspace) (r : Ref) : Value :=
  .text ("Block '" ++ (w.block r).id.plain ++ "' is not attached to setup/loop and was ignored")

def looseRoots (w : Workspace) : List Ref :=
  match w.entry? with
  | none => w.roots
  | some entry => w.roots.filter (· ≠ entry)

section
variable {g : Generator} (hmute : ∀ e ∈ g.emitters, ∀ site, (e.2 site).Mute) {w : Workspace}
include hmute

theorem forM_looseRoot_warnings {roots : List Ref}
    (h : roots.forM (g.looseRoot w) run = .ok (u, out)) :
    out.warnings = run.warnings ++ roots.map (ignored w) := by
  induction roots generalizing run with
  | nil =>
    obtain ⟨-, rfl⟩ := gen_pure_ok.mp h
    exact (List.append_nil _).symm
  | cons r roots ih =>
    obtain ⟨_, mid, hfirst, hrest⟩ := gen_bind_ok.mp h
    obtain ⟨_, compiled, hroot, hwarn⟩ := gen_bind_ok.mp hfirst
    have hmid : mid.warnings = run.warnings ++ [ignored w r] := by
      rw [← rootCode_quiet hmute w r hroot]
      cases hwarn
      rfl
    rw [ih hrest, hmid, List.append_assoc]
    rfl

theorem program_warnings (h : g.program w run = .ok (code, out)) :
    out.warnings = run.warnings ++ (looseRoots w).map (ignored w) := by
  unfold program at h
  unfold looseRoots
  cases hentry : w.entry? with
  | none =>
    simp only [hentry, gen_bind_ok, gen_pure_ok] at h
    obtain ⟨_, _, hroots, -, rfl⟩ := h
    exact forM_looseRoot_warnings hmute hroots
  | some entry =>
    simp only [hentry, gen_bind_ok, gen_pure_ok] at h
    obtain ⟨_, _, hroot, _, _, hroots, -, rfl⟩ := h
    rw [forM_looseRoot_warnings hmute hroots, rootCode_quiet hmute w entry hroot]

end

theorem generate_ok {g : Generator} {report : Report} (h : g.generate w = .ok report)
    (hsuccess : report.success = true) : ∃ out,
      g.program w (.start w.variableNames) = .ok (report.code, out) ∧
        report.warnings = out.warnings := by
  unfold generate at h
  split at h
  · cases h
  · split at h
    · rename_i code out hrun
      obtain rfl := Except.ok.inj h
      exact ⟨out, hrun, rfl⟩
    · cases h
    · obtain rfl := Except.ok.inj h
      cases hsuccess

end Generator

end BlockSketch.Sketch
