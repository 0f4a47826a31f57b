import BlockSketch.Proofs.Sketch.Emit
import BlockSketch.Proofs.Workspace.Keyed

/-!
# Every run ends in a report

Whatever the emitters do, a fault is told of a block. Only a type that cannot be looked up is passed
on to the block that asked, and from a root there is none to pass it to.
-/

namespace BlockSketch.Sketch

def Answers (x : Gen α) : Prop :=
  ∀ run text, x run ≠ .error (.passed text)

namespace Answers

theorem pure (a : α) : Answers (pure a : Gen α) := by
  rintro run text ⟨⟩

theorem throw {f : Fault} (hf : ∀ text, f ≠ .passed text) : Answers (throw f : Gen α) := by
  intro run text h
  exact hf text (Except.error.inj h)

theorem fault (b : Block) (f : BlockFault) :
    Answers (MonadExcept.throw (Generator.blockFault b f) : Gen α) :=
  .throw fun _ => by rintro ⟨⟩

theorem bind {x : Gen α} {k : α → Gen β} (hx : Answers x) (hk : ∀ a, Answers (k a)) :
    Answers (x >>= k) := by
  intro run text h
  have hbind : (x >>= k) run = x run >>= fun p => k p.1 p.2 := rfl
  rw [hbind, bind_error] at h
  rcases h with h | ⟨p, -, h⟩
  · exact hx run text h
  · exact hk p.1 p.2 text h

theorem modify (f : Run → Run) : Answers (modify f : Gen Unit) := by
  rintro run text ⟨⟩

/-- What was passed on to a block is told of it. -/
theorem askedBy (b : Block) (x : Gen α) : Answers (Generator.askedBy b x) := by
  intro run text h
  rw [Generator.askedBy, mapError_error] at h
  obtain ⟨f, -, hf⟩ := h
  cases f <;> cases hf

theorem orRaise (b : Block) (x : Except String α) : Answers (Generator.orRaise b x) := by
  cases x with
  | ok a => exact .pure a
  | error text => exact .fault b _

theorem forM {f : α → Gen Unit} (hf : ∀ a, Answers (f a)) (l : List α) : Answers (l.forM f) := by
  induction l with
  | nil => exact .pure ()
  | cons a l ih => exact (hf a).bind fun _ => ih

section
variable {complain : Complaint → Fault} (hcomplain : ∀ c text, complain c ≠ .passed text)
include hcomplain

theorem requireKey (v : Value) : Answers (requireKey complain v) := by
  unfold Sketch.requireKey
  split
  · exact .throw fun text => hcomplain _ text
  · exact .pure ()

theorem emit {operand : Value → Order → Gen Value} {body : Value → Gen String}
    (hoperand : ∀ socket outer, Answers (operand socket outer))
    (hbody : ∀ socket, Answers (body socket)) (e : Emit α) :
    Answers (e.run operand body complain) := by
  induction e with
  | done a => exact .pure a
  | complain c => exact .throw fun text => hcomplain c text
  | operand socket outer k ih => exact (hoperand socket outer).bind ih
  | body socket k ih => exact (hbody socket).bind ih
  | fresh base k ih =>
    refine (Answers.requireKey hcomplain base).bind fun _ run text h => ?_
    exact ih _ _ text h
  | define definition k ih =>
    exact (Answers.requireKey hcomplain _).bind fun _ => (Answers.modify _).bind fun _ => ih
  | warn warning k ih => exact (Answers.modify _).bind fun _ => ih
  | defined k ih => exact fun run text h => ih run.definitions run text h

end

end Answers

namespace Generator

variable {g : Generator} {w : Workspace} {b : Block} {compile : Role → Ref → Gen Code}

theorem complaintFault_not_passed (b : Block) (c : Complaint) (text : String) :
    complaintFault b c ≠ .passed text := by
  cases c <;> rintro ⟨⟩

theorem childOf_answers (b : Block) (socket : Value) : Answers (childOf b socket) :=
  (Answers.requireKey (complaintFault_not_passed b) socket).bind fun _ => .pure _

theorem operandCode_answers (compile : Role → Ref → Gen Code) (b : Block) (t : BlockType)
    (socket : Value) (outer : Order) : Answers (operandCode compile b t socket outer) := by
  unfold operandCode
  split
  · refine (childOf_answers b socket).bind fun child => ?_
    cases child with
    | none => exact .pure _
    | some child =>
      refine (Answers.askedBy b _).bind fun code => ?_
      split
      · exact .pure _
      · rw [map_eq_pure_bind]
        exact (Answers.orRaise b _).bind fun _ => .pure _
  · exact .fault _ _

theorem bodyCode_answers (g : Generator) (compile : Role → Ref → Gen Code) (b : Block)
    (t : BlockType) (socket : Value) : Answers (g.bodyCode compile b t socket) := by
  unfold bodyCode
  split
  · refine (childOf_answers b socket).bind fun child => ?_
    cases child with
    | none => exact .pure _
    | some child => exact (Answers.askedBy b _).bind fun code => .orRaise b _
  · exact .fault _ _

theorem describe_answers (hb : b.type.isContainer = false) : Answers (g.describe b) := by
  unfold describe
  rw [hb]
  split
  · contradiction
  · split
    · exact .pure _
    · exact .throw fun _ => by rintro ⟨⟩

theorem visit_answers (w : Workspace) (r : Ref) : Answers (visit w r) := by
  intro run text h
  change (if run.visited.contains r then _ else _ : Gen Unit) run = _ at h
  split at h <;> cases h

theorem enter_answers (g : Generator) (depth : Nat) : Answers (g.enter depth) := by
  unfold enter
  split
  · exact .throw fun _ => by rintro ⟨⟩
  · exact .pure _

theorem emitBlock_answers (hb : (w.block r).type.isContainer = false) :
    Answers (g.emitBlock w compile depth role r) := by
  have hemit : ∀ t, Answers (do
      visit w r
      let emitter ← g.emitterOf (w.block r)
      g.enter depth
      (emitter ⟨w.block r, t, w.variableNames, g.indent⟩).run (operandCode compile (w.block r) t)
        (g.bodyCode compile (w.block r) t) (complaintFault (w.block r))) := by
    intro t
    refine (visit_answers w r).bind fun _ => Answers.bind ?_ fun emitter => ?_
    · unfold emitterOf
      split
      · exact .pure _
      · exact .fault _ _
    · exact (g.enter_answers depth).bind fun _ => .emit (complaintFault_not_passed _)
        (operandCode_answers compile _ t) (g.bodyCode_answers compile _ t) _
  refine (describe_answers hb).bind fun t => ?_
  split
  · exact .fault _ _
  · exact .fault _ _
  · exact hemit t

theorem compile_answers (h : w.Keyed) (fuel depth : Nat) (role : Role) (r : Ref) :
    Answers (g.compile w fuel depth role r) := by
  induction fuel generalizing depth role r with
  | zero => exact .fault _ _
  | succ fuel ih =>
    rw [compile]
    refine (emitBlock_answers (h.types r)).bind fun yield => ?_
    split
    · exact .pure _
    · exact .fault _ _
    · split
      · exact .pure _
      · exact (ih depth .chain _).bind fun _ => .pure _
    · exact .fault _ _

theorem rootCode_answers (h : w.Keyed) (r : Ref) : Answers (g.rootCode w r) :=
  (describe_answers (h.types r)).bind fun _ => (compile_answers h _ _ _ r).bind fun _ => .pure _

theorem looseRoot_answers (h : w.Keyed) (r : Ref) : Answers (g.looseRoot w r) :=
  (rootCode_answers h r).bind fun _ => .modify _

theorem program_answers (h : w.Keyed) : Answers (g.program w) := by
  unfold program
  split
  · exact (Answers.forM (looseRoot_answers h) _).bind fun _ => .pure _
  · refine (rootCode_answers h _).bind fun code => ?_
    exact (Answers.forM (looseRoot_answers h) _).bind fun _ => .pure _

/-- There is a report on every workspace whose types and variables can be looked up. -/
theorem generate_answers (g : Generator) (h : w.Keyed) : ∃ report, g.generate w = .ok report := by
  have hkeys : w.variableNames.any Value.isContainer = false := by
    rw [List.any_eq_false]
    intro v hv
    simp [h.names v hv]
  unfold generate StateT.run
  rw [hkeys]
  cases hrun : g.program w (Run.start w.variableNames) with
  | ok result => exact ⟨_, rfl⟩
  | error fault =>
    cases fault with
    | passed text => exact (program_answers h _ _ hrun).elim
    | _ => exact ⟨_, rfl⟩

end Generator

end BlockSketch.Sketch
