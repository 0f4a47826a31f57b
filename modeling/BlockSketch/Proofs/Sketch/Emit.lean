import BlockSketch.Proofs.Catalog
import BlockSketch.Sketch.Arduino
import BlockSketch.Sketch.Generator

/-!
# How emitters run

The run of an emitter follows its binds. A field is looked at before anything is asked for, and
what it gives depends on the block and its type only.
-/

namespace BlockSketch.Sketch

-- ---------------------------------------------------------------------------
-- Runs of the generator
-- ---------------------------------------------------------------------------

theorem gen_bind_ok {x : Gen α} {f : α → Gen β} :
    (x >>= f) run = .ok (b, run') ↔ ∃ a mid, x run = .ok (a, mid) ∧ f a mid = .ok (b, run') := by
  show (x run >>= fun p => f p.1 p.2) = _ ↔ _
  rw [bind_ok]
  exact ⟨fun ⟨p, hx, hf⟩ => ⟨p.1, p.2, hx, hf⟩, fun ⟨a, mid, hx, hf⟩ => ⟨(a, mid), hx, hf⟩⟩

theorem gen_pure_ok {a : α} : (pure a : Gen α) run = .ok (b, run') ↔ b = a ∧ run' = run := by
  show Except.ok (a, run) = _ ↔ _
  simp [eq_comm]

theorem gen_map_ok {x : Gen α} {f : α → β} :
    (f <$> x) run = .ok (b, run') ↔ ∃ a, x run = .ok (a, run') ∧ f a = b := by
  rw [map_eq_pure_bind, gen_bind_ok]
  simp only [gen_pure_ok]
  exact ⟨fun ⟨a, _, hx, hb, hrun⟩ => ⟨a, hrun ▸ hx, hb.symm⟩,
    fun ⟨a, hx, hb⟩ => ⟨a, run', hx, hb.symm, rfl⟩⟩

@[simp] theorem gen_throw_ok {e : Fault} : (throw e : Gen α) run = .ok r ↔ False :=
  ⟨fun h => (nomatch h), False.elim⟩

-- ---------------------------------------------------------------------------
-- Emitters
-- ---------------------------------------------------------------------------

instance : LawfulMonad Emit := by
  refine .mk' Emit ?_ (fun _ _ => rfl) ?_
  · intro α x
    show x.bind .done = x
    induction x with
    | done a => rfl
    | complain c => rfl
    | define definition k ih => exact congrArg (Emit.define definition) ih
    | warn warning k ih => exact congrArg (Emit.warn warning) ih
    | operand socket outer k ih => exact congrArg (Emit.operand socket outer) (funext ih)
    | body socket k ih => exact congrArg (Emit.body socket) (funext ih)
    | fresh base k ih => exact congrArg (Emit.fresh base) (funext ih)
    | defined k ih => exact congrArg Emit.defined (funext ih)
  · intro α β γ x f g
    show (x.bind f).bind g = x.bind fun a => (f a).bind g
    induction x with
    | done a => rfl
    | complain c => rfl
    | define definition k ih => exact congrArg (Emit.define definition) ih
    | warn warning k ih => exact congrArg (Emit.warn warning) ih
    | operand socket outer k ih => exact congrArg (Emit.operand socket outer) (funext ih)
    | body socket k ih => exact congrArg (Emit.body socket) (funext ih)
    | fresh base k ih => exact congrArg (Emit.fresh base) (funext ih)
    | defined k ih => exact congrArg Emit.defined (funext ih)

section
variable {operand : Value → Order → Gen Value} {body : Value → Gen String}
  {complain : Complaint → Fault}

@[simp] theorem run_pure (a : α) : (pure a : Emit α).run operand body complain = pure a := rfl

theorem run_bind (x : Emit α) (f : α → Emit β) :
    (x >>= f).run operand body complain =
      x.run operand body complain >>= fun a => (f a).run operand body complain := by
  show (x.bind f).run operand body complain = _
  induction x with
  | done a => simp [Emit.bind, Emit.run]
  | complain c => rfl
  | operand socket outer k ih => simp [Emit.bind, Emit.run, ih]
  | body socket k ih => simp [Emit.bind, Emit.run, ih]
  | fresh base k ih => simp [Emit.bind, Emit.run, ih]
  | define definition k ih => simp [Emit.bind, Emit.run, ih]
  | warn warning k ih => simp [Emit.bind, Emit.run, ih]
  | defined k ih => simp [Emit.bind, Emit.run, ih]

@[simp] theorem run_operand (socket : Value) (outer : Order) :
    (Sketch.operand socket outer).run operand body complain = operand socket outer := by
  simp [Sketch.operand, Emit.run]

theorem run_orFault (x : Except String α) :
    (orFault x).run operand body complain =
      match x with
      | .ok a => pure a
      | .error text => throw (complain (.fault text)) := by
  cases x <;> rfl

theorem run_orFault_ok {x : Except String α} :
    (orFault x).run operand body complain run = .ok (a, run') ↔ x = .ok a ∧ run' = run := by
  cases x with
  | error text => simp [run_orFault]
  | ok b =>
    simp only [run_orFault, gen_pure_ok, Except.ok.injEq]
    exact and_congr_left' eq_comm

theorem run_fault (text : String) :
    (fault text : Emit α).run operand body complain = throw (complain (.fault text)) := rfl

end

-- ---------------------------------------------------------------------------
-- Fields
-- ---------------------------------------------------------------------------

/-- The value of a field, its initial one by default, or why it lies outside the field's domain. -/
def fieldValue (t : BlockType) (b : Block) (name : String) : Except String Value :=
  match t.fields.find? name with
  | none => .error (Text.quoted name)
  | some f => (f.validate ((b.fields.find? name).getD f.initial)).mapError FieldError.message

theorem field_eq (site : Site) (name : String) :
    Arduino.field site name = orFault (fieldValue site.type site.block name) := by
  unfold Arduino.field fieldValue
  cases site.type.fields.find? name with
  | none => rfl
  | some f =>
    dsimp only
    cases f.validate ((site.block.fields.find? name).getD f.initial) <;> rfl

theorem fieldValue_ok : fieldValue t b name = .ok v ↔
    ∃ f, t.fields.find? name = some f ∧ f.validate ((b.fields.find? name).getD f.initial) = .ok v := by
  unfold fieldValue
  cases t.fields.find? name <;> simp [mapError_ok]

section
variable {t : BlockType} {b : Block}

theorem fieldValue_labelled (hf : t.fields.find? name = some (Catalog.labelled choices))
    (h : fieldValue t b name = .ok v) : ∃ c ∈ choices, v = .text c.2 := by
  obtain ⟨f, hfind, hv⟩ := fieldValue_ok.mp h
  obtain rfl := Option.some.inj (hf.symm.trans hfind)
  obtain ⟨rfl, hc⟩ := Catalog.labelled_validate.mp hv
  exact hc

theorem fieldValue_number (hf : t.fields.find? name = some (Catalog.number initial low high))
    (h : fieldValue t b name = .ok v) :
    ∃ n, v = .number n ∧ n.isFinite = true ∧ ∀ m ∈ low, n.less (.int m) = false := by
  obtain ⟨f, hfind, hv⟩ := fieldValue_ok.mp h
  obtain rfl := Option.some.inj (hf.symm.trans hfind)
  exact Catalog.number_validate hv

theorem fieldValue_text (hf : t.fields.find? name = some f)
    (hkind : f.kind = .text ∨ f.kind = .variable) (h : fieldValue t b name = .ok v) :
    ∃ s, v = .text s := by
  obtain ⟨f', hfind, hv⟩ := fieldValue_ok.mp h
  obtain rfl := Option.some.inj (hf.symm.trans hfind)
  unfold Field.validate at hv
  cases hv' : (b.fields.find? name).getD f.initial with
  | text s =>
    refine ⟨s, ?_⟩
    rcases hkind with hkind | hkind <;> rw [hkind, hv'] at hv <;> dsimp only at hv
    · exact (Except.ok.inj hv).symm
    · split at hv
      · cases hv
      · exact (Except.ok.inj hv).symm
  | _ => rcases hkind with hkind | hkind <;> rw [hkind, hv'] at hv <;> cases hv

end

-- ---------------------------------------------------------------------------
-- Orders
-- ---------------------------------------------------------------------------

theorem encloses_level (inner outer : Nat) :
    Order.encloses (.level inner) (.level outer) =
      .ok (decide (outer ≤ inner ∧ ¬(inner = outer ∧ (outer = 0 ∨ outer = 99)))) := by
  simp only [Order.encloses, Order.value, Order.isEnd, Order.atomic, Order.loosest, Value.atLeast,
    Value.number?, Number.less_int, Number.same_int, Value.same_int, Except.ok.injEq]
  rw [Bool.eq_iff_iff]
  simp only [Bool.and_eq_true, Bool.or_eq_true, decide_eq_true_eq, Bool.not_eq_true',
    Bool.and_eq_false_iff, decide_eq_false_iff_not, Bool.or_eq_false_iff]
  omega

-- ---------------------------------------------------------------------------
-- The generator's answers
-- ---------------------------------------------------------------------------

namespace Generator

@[simp] theorem requireKey_text (complain : Complaint → Fault) (s : String) :
    requireKey complain (.text s) = pure () := rfl

section
variable {compile : Role → Ref → Gen Code} {t : BlockType} {b : Block}

theorem operandCode_empty (h : t.socket? (.text socket) = some (.value s))
    (hempty : b.input? (.text socket) = none) :
    operandCode compile b t (.text socket) outer = pure s.literal := by
  simp only [operandCode, h, childOf, requireKey_text, pure_bind, hempty]

theorem operandCode_child (h : t.socket? (.text socket) = some (.value s))
    (hchild : b.input? (.text socket) = some child) :
    operandCode compile b t (.text socket) outer = askedBy b (compile .operand child) >>= fun code =>
      if code.text.isEmpty then pure s.literal
      else .text <$> orRaise b (enclose code.text code.order outer) := by
  simp only [operandCode, h, childOf, requireKey_text, pure_bind, hchild]

end

theorem describe_ok {g : Generator} :
    g.describe b run = .ok (t, run') ↔
      b.type.isContainer = false ∧ g.registry.find? b.type = some t ∧ run' = run := by
  unfold describe
  cases b.type.isContainer with
  | true => simp
  | false =>
    cases g.registry.find? b.type with
    | none => simp
    | some t' =>
      simp only [Bool.false_eq_true, if_false, gen_pure_ok, Option.some.injEq, true_and]
      exact and_congr_left' eq_comm

theorem emitterOf_ok {g : Generator} :
    g.emitterOf b run = .ok (emitter, run') ↔
      g.emitters.find? b.type = some emitter ∧ run' = run := by
  unfold emitterOf
  cases g.emitters.find? b.type with
  | none => simp
  | some e =>
    simp only [gen_pure_ok, Option.some.injEq]
    exact and_congr_left' eq_comm

theorem visit_ok (h : visit w r run = .ok (u, run')) :
    run' = { run with visited := r :: run.visited } := by
  have hvisit : visit w r run =
      if run.visited.contains r then .error (blockFault (w.block r) .revisited)
      else .ok ((), { run with visited := r :: run.visited }) := by
    unfold visit
    show (if run.visited.contains r then _ else _ : Gen Unit) run = _
    split <;> rfl
  rw [hvisit] at h
  split at h
  · cases h
  · exact (Prod.mk.inj (Except.ok.inj h)).2.symm

theorem enter_ok {g : Generator} (h : g.enter depth run = .ok (u, run')) : run' = run := by
  unfold enter at h
  split at h
  · cases h
  · exact (gen_pure_ok.mp h).2

/-- A block that fits its role is marked, and then its emitter runs. -/
theorem emitBlock_ok {g : Generator} {w : Workspace} {compile : Role → Ref → Gen Code}
    (h : g.emitBlock w compile depth role r run = .ok (yield, run')) :
    ∃ t emitter, g.registry.find? (w.block r).type = some t ∧
      role = (if t.isStatement then .chain else .operand) ∧
      g.emitters.find? (w.block r).type = some emitter ∧
      (emitter ⟨w.block r, t, w.variableNames, g.indent⟩).run
        (operandCode compile (w.block r) t) (g.bodyCode compile (w.block r) t)
        (complaintFault (w.block r)) { run with visited := r :: run.visited } =
          .ok (yield, run') := by
  simp only [emitBlock, gen_bind_ok] at h
  obtain ⟨t, _, hdescribe, h⟩ := h
  obtain ⟨-, ht, rfl⟩ := describe_ok.mp hdescribe
  refine ⟨t, ?_⟩
  cases role <;> cases hshape : t.isStatement <;> simp only [hshape, gen_throw_ok] at h
  all_goals
    simp only [gen_bind_ok] at h
    obtain ⟨_, _, hvisit, emitter, _, hemitter, _, _, henter, hrun⟩ := h
    obtain ⟨hfind, rfl⟩ := emitterOf_ok.mp hemitter
    rw [enter_ok henter, visit_ok hvisit] at hrun
    exact ⟨emitter, ht, rfl, hfind, hrun⟩

theorem compile_operand_ok {g : Generator} {w : Workspace}
    (h : g.compile w (fuel + 1) depth .operand r run = .ok (code, run')) :
    g.emitBlock w (g.compile w fuel (depth + Role.calls .operand)) (depth + Role.calls .operand)
      .operand r run =
      .ok (.expression code.text code.order, run') := by
  simp only [compile, gen_bind_ok] at h
  obtain ⟨yield, _, hemit, h⟩ := h
  cases yield with
  | expression text order =>
    obtain ⟨rfl, rfl⟩ := gen_pure_ok.mp h
    exact hemit
  | _ => simp at h

theorem compile_chain_ok {g : Generator} {w : Workspace}
    (h : g.compile w (fuel + 1) depth .chain r run = .ok (code, run')) :
    ∃ text mid, g.emitBlock w (g.compile w fuel (depth + Role.calls .chain))
        (depth + Role.calls .chain) .chain r run = .ok (.statement text, mid) ∧
      ((w.block r).next = none ∧ code.text = text ∧ run' = mid ∨
        ∃ next rest, (w.block r).next = some next ∧
          g.compile w fuel depth .chain next mid = .ok (rest, run') ∧ code.text = text ++ rest.text) := by
  simp only [compile, gen_bind_ok] at h
  obtain ⟨yield, mid, hemit, h⟩ := h
  cases yield with
  | statement text =>
    refine ⟨text, mid, hemit, ?_⟩
    cases hnext : (w.block r).next with
    | none =>
      simp only [hnext, gen_pure_ok] at h
      obtain ⟨rfl, rfl⟩ := h
      exact .inl ⟨rfl, rfl, rfl⟩
    | some next =>
      simp only [hnext, gen_bind_ok, gen_pure_ok] at h
      obtain ⟨rest, _, hrest, rfl, rfl⟩ := h
      exact .inr ⟨next, rest, rfl, hrest, rfl⟩
  | _ => simp at h

end Generator

end BlockSketch.Sketch
