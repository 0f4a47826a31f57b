import BlockSketch.Proofs.Sketch.Asking
import Mathlib.Data.List.Perm.Subperm

/-!
# Failures of generation

A run of the generator goes along the walk through the workspace and fails at its first fault, with
that fault. A run marks every block that it meets, and no block twice, so that its fuel suffices on
every graph.
-/

namespace BlockSketch.Sketch

-- ---------------------------------------------------------------------------
-- Ends of runs
-- ---------------------------------------------------------------------------

theorem gen_bind_error {x : Gen α} {k : α → Gen β} (h : x run = .error f) :
    (x >>= k) run = .error f := by
  have hbind : (x >>= k) run = x run >>= fun p => k p.1 p.2 := rfl
  rw [hbind, h]
  rfl

theorem gen_bind_ok_eq {x : Gen α} {k : α → Gen β} (h : x run = .ok (a, run')) :
    (x >>= k) run = k a run' := by
  have hbind : (x >>= k) run = x run >>= fun p => k p.1 p.2 := rfl
  rw [hbind, h]
  rfl

/-- A computation fails with a fault if there is one, and otherwise ends as it should. -/
def Ends (stop : Option Fault) (x : Gen α) (run : Run) (Q : α → Run → Prop) : Prop :=
  match stop with
  | some f => x run = .error f
  | none => ∃ a run', x run = .ok (a, run') ∧ Q a run'

namespace Ends

theorem of_eq {x y : Gen α} (heq : x run = y run') (h : Ends stop y run' Q) :
    Ends stop x run Q := by
  unfold Ends at h ⊢
  rw [heq]
  exact h

theorem pure {Q : α → Run → Prop} (h : Q a run) : Ends none (pure a) run Q := ⟨a, run, rfl, h⟩

theorem after {x : Gen α} {k : α → Gen β} (hx : x run = .ok (a, run'))
    (hk : Ends stop (k a) run' Q) : Ends stop (x >>= k) run Q :=
  .of_eq (gen_bind_ok_eq hx) hk

theorem bind {x : Gen α} {k : α → Gen β} {P : α → Run → Prop} (hx : Ends first x run P)
    (hk : ∀ a run', P a run' → Ends second (k a) run' Q) :
    Ends (first.or second) (x >>= k) run Q := by
  cases first with
  | some f => exact gen_bind_error (f := f) hx
  | none =>
    obtain ⟨a, run', hrun, ha⟩ := hx
    exact .after hrun (hk a run' ha)

theorem andThen {x : Gen α} {k : α → Gen β} {P : α → Run → Prop} (hx : Ends stop x run P)
    (hk : ∀ a run', P a run' → Ends none (k a) run' Q) : Ends stop (x >>= k) run Q := by
  rw [← Option.or_none (o := stop)]
  exact hx.bind hk

theorem mono {x : Gen α} {P Q : α → Run → Prop} (h : Ends stop x run P)
    (hPQ : ∀ a run', P a run' → Q a run') : Ends stop x run Q := by
  cases stop with
  | some f => exact h
  | none =>
    obtain ⟨a, run', hrun, ha⟩ := h
    exact ⟨a, run', hrun, hPQ a run' ha⟩

end Ends

-- ---------------------------------------------------------------------------
-- Faults on their way up
-- ---------------------------------------------------------------------------

/-- A computation as it is seen by who asked for it. -/
def heard (w : Workspace) (asker : Option Asker) (x : Gen α) : Gen α :=
  asker.elim x fun asker => Generator.askedBy (w.block asker.block) x

section
variable {w : Workspace} {asker : Option Asker}

@[simp] theorem heard_pure (a : α) : heard w asker (pure a) = pure a := by
  cases asker <;> rfl

theorem heard_bind (x : Gen α) (k : α → Gen β) :
    heard w asker (x >>= k) = heard w asker x >>= fun a => heard w asker (k a) := by
  cases asker with
  | none => rfl
  | some asker =>
    funext run
    show ((x >>= k) run).mapError _ = (x run).mapError _ >>= fun p => (k p.1 p.2).mapError _
    have hbind : (x >>= k) run = x run >>= fun p => k p.1 p.2 := rfl
    rw [hbind]
    cases x run <;> rfl

theorem heard_error {x : Gen α} (h : x run = .error f) : heard w asker x run =
    .error (asker.elim f fun asker => Generator.toldBy (w.block asker.block) f) := by
  cases asker with
  | none => exact h
  | some asker =>
    show (x run).mapError _ = _
    rw [h]
    rfl

theorem heard_told {x : Gen α} (h : x run = .error f) (hf : Told f) :
    heard w asker x run = .error f := by
  rw [heard_error h]
  cases asker with
  | none => rfl
  | some asker => exact congrArg Except.error (hf _)

theorem Ends.heard {x : Gen α} {Q : α → Run → Prop} (h : Ends stop x run Q)
    (hstop : ∀ f, stop = some f → Told f) : Ends stop (heard w asker x) run Q := by
  cases stop with
  | some f => exact heard_told h (hstop f rfl)
  | none =>
    obtain ⟨a, run', hrun, ha⟩ := h
    refine ⟨a, run', ?_, ha⟩
    cases asker with
    | none => exact hrun
    | some asker =>
      show (x run).mapError _ = _
      rw [hrun]
      rfl

end

-- ---------------------------------------------------------------------------
-- Marked blocks
-- ---------------------------------------------------------------------------

/-- The state of a run behind some steps of the walk, with fuel that suffices from there. -/
structure Agrees (w : Workspace) (fuel : Nat) (walked : List Step) (run : Run) : Prop where
  visited : ∀ r, r ∈ run.visited ↔ r ∈ met walked
  nodup : run.visited.Nodup
  bounded : ∀ r ∈ run.visited, r < w.blocks.size
  room : w.blocks.size < run.visited.length + fuel
  textual : Textual run.definitions

theorem Textual.add (h : Textual definitions) (key : Value) (text : String) (placement : Placement) :
    Textual (definitions.add ⟨key, .text text, placement⟩) := by
  unfold Definitions.add
  induction definitions with
  | nil => simp [Textual, Table.put]
  | cons e definitions ih =>
    obtain ⟨he, hrest⟩ := List.forall_mem_cons.mp h
    rw [Table.put]
    split
    · exact List.forall_mem_cons.mpr ⟨⟨text, rfl⟩, hrest⟩
    · exact List.forall_mem_cons.mpr ⟨he, ih hrest⟩

theorem met_append (first second : List Step) : met (first ++ second) = met first ++ met second :=
  List.filterMap_append

theorem lt_size_of_registered {w : Workspace}
    (h : Catalog.registry.find? (w.block r).type = some t) : r < w.blocks.size := by
  refine Nat.lt_of_not_le fun hle => ?_
  have htype : (w.block r).type = .null := by
    rw [Workspace.block, Array.getElem?_eq_none hle]
    rfl
  rw [htype, Catalog.registry_null] at h
  cases h

seal Catalog.registry

namespace Agrees
variable {w : Workspace}

theorem fuel_pos (h : Agrees w fuel walked run) : 0 < fuel := by
  have hsubset : run.visited ⊆ List.range w.blocks.size :=
    fun r hr => List.mem_range.mpr (h.bounded r hr)
  have hlength := (List.subperm_of_subset h.nodup hsubset).length_le
  rw [List.length_range] at hlength
  have := h.room
  omega

theorem weaken (h : Agrees w fuel walked run) (hle : fuel ≤ fuel') : Agrees w fuel' walked run :=
  { h with room := Nat.lt_of_lt_of_le h.room (Nat.add_le_add_left hle _) }

/-- A new block is marked, for which one unit of fuel is given up. -/
theorem mark (h : Agrees w (fuel + 1) walked run) (hnew : r ∉ run.visited)
    (hr : r < w.blocks.size) (position : Position) :
    Agrees w fuel (walked ++ [Step.block position r]) { run with visited := r :: run.visited } where
  visited x := by
    simp only [List.mem_cons, h.visited x, met_append, List.mem_append]
    simp [met, Step.met?, or_comm]
  nodup := List.nodup_cons.mpr ⟨hnew, h.nodup⟩
  bounded x hx := by
    rcases List.mem_cons.mp hx with rfl | hx
    · exact hr
    · exact h.bounded x hx
  room := by
    have := h.room
    simp only [List.length_cons]
    omega
  textual := h.textual

theorem names (h : Agrees w fuel walked run) (r : Ref) : Agrees w fuel (walked ++ [Step.names r]) run :=
  { h with visited := fun x => by simp [h.visited, met, Step.met?] }

end Agrees

-- ---------------------------------------------------------------------------
-- Sockets
-- ---------------------------------------------------------------------------

/-- The code of a block is found along the walk from it. -/
def Compiles (room : Option Nat) (w : Workspace) (fuel depth : Nat)
    (compile : Nat → Role → Ref → Gen Code) : Prop :=
  ∀ position role r {walked run},
    (∀ t, Catalog.registry.find? (w.block r).type = some t → role = position.role t) →
    Agrees w fuel walked run →
    Ends (firstFault room w walked (walk w depth position r))
      (heard w position.asker? (compile position.start role r)) run fun code run' =>
        Agrees w fuel (walked ++ walk w depth position r) run' ∧
          (role = .operand → ∃ n, code.order = .level n)

theorem enclose_level (code : String) (inner outer : Nat) :
    ∃ text, enclose code (.level inner) (.level outer) = .ok text := by
  simp only [enclose, encloses_level]
  exact ⟨_, rfl⟩

section
variable {room : Option Nat} {w : Workspace} {fuel depth : Nat}
  {compile : Nat → Role → Ref → Gen Code} (hcompile : Compiles room w fuel depth compile)
  (ht : Catalog.registry.find? v = some t) (asker : Asker) (hagrees : Agrees w fuel walked run)
include hcompile ht hagrees

theorem operandCode_ends (hs : .value s ∈ t.sockets) (outer : Nat) :
    Ends (firstFault room w walked (inSocket (walk w depth) asker (w.block asker.block) (.value s)))
      (Generator.operandCode (compile asker.depth) (w.block asker.block) t s.name (.level outer)) run
      fun v run' =>
        Agrees w fuel
          (walked ++ inSocket (walk w depth) asker (w.block asker.block) (.value s)) run' ∧
          ∃ code, v = .text code := by
  obtain ⟨literal, hliteral⟩ := Catalog.literal_text t (Catalog.find?_registry ht).1 s hs
  obtain ⟨name, hname⟩ := (Catalog.registry_regular.socketNames ht).1 _ hs
  have hsocket := Catalog.registry_regular.socket?_mem ht hs
  simp only [Socket.name] at hname hsocket
  rw [hname] at hsocket
  simp only [inSocket, Socket.name, hname]
  cases hchild : (w.block asker.block).input? (.text name) with
  | none =>
    rw [Generator.operandCode_empty hsocket hchild]
    exact .pure ⟨by simpa using hagrees, literal, hliteral⟩
  | some child =>
    rw [Generator.operandCode_child hsocket hchild]
    simp only [Option.toList_some, List.flatMap_singleton]
    refine (hcompile (.operand asker) .operand child (fun _ _ => rfl) hagrees).andThen ?_
    rintro code run' ⟨hagrees', horder⟩
    split
    · exact .pure ⟨hagrees', literal, hliteral⟩
    · obtain ⟨inner, hinner⟩ := horder rfl
      obtain ⟨text, htext⟩ := enclose_level code.text inner outer
      rw [hinner, htext]
      exact .pure ⟨hagrees', text, rfl⟩

theorem bodyCode_ends {g : Generator} (hindent : g.indent = .text indent)
    (hs : .statement name ∈ t.sockets) :
    Ends (firstFault room w walked
        (inSocket (walk w depth) asker (w.block asker.block) (.statement name)))
      (g.bodyCode (compile asker.depth) (w.block asker.block) t name) run fun _ run' =>
        Agrees w fuel
          (walked ++ inSocket (walk w depth) asker (w.block asker.block) (.statement name)) run' := by
  obtain ⟨text, rfl⟩ := (Catalog.registry_regular.socketNames ht).1 _ hs
  have hsocket := Catalog.registry_regular.socket?_mem ht hs
  simp only [Socket.name] at hsocket
  simp only [inSocket, Socket.name, Generator.bodyCode, hsocket, Generator.childOf,
    Generator.requireKey_text, pure_bind]
  cases (w.block asker.block).input? (.text text) with
  | none => exact .pure (by simpa using hagrees)
  | some child =>
    simp only [Option.toList_some, List.flatMap_singleton]
    refine (hcompile (.statement (some asker)) .chain child (fun _ _ => rfl) hagrees).andThen ?_
    rintro code run' ⟨hagrees', -⟩
    rw [hindent]
    exact .pure hagrees'

end

-- ---------------------------------------------------------------------------
-- Emitters
-- ---------------------------------------------------------------------------

theorem Agrees.fresh (h : Agrees w fuel walked run) (base : Value) :
    Agrees w fuel walked (run.freshName base).2 :=
  { h with }

theorem Agrees.define (h : Agrees w fuel walked run) (key : Value) (text : String)
    (placement : Placement) :
    Agrees w fuel walked
      { run with definitions := run.definitions.add ⟨key, .text text, placement⟩ } :=
  { h with textual := h.textual.add key text placement }

section
variable {room : Option Nat} {w : Workspace} {fuel : Nat} {site : Site}
  {inside : Socket → List Step} {operand : Value → Order → Gen Value} {body : Value → Gen String}

/-- An emitter fails at its first check that does, then at the first fault in its sockets, then with
its own last complaint. -/
theorem Follows.ends (h : Follows site cs sockets last p)
    (hoperand : ∀ {walked run}, Agrees w fuel walked run → ∀ s, .value s ∈ site.type.sockets →
      ∀ outer, Ends (firstFault room w walked (inside (.value s))) (operand s.name (.level outer)) run
        fun v run' => Agrees w fuel (walked ++ inside (.value s)) run' ∧ ∃ code, v = .text code)
    (hbody : ∀ {walked run}, Agrees w fuel walked run → ∀ name,
      .statement name ∈ site.type.sockets →
      Ends (firstFault room w walked (inside (.statement name))) (body name) run
        fun _ run' => Agrees w fuel (walked ++ inside (.statement name)) run')
    (hempty : ∀ s : Socket, site.block.input? s.name = none → inside s = [])
    (hsockets : ∀ s ∈ sockets, s ∈ site.type.sockets) (hagrees : Agrees w fuel walked run) :
    Ends (((complaint site.type site.block site.variableNames cs).map (told site.block)).or
        ((firstFault room w walked (sockets.flatMap inside)).or (last.map (told site.block))))
      (p.run operand body (Generator.complaintFault site.block)) run fun yield run' =>
        Agrees w fuel (walked ++ sockets.flatMap inside) run' ∧ Suits site.type yield := by
  induction h generalizing walked run with
  | done hsuits => exact .pure ⟨by simpa using hagrees, hsuits⟩
  | complain => rfl
  | @check p cs sockets last c hfails hrest ih =>
    simp only [complaint, List.findSome?_cons]
    cases hc : c.complaint site.type site.block site.variableNames with
    | some text =>
      rw [hfails text hc]
      rfl
    | none => exact ih hc hsockets hagrees
  | @operand sockets last k s n hrest ih =>
    obtain ⟨hs, hsockets⟩ := List.forall_mem_cons.mp hsockets
    rw [List.flatMap_cons, firstFault_append, ← List.append_assoc, Option.or_assoc]
    refine (hoperand hagrees s hs n).bind ?_
    rintro _ run' ⟨hagrees', code, rfl⟩
    exact ih code hsockets hagrees'
  | @body sockets last k name hrest ih =>
    obtain ⟨hs, hsockets⟩ := List.forall_mem_cons.mp hsockets
    rw [List.flatMap_cons, firstFault_append, ← List.append_assoc, Option.or_assoc]
    exact (hbody hagrees name hs).bind fun code _ hagrees' => ih code hsockets hagrees'
  | @skip sockets last p s hnone hrest ih =>
    rw [List.flatMap_cons, hempty s hnone, List.nil_append]
    exact ih (List.forall_mem_cons.mp hsockets).2 hagrees
  | fresh hrest ih => exact .of_eq rfl (ih _ hsockets (hagrees.fresh _))
  | define hrest ih => exact .of_eq rfl (ih hsockets (hagrees.define _ _ _))
  | defined hrest ih => exact .of_eq rfl (ih _ hagrees.textual hsockets hagrees)

end

-- ---------------------------------------------------------------------------
-- Blocks
-- ---------------------------------------------------------------------------

/-- The generator for the built-in blocks. -/
def arduino (indent : String) (room : Option Nat := none) : Generator where
  registry := Catalog.registry
  emitters := Arduino.emitters
  indent := .text indent
  room

section
variable {w : Workspace} {fuel depth : Nat} {room : Option Nat}

theorem arduino_describe (ht : Catalog.registry.find? b.type = some t) (indent : String) :
    (arduino indent room).describe b = pure t := by
  obtain ⟨-, hid⟩ := Catalog.find?_registry ht
  obtain ⟨name, hname⟩ := Catalog.typeId_text t (Catalog.find?_registry ht).1
  have hkey : b.type.isContainer = false := by rw [hid, hname]; rfl
  have hfind : (arduino indent room).registry.find? b.type = some t := ht
  simp [Generator.describe, hkey, hfind]

theorem visit_new (w : Workspace) (hnew : r ∉ run.visited) :
    Generator.visit w r run = .ok ((), { run with visited := r :: run.visited }) := by
  have hcontains : run.visited.contains r = false := by simpa using hnew
  show (if run.visited.contains r then _ else _ : Gen Unit) run = _
  rw [hcontains]
  rfl

theorem visit_again (w : Workspace) (hvisited : r ∈ run.visited) :
    Generator.visit w r run = .error (Generator.blockFault (w.block r) .revisited) := by
  have hcontains : run.visited.contains r = true := by simpa using hvisited
  show (if run.visited.contains r then _ else _ : Gen Unit) run = _
  rw [hcontains]
  rfl

theorem firstFault_inside (room : Option Nat) (w : Workspace) (walked ss : List Step) (r : Ref) :
    firstFault room w walked (ss ++ if w.isEntry r then [Step.names r] else []) =
      (firstFault room w walked ss).or
        ((if w.isEntry r then nameComplaint w.variableNames else none).map (told (w.block r))) := by
  rw [firstFault_append]
  split
  · simp [firstFault, stepFault_names]
  · simp [firstFault]

theorem Agrees.inside (h : Agrees w fuel walked run) (r : Ref) :
    Agrees w fuel (walked ++ if w.isEntry r then [Step.names r] else []) run := by
  split
  · exact h.names r
  · simpa using h

theorem emitBlock_eq {position : Position} (indent : String) (compile : Role → Ref → Gen Code)
    (ht : Catalog.registry.find? (w.block r).type = some t) (hfits : position.fits t = true)
    (hemitter : Arduino.emitters.find? (w.block r).type = some emitter) (depth : Nat) :
    (arduino indent room).emitBlock w compile depth (position.role t) r =
      Generator.visit w r >>= fun _ => (arduino indent room).enter depth >>= fun _ =>
        (emitter ⟨w.block r, t, w.variableNames, .text indent⟩).run
          (Generator.operandCode compile (w.block r) t)
          ((arduino indent room).bodyCode compile (w.block r) t)
          (Generator.complaintFault (w.block r)) := by
  have hfind : (arduino indent room).emitterOf (w.block r) = pure emitter := by
    have hfind : (arduino indent room).emitters.find? (w.block r).type = some emitter := hemitter
    rw [Generator.emitterOf, hfind]
  rw [Generator.emitBlock, arduino_describe ht, pure_bind, hfind]
  cases position <;> cases hshape : t.isStatement <;>
    simp_all [Position.fits, Position.role, arduino]

theorem emitter_ends (indent : String)
    (hcompile : Compiles room w fuel depth ((arduino indent room).compile w fuel))
    (ht : Catalog.registry.find? (w.block r).type = some t) (calls : Nat)
    (hagrees : Agrees w fuel walked run) :
    ∃ emitter, Arduino.emitters.find? (w.block r).type = some emitter ∧
      Ends (((complaint t (w.block r) w.variableNames (checks t)).map (told (w.block r))).or
          (firstFault room w walked
            (t.sockets.flatMap (inSocket (walk w depth) ⟨r, calls⟩ (w.block r)) ++
              if w.isEntry r then [Step.names r] else [])))
        ((emitter ⟨w.block r, t, w.variableNames, .text indent⟩).run
          (Generator.operandCode ((arduino indent room).compile w fuel calls) (w.block r) t)
          ((arduino indent room).bodyCode ((arduino indent room).compile w fuel calls) (w.block r) t)
          (Generator.complaintFault (w.block r))) run fun yield run' =>
          Agrees w fuel (walked ++
            (t.sockets.flatMap (inSocket (walk w depth) ⟨r, calls⟩ (w.block r)) ++
              if w.isEntry r then [Step.names r] else [])) run' ∧ Suits t yield := by
  obtain ⟨hmem, hid⟩ := Catalog.find?_registry ht
  obtain ⟨emitter, hemitter, hfollows⟩ := emitters_follow t hmem
  rw [← hid] at hemitter
  have hending : (if w.isEntry r then nameComplaint w.variableNames else none) =
      ending t w.variableNames := by rw [ending, Workspace.isEntry, hid]
  refine ⟨emitter, hemitter, ?_⟩
  rw [firstFault_inside, hending]
  have hends := (@hfollows ⟨w.block r, t, w.variableNames, .text indent⟩ indent rfl rfl).ends
    (fun h s hs outer => operandCode_ends hcompile ht ⟨r, calls⟩ h hs outer)
    (fun h name hs => bodyCode_ends hcompile ht ⟨r, calls⟩ h (g := arduino indent room) rfl hs)
    (fun s hnone => by simp [inSocket, hnone]) (fun s hs => hs) hagrees
  refine hends.mono ?_
  rintro yield run' ⟨hagrees', hsuits⟩
  rw [← List.append_assoc]
  exact ⟨hagrees'.inside r, hsuits⟩

theorem emitter_told {walked : List Step} {asker : Asker} {names : List Value}
    (h : ((complaint t (w.block r) names (checks t)).map (told (w.block r))).or
      (firstFault room w walked
        (t.sockets.flatMap (inSocket (walk w depth) asker (w.block r)) ++
          if w.isEntry r then [Step.names r] else [])) = some f) : Told f := by
  rcases Option.or_eq_some_iff.mp h with h | ⟨-, h⟩
  · obtain ⟨text, -, rfl⟩ := Option.map_eq_some_iff.mp h
    exact told_told _ _
  · refine firstFault_told (fun s hs => ?_) h
    rcases List.mem_append.mp hs with hs | hs
    · obtain ⟨socket, -, hs⟩ := List.mem_flatMap.mp hs
      exact inSocket_asked walk_asked hs
    · split at hs
      · rw [List.mem_singleton.mp hs]
        trivial
      · cases hs

theorem emitBlock_ends (indent : String)
    (hcompile : Compiles room w fuel depth ((arduino indent room).compile w fuel))
    (ht : Catalog.registry.find? (w.block r).type = some t) (hfits : position.fits t = true)
    (hagrees : Agrees w (fuel + 1) walked run) (hnew : r ∉ met walked) :
    Ends ((stepFault room w walked (.block position r)).or
        (firstFault room w (walked ++ [Step.block position r])
          (t.sockets.flatMap (inSocket (walk w depth) ⟨r, position.depth t⟩ (w.block r)) ++
            if w.isEntry r then [Step.names r] else [])))
      (heard w position.asker? ((arduino indent room).emitBlock w
        ((arduino indent room).compile w fuel (position.depth t)) (position.depth t)
        (position.role t) r)) run
      fun yield run' =>
        Agrees w fuel ((walked ++ [Step.block position r]) ++
          (t.sockets.flatMap (inSocket (walk w depth) ⟨r, position.depth t⟩ (w.block r)) ++
            if w.isEntry r then [Step.names r] else [])) run' ∧ Suits t yield := by
  have hvisited : r ∉ run.visited := fun h => hnew ((hagrees.visited r).mp h)
  have hmarked := hagrees.mark hvisited (lt_size_of_registered ht) position
  obtain ⟨emitter, hemitter, hends⟩ := emitter_ends indent hcompile ht (position.depth t) hmarked
  rw [emitBlock_eq indent _ ht hfits hemitter, stepFault_new ht hfits hnew, overflowAt,
    Generator.enter]
  cases hroom : room.any (· < position.depth t) with
  | true =>
    have hthrown : (arduino indent room).room.any (· < position.depth t) = true := hroom
    rw [if_pos rfl, if_pos hthrown, Option.some_or]
    exact heard_error (f := .overflow) (gen_bind_ok_eq (visit_new w hvisited))
  | false =>
    have hentered : (arduino indent room).room.any (· < position.depth t) = false := hroom
    rw [hentered, if_neg Bool.false_ne_true, if_neg Bool.false_ne_true, pure_bind, Option.none_or]
    exact (Ends.after (visit_new w hvisited) hends).heard fun f hf => emitter_told hf

/-- A block of no registered type, in a position that it does not fit, or met before. -/
theorem emitBlock_fails (indent : String) (compile : Role → Ref → Gen Code) (position : Position)
    (htype : (w.block r).type.isContainer = false)
    (hrole : ∀ t, Catalog.registry.find? (w.block r).type = some t → role = position.role t)
    (hagrees : Agrees w fuel walked run)
    (hbad : ∀ t, Catalog.registry.find? (w.block r).type = some t →
      position.fits t = true → r ∈ met walked) (depth : Nat) :
    ∃ f, stepFault room w walked (.block position r) = some f ∧ Told f ∧
      (arduino indent room).emitBlock w compile depth role r run = .error f := by
  cases ht : Catalog.registry.find? (w.block r).type with
  | none =>
    have hfind : (arduino indent room).registry.find? (w.block r).type = none := ht
    refine ⟨.unknownType (w.block r).type (w.block r).id, by simp [stepFault, finding, ht]; rfl,
      fun _ => rfl, ?_⟩
    rw [Generator.emitBlock, Generator.describe, htype, hfind]
    rfl
  | some t =>
    obtain rfl := hrole t ht
    have hmet := hbad t ht
    simp only [stepFault, finding, ht]
    cases hfits : position.fits t with
    | false =>
      rw [Generator.emitBlock, arduino_describe ht, pure_bind]
      cases position with
      | root => cases hfits
      | operand =>
        have hshape : t.isStatement = true := by simpa [Position.fits] using hfits
        exact ⟨_, rfl, fun _ => rfl, by rw [Position.role, hshape]; rfl⟩
      | statement =>
        have hshape : t.isStatement = false := hfits
        exact ⟨_, rfl, fun _ => rfl, by rw [Position.role, hshape]; rfl⟩
    | true =>
      obtain ⟨hmem, hid⟩ := Catalog.find?_registry ht
      obtain ⟨emitter, hemitter, -⟩ := emitters_follow t hmem
      rw [← hid] at hemitter
      have hvisited := visit_again w ((hagrees.visited r).mpr (hmet hfits))
      refine ⟨Generator.blockFault (w.block r) .revisited, by simp [hmet hfits]; rfl, fun _ => rfl,
        ?_⟩
      rw [emitBlock_eq indent compile ht hfits hemitter]
      exact gen_bind_error hvisited

/-- Behind a block, its successor is compiled if the block is a statement. -/
theorem compile_ends (indent : String) (room : Option Nat)
    (htypes : ∀ r, (w.block r).type.isContainer = false) (hdepth : fuel ≤ depth) :
    Compiles room w fuel depth ((arduino indent room).compile w fuel) := by
  induction fuel generalizing depth with
  | zero =>
    intro position role r walked run _ hagrees
    exact (Nat.lt_irrefl 0 hagrees.fuel_pos).elim
  | succ fuel ih =>
    intro position role r walked run hrole hagrees
    obtain ⟨depth, rfl⟩ : ∃ d, depth = d + 1 := ⟨depth - 1, by omega⟩
    have hcompile := ih (Nat.le_of_succ_le_succ hdepth)
    rw [Generator.compile, heard_bind]
    by_cases hgood : ∃ t, Catalog.registry.find? (w.block r).type = some t ∧
        position.fits t = true ∧ r ∉ met walked
    · obtain ⟨t, ht, hfits, hnew⟩ := hgood
      obtain rfl := hrole t ht
      have hemit := emitBlock_ends indent hcompile ht hfits hagrees hnew
      rw [← Position.depth_eq hfits]
      simp only [walk_succ, ht]
      rw [firstFault, firstFault_append, ← Option.or_assoc, Position.chains_eq hfits]
      refine hemit.bind ?_
      rintro yield run' ⟨hagrees', hsuits⟩
      rw [Position.role_eq hfits]
      rw [show ∀ a b : List Step, walked ++ (Step.block position r :: (a ++ b)) =
        walked ++ [Step.block position r] ++ a ++ b by simp]
      generalize walked ++ [Step.block position r] ++ _ = walked' at hagrees' ⊢
      cases yield with
      | statement text =>
        have hshape : t.isStatement = true := hsuits
        simp only [hshape, if_true]
        cases (w.block r).next with
        | none =>
          simp only [heard_pure]
          exact .pure ⟨by simpa using hagrees'.weaken (Nat.le_succ _), by rintro ⟨⟩⟩
        | some next =>
          simp only [Option.toList_some, List.flatMap_singleton, heard_bind, heard_pure]
          refine (hcompile (.statement position.asker?) .chain next (fun _ _ => rfl)
            hagrees').andThen ?_
          rintro rest run'' ⟨hagrees'', -⟩
          exact .pure ⟨hagrees''.weaken (Nat.le_succ _), by rintro ⟨⟩⟩
      | expression text order =>
        cases order with
        | given => exact hsuits.elim
        | level n =>
          have hshape : t.isStatement = false := hsuits
          simp only [hshape, Bool.false_eq_true, if_false, heard_pure]
          exact .pure ⟨by simpa using hagrees'.weaken (Nat.le_succ _), fun _ => ⟨n, rfl⟩⟩
      | other => exact hsuits.elim
    · obtain ⟨f, hfault, hf, hfails⟩ := emitBlock_fails indent
        ((arduino indent room).compile w fuel (position.start + role.calls)) position (htypes r) hrole
        hagrees (fun t ht hfits => by_contra fun hnew => hgood ⟨t, ht, hfits, hnew⟩)
        (position.start + role.calls)
      rw [walk_succ, firstFault, hfault]
      exact gen_bind_error (heard_told hfails hf)

-- ---------------------------------------------------------------------------
-- Roots
-- ---------------------------------------------------------------------------

theorem rootCode_ends (indent : String) (htypes : ∀ r, (w.block r).type.isContainer = false)
    (hdepth : w.blocks.size < depth) (hagrees : Agrees w (w.blocks.size + 1) walked run) (r : Ref) :
    Ends (firstFault room w walked (walk w depth .root r)) ((arduino indent room).rootCode w r) run
      fun _ run' => Agrees w (w.blocks.size + 1) (walked ++ walk w depth .root r) run' := by
  have hcompile := compile_ends indent room htypes hdepth
  rw [Generator.rootCode]
  cases ht : Catalog.registry.find? (w.block r).type with
  | none =>
    have hfind : (arduino indent room).registry.find? (w.block r).type = none := ht
    obtain ⟨depth, rfl⟩ : ∃ d, depth = d + 1 := ⟨depth - 1, by omega⟩
    simp only [walk_succ, ht, firstFault, stepFault, finding, Generator.describe, htypes r, hfind]
    rfl
  | some t =>
    rw [arduino_describe ht, pure_bind]
    refine (hcompile .root _ r ?_ hagrees).andThen ?_
    · intro t' ht'
      obtain rfl := Option.some.inj (ht.symm.trans ht')
      rfl
    · rintro code run' ⟨hagrees', -⟩
      exact .pure hagrees'

theorem Agrees.warn (h : Agrees w fuel walked run) (warnings : List Value) :
    Agrees w fuel walked { run with warnings } :=
  { h with }

theorem looseRoots_ends (indent : String) (htypes : ∀ r, (w.block r).type.isContainer = false)
    (hdepth : w.blocks.size < depth) (hagrees : Agrees w (w.blocks.size + 1) walked run)
    (roots : List Ref) :
    Ends (firstFault room w walked (roots.flatMap (walk w depth .root)))
      (roots.forM ((arduino indent room).looseRoot w)) run fun _ run' =>
        Agrees w (w.blocks.size + 1) (walked ++ roots.flatMap (walk w depth .root)) run' := by
  induction roots generalizing walked run with
  | nil => exact .pure (by simpa using hagrees)
  | cons r roots ih =>
    rw [List.flatMap_cons, firstFault_append, ← List.append_assoc]
    refine Ends.bind (k := fun _ => roots.forM ((arduino indent room).looseRoot w)) ?_
      fun _ _ hagrees' => ih hagrees'
    exact (rootCode_ends indent htypes hdepth hagrees r).andThen fun _ _ hagrees' =>
      ⟨_, _, rfl, hagrees'.warn _⟩

theorem program_ends (indent : String) (room : Option Nat)
    (htypes : ∀ r, (w.block r).type.isContainer = false) (hdepth : w.blocks.size < depth)
    (hagrees : Agrees w (w.blocks.size + 1) [] run) :
    Ends (firstFault room w [] (steps w depth)) ((arduino indent room).program w) run
      fun _ _ => True := by
  unfold Generator.program steps rootOrder
  cases w.entry? with
  | none =>
    exact (looseRoots_ends indent htypes hdepth hagrees w.roots).andThen fun _ _ _ => .pure trivial
  | some entry =>
    simp only [List.flatMap_cons, firstFault_append]
    refine (rootCode_ends indent htypes hdepth hagrees entry).bind fun code _ hagrees' => ?_
    exact (looseRoots_ends indent htypes hdepth hagrees' _).andThen fun _ _ _ => .pure trivial

theorem agrees_start (w : Workspace) (names : List Value) :
    Agrees w (w.blocks.size + 1) [] (Run.start names) where
  visited r := by simp [Run.start, met]
  nodup := List.nodup_nil
  bounded r hr := by cases hr
  room := Nat.lt_of_lt_of_le (Nat.lt_succ_self _) (Nat.le_add_left _ _)
  textual := by simp [Run.start, Textual]

theorem type_not_container (htypes : ∀ b ∈ w.blocks, ∃ name, b.type = .text name) (r : Ref) :
    (w.block r).type.isContainer = false := by
  rw [Workspace.block]
  cases hb : w.blocks[r]? with
  | none => rfl
  | some b =>
    obtain ⟨name, hname⟩ := htypes b (Array.mem_of_getElem? hb)
    rw [Option.getD_some, hname]
    rfl

/-- A run reports success if no step has a fault, and otherwise the first fault. -/
theorem generate_ends (indent : String) (room : Option Nat)
    (htypes : ∀ b ∈ w.blocks, ∃ name, b.type = .text name)
    (hnames : ∀ v ∈ w.variableNames, ∃ name, v = .text name) (hdepth : w.blocks.size < depth) :
    ∃ report, (arduino indent room).generate w = .ok report ∧
      match firstFault room w [] (steps w depth) with
      | none => report.error = none
      | some f => report = .ofFault f := by
  have hkeys : w.variableNames.any Value.isContainer = false := by
    rw [List.any_eq_false]
    intro v hv
    obtain ⟨name, rfl⟩ := hnames v hv
    simp [Value.isContainer]
  have hends := program_ends indent room (type_not_container htypes) hdepth
    (agrees_start w w.variableNames)
  unfold Generator.generate StateT.run
  rw [hkeys]
  cases hfault : firstFault room w [] (steps w depth) with
  | none =>
    rw [hfault] at hends
    obtain ⟨code, run, hrun, -⟩ := hends
    rw [hrun]
    exact ⟨⟨code, none, run.warnings⟩, rfl, rfl⟩
  | some f =>
    rw [hfault] at hends
    refine ⟨.ofFault f, ?_, rfl⟩
    rw [show (arduino indent room).program w (Run.start w.variableNames) = .error f from hends]
    cases f with
    | passed text => exact (firstFault_not_passed hfault rfl).elim
    | _ => rfl

end

/-- A pause that follows itself in a loop. -/
def circle : Workspace where
  blocks := #[
    { type := "controls_setup", id := "entry", inputs := [("LOOP", some 1)] },
    { type := "arduino_delay", id := "pause", next := some 1 }]
  roots := [0]
  variableNames := ["speed"]

end BlockSketch.Sketch
