import BlockSketch.Proofs.Sketch.Failures
import BlockSketch.Proofs.Sketch.Programs

/-!
# Compiled code

The code of a block tells the marks of the block, of what is in its sockets and of what follows it.
`compile_faithful` says this of all blocks by induction over the depth, and the section at the end of
the sketch that a successful run gives.
-/

namespace BlockSketch.Sketch

open Expression (isWord)
open Program (Token)

-- ---------------------------------------------------------------------------
-- Sockets
-- ---------------------------------------------------------------------------

/-- The code of a block in a role is a piece that tells the marks of the block. -/
def Faithful (margin : List Char) (declared : String → Bool) (marks : Ref → List Mark)
    (compile : Role → Ref → Gen Code) : Prop :=
  ∀ ⦃role r run code run'⦄, Tidy margin declared run → compile role r run = .ok (code, run') →
    Tidy margin declared run' ∧
      match role with
      | .chain => Piece margin declared .closed (marks r) code.text
      | .operand => code.text ≠ "" ∧ Piece margin declared .any (marks r) code.text

def socketMarks (marks : Ref → List Mark) (t : BlockType) (b : Block) (name : Value) : List Mark :=
  (t.socket? name).toList.flatMap (insideMarks marks b)

theorem socketLiteral_cases : ∀ t ∈ Catalog.blockTypes, ∀ s, Socket.value s ∈ t.sockets →
    s.literal = "0" ∨ s.literal = "true" ∨ s.literal = "false" ∨ s.literal = "\"\"" := by
  simp only [Catalog.blockTypes, List.forall_mem_cons]
  simp [or_imp, forall_and]

theorem orRaise_ok {x : Except String α} :
    Generator.orRaise b x run = .ok (a, run') ↔ x = .ok a ∧ run' = run := by
  cases x with
  | error text => simp [Generator.orRaise]
  | ok c =>
    simp only [Generator.orRaise, gen_pure_ok, Except.ok.injEq]
    exact and_congr_left' eq_comm

section
variable {margin : String} {declared : String → Bool} {marks : Ref → List Mark}
  {compile : Role → Ref → Gen Code} (hreserved : ∀ s ∈ Piece.fixedWords, declared s = false)
  (hmargin : ∀ c ∈ margin.toList, c = ' ')
  (hcompile : Faithful margin.toList declared marks compile)
  (ht : Catalog.registry.find? v = some t)

theorem flatMap_socketMarks (ht : Catalog.registry.find? v = some t) (b : Block) :
    t.sockets.flatMap (fun s => socketMarks marks t b s.name) =
      t.sockets.flatMap (insideMarks marks b) := by
  refine List.flatMap_congr fun s hs => ?_
  rw [socketMarks, Catalog.registry_regular.socket?_mem ht hs]
  simp

include hreserved

theorem piece_literal (ht : Catalog.registry.find? v = some t) (hs : .value s ∈ t.sockets) :
    ∃ code, s.literal = .text code ∧
      Piece margin.toList declared .any (literalMarks s.literal) code := by
  rcases socketLiteral_cases t (Catalog.find?_registry ht).1 s hs with h | h | h | h <;> rw [h]
  · exact ⟨_, rfl, .numeral rfl⟩
  · exact ⟨_, rfl, .fixedAny hreserved templates.yes⟩
  · exact ⟨_, rfl, .fixedAny hreserved templates.no⟩
  · exact ⟨_, rfl, (Piece.text "").weaken⟩

theorem piece_enclosed {order outer : Order} (h : Piece margin.toList declared .any ms code)
    (henclose : enclose code order outer = .ok text) :
    Piece margin.toList declared .any ms text := by
  rw [enclose, bind_ok] at henclose
  obtain ⟨enclosed, -, heq⟩ := henclose
  obtain rfl := Except.ok.inj heq
  split
  · exact (h.parenthesized hreserved).weaken
  · exact h

include hcompile ht

theorem operandCode_piece (b : Block) :
    Operands margin.toList declared (socketMarks marks t b) (Generator.operandCode compile b t) := by
  intro socket outer run v run' htidy h
  cases hsocket : t.socket? (.text socket) with
  | none => simp [Generator.operandCode, hsocket] at h
  | some found =>
    cases found with
    | statement name => simp [Generator.operandCode, hsocket] at h
    | value s =>
      obtain ⟨-, hmem, hname⟩ := Catalog.registry_regular.socket_text ht hsocket
      simp only [Socket.name] at hname
      have hmarks : socketMarks marks t b (.text socket) = insideMarks marks b (.value s) := by
        simp [socketMarks, hsocket]
      rw [hmarks, insideMarks, hname]
      cases hchild : b.input? (.text socket) with
      | none =>
        rw [Generator.operandCode_empty hsocket hchild] at h
        obtain ⟨rfl, rfl⟩ := gen_pure_ok.mp h
        exact ⟨htidy, piece_literal hreserved ht hmem⟩
      | some child =>
        rw [Generator.operandCode_child hsocket hchild] at h
        simp only [gen_bind_ok, Generator.askedBy, mapError_ok] at h
        obtain ⟨code, mid, hcode, h⟩ := h
        obtain ⟨htidy, hne, hpiece⟩ := hcompile htidy hcode
        have hsome : code.text.isEmpty = false := by simpa using hne
        rw [hsome, if_neg Bool.false_ne_true, gen_map_ok] at h
        obtain ⟨text, htext, rfl⟩ := h
        obtain ⟨henclose, rfl⟩ := orRaise_ok.mp htext
        exact ⟨htidy, text, rfl, piece_enclosed hreserved hpiece henclose⟩

omit hreserved in
include hmargin in
theorem bodyCode_piece (b : Block) :
    Bodies margin.toList declared (socketMarks marks t b)
      ((arduino margin room).bodyCode compile b t) := by
  intro socket run code run' htidy h
  cases hsocket : t.socket? (.text socket) with
  | none => simp [Generator.bodyCode, hsocket] at h
  | some found =>
    cases found with
    | value s => simp [Generator.bodyCode, hsocket] at h
    | statement name =>
      obtain ⟨-, -, hname⟩ := Catalog.registry_regular.socket_text ht hsocket
      simp only [Socket.name] at hname
      have hmarks : socketMarks marks t b (.text socket) = insideMarks marks b (.statement name) := by
        simp [socketMarks, hsocket]
      rw [hmarks, insideMarks, hname]
      simp only [Generator.bodyCode, hsocket, Generator.childOf, Generator.requireKey_text,
        pure_bind] at h
      cases hchild : b.input? (.text socket) with
      | none =>
        rw [hchild] at h
        obtain ⟨rfl, rfl⟩ := gen_pure_ok.mp h
        exact ⟨htidy, .empty⟩
      | some child =>
        simp only [hchild, gen_bind_ok, Generator.askedBy, mapError_ok] at h
        obtain ⟨inner, mid, hinner, h⟩ := h
        obtain ⟨htidy, hpiece⟩ := hcompile htidy hinner
        obtain ⟨hindented, rfl⟩ := orRaise_ok.mp h
        obtain rfl := Except.ok.inj hindented
        exact ⟨htidy, by simpa using hpiece.indent hmargin⟩

end

-- ---------------------------------------------------------------------------
-- Blocks
-- ---------------------------------------------------------------------------

/-- An identifier that is the name of a variable. -/
def isVariable (w : Workspace) (s : String) : Bool :=
  isWord s.toList && w.declares (.text s)

theorem isVariable_iff {w : Workspace} :
    isVariable w s = true ↔ .text s ∈ w.variableNames ∧ isWord s.toList = true := by
  simp [isVariable, Workspace.declares, and_comm]

theorem marks_succ {w : Workspace} (ht : Catalog.registry.find? (w.block r).type = some t) :
    marks w (depth + 1) r = ownMarks t (w.block r) ++
      t.sockets.flatMap (insideMarks (marks w depth) (w.block r)) ++
        (if t.isStatement then (w.block r).next.toList.flatMap (marks w depth) else []) := by
  rw [marks, ht]
  simp

theorem entry_type (ht : Catalog.registry.find? (.text entryType) = some t) :
    t.sockets = [.statement "SETUP", .statement "LOOP"] ∧ t.isStatement = true := by
  have hentry : ∃ t, Catalog.registry.find? (.text entryType) = some t ∧
      t.sockets = [.statement "SETUP", .statement "LOOP"] ∧ t.isStatement = true := by
    rw [Catalog.registry_find?]
    exact ⟨_, rfl, rfl, rfl⟩
  obtain ⟨u, hu, hfacts⟩ := hentry
  obtain rfl := Option.some.inj (ht.symm.trans hu)
  exact hfacts

theorem entry_emitter (h : Arduino.emitters.find? (.text entryType) = some emitter) :
    emitter = Arduino.entryPoint :=
  have hentry : Arduino.emitters.find? (.text entryType) = some Arduino.entryPoint := rfl
  Option.some.inj (h.symm.trans hentry)

theorem arduino_emitBlock_ok {w : Workspace}
    (h : (arduino margin room).emitBlock w compile calls role r run = .ok (yield, run')) :
    ∃ t emitter, Catalog.registry.find? (w.block r).type = some t ∧
      t.isStatement = (role == .chain) ∧
      Arduino.emitters.find? (w.block r).type = some emitter ∧
      (emitter ⟨w.block r, t, w.variableNames, .text margin⟩).run
        (Generator.operandCode compile (w.block r) t)
        ((arduino margin room).bodyCode compile (w.block r) t) (Generator.complaintFault (w.block r))
        { run with visited := r :: run.visited } = .ok (yield, run') := by
  obtain ⟨t, emitter, ht, rfl, hemitter, hrun⟩ := Generator.emitBlock_ok h
  simp only [arduino] at ht hemitter
  refine ⟨t, emitter, ht, ?_, hemitter, hrun⟩
  cases t.isStatement <;> rfl

section
variable {margin : String} {w : Workspace} (hmargin : ∀ c ∈ margin.toList, c = ' ')
  (hvalid : ∀ v ∈ w.variableNames, ∃ s, v = .text s ∧ isVariableName s = true)
include hvalid

/-- No variable has the name of something that stands in programs anyway. -/
theorem fixedWords_free : ∀ s ∈ Piece.fixedWords, isVariable w s = false := by
  intro s hs
  rw [← Bool.not_eq_true, isVariable_iff]
  rintro ⟨hmem, hword⟩
  obtain ⟨_, heq, hname⟩ := hvalid _ hmem
  obtain rfl := Value.text.inj heq
  rcases isVariableName_iff.mp hname with ⟨-, hfree⟩ | ⟨word, rfl, -⟩
  · exact hfree (Piece.fixedWords_sublist.subset hs)
  · have hbreak := isLineBreak_word hword '\n' (by simp)
    cases hbreak

include hmargin

theorem emitter_yields (hreserved : ∀ s ∈ Piece.fixedWords, isVariable w s = false)
    (hcompile : Faithful margin.toList (isVariable w) (marks w depth) compile)
    (ht : Catalog.registry.find? b.type = some t)
    (hemitter : Arduino.emitters.find? b.type = some emitter)
    (htidy : Tidy margin.toList (isVariable w) run)
    (hrun : (emitter ⟨b, t, w.variableNames, .text margin⟩).run (Generator.operandCode compile b t)
      ((arduino margin room).bodyCode compile b t) complain run = .ok (yield, run')) :
    Yields margin.toList (isVariable w)
      (ownMarks t b ++ t.sockets.flatMap (insideMarks (marks w depth) b)) yield ∧
      Tidy margin.toList (isVariable w) run' := by
  obtain ⟨hmem, hid⟩ := Catalog.find?_registry ht
  have hbody : Bodies margin.toList (isVariable w) (socketMarks (marks w depth) t b)
      ((arduino margin room).bodyCode compile b t) := bodyCode_piece hmargin hcompile ht b
  rw [← flatMap_socketMarks ht]
  rcases emitters_written t hmem with hentry | ⟨written, hwritten, hwrites⟩
  · rw [hid, hentry] at ht hemitter
    obtain rfl := entry_emitter hemitter
    obtain ⟨htidy', code, before, inSetup, inLoop, rfl, hparts⟩ :=
      entryPoint_parts hmargin rfl hvalid (fun s hs => isVariable_iff.mp hs) hbody htidy hrun
    refine ⟨?_, htidy'⟩
    have hmarks : ownMarks t b = [.program] := by rw [ownMarks, hentry]; rfl
    rw [hmarks, (entry_type ht).1]
    simpa [Yields, Socket.name] using hparts.piece hreserved
  · rw [← hid, hemitter] at hwritten
    obtain rfl := Option.some.inj hwritten
    have hempty : ∀ name, .statement name ∈ t.sockets → b.input? name = none →
        socketMarks (marks w depth) t b name = [] := by
      intro name hname hnone
      have hsocket : t.socket? name = some (.statement name) :=
        Catalog.registry_regular.socket?_mem ht hname
      simp [socketMarks, hsocket, insideMarks, hnone]
    exact Writes.sound (hwrites b w.variableNames (.text margin) hreserved hempty)
      (operandCode_piece hreserved hcompile ht b) hbody htidy hrun

/-- The marks may reach further down than the code: a run that ends has not cut anything off. -/
theorem compile_faithful (hdepth : fuel ≤ depth) :
    Faithful margin.toList (isVariable w) (marks w depth)
      ((arduino margin room).compile w fuel calls) := by
  have hreserved := fixedWords_free hvalid
  induction fuel generalizing depth calls with
  | zero =>
    intro role r run code run' _ h
    simp [Generator.compile] at h
  | succ fuel ih =>
    obtain ⟨depth, rfl⟩ : ∃ d, depth = d + 1 := ⟨depth - 1, by omega⟩
    have hinner : ∀ calls, Faithful margin.toList (isVariable w) (marks w depth)
        ((arduino margin room).compile w fuel calls) :=
      fun _ => ih (Nat.le_of_succ_le_succ hdepth)
    intro role r run code run' htidy h
    cases role with
    | operand =>
      obtain ⟨t, emitter, ht, hshape, hemitter, hrun⟩ :=
        arduino_emitBlock_ok (Generator.compile_operand_ok h)
      obtain ⟨hyields, htidy'⟩ :=
        emitter_yields hmargin hvalid hreserved (hinner _) ht hemitter (htidy.visited _) hrun
      rw [marks_succ ht, hshape]
      exact ⟨htidy', by simpa [Yields] using hyields⟩
    | chain =>
      obtain ⟨text, mid, hemit, hnext⟩ := Generator.compile_chain_ok h
      obtain ⟨t, emitter, ht, hshape, hemitter, hrun⟩ := arduino_emitBlock_ok hemit
      obtain ⟨hyields, htidy'⟩ :=
        emitter_yields hmargin hvalid hreserved (hinner _) ht hemitter (htidy.visited _) hrun
      rw [marks_succ ht, hshape]
      rcases hnext with ⟨hnone, heq, rfl⟩ | ⟨next, rest, hsome, hrest, heq⟩
      · rw [heq, hnone]
        exact ⟨htidy', by simpa [Yields] using hyields⟩
      · obtain ⟨htidy'', hpiece⟩ := hinner _ htidy' hrest
        rw [heq, hsome]
        exact ⟨htidy'', by simpa using Piece.append hyields hpiece⟩

end

-- ---------------------------------------------------------------------------
-- Sketches
-- ---------------------------------------------------------------------------

theorem tidy_start (w : Workspace) (margin : List Char) :
    Tidy margin (isVariable w) (Run.start w.variableNames) where
  proper e he := by cases he
  taken s hs := (isVariable_iff.mp hs).1

theorem isEntry_type {w : Workspace} (hentry : w.entry? = some entry) :
    (w.block entry).type = .text entryType := by
  have h := List.find?_some hentry
  simpa [Workspace.isEntry] using h

section
variable {margin : String} {w : Workspace} (h : (arduino margin room).generate w = .ok report)
  (hsuccess : report.success = true) (hentry : w.entry? = some entry)
include h hsuccess hentry

theorem generate_compiled :
    ∃ code run, (arduino margin room).compile w (w.blocks.size + 1) 0 .chain entry
      (Run.start w.variableNames) = .ok (code, run) ∧ report.code = code.text := by
  unfold Generator.generate at h
  split at h
  · cases h
  · split at h
    · rename_i code run hrun
      obtain rfl := Except.ok.inj h
      simp only [StateT.run, Generator.program, hentry, gen_bind_ok, gen_pure_ok] at hrun
      obtain ⟨_, mid, hroot, _, _, -, rfl, -⟩ := hrun
      simp only [Generator.rootCode, gen_bind_ok, gen_pure_ok] at hroot
      obtain ⟨t, _, hdescribe, compiled, _, hcompile, rfl, rfl⟩ := hroot
      obtain ⟨-, ht, rfl⟩ := Generator.describe_ok.mp hdescribe
      simp only [arduino, isEntry_type hentry] at ht
      rw [(entry_type ht).2] at hcompile
      exact ⟨compiled, _, hcompile, rfl⟩
    · cases h
    · obtain rfl := Except.ok.inj h
      cases hsuccess

theorem generate_names : ∀ v ∈ w.variableNames, ∃ s, v = .text s ∧ isVariableName s = true := by
  obtain ⟨code, run, hcompile, -⟩ := generate_compiled h hsuccess hentry
  obtain ⟨text, mid, hemit, -⟩ := Generator.compile_chain_ok hcompile
  obtain ⟨t, emitter, -, -, hemitter, hrun⟩ := arduino_emitBlock_ok hemit
  rw [isEntry_type hentry] at hemitter
  obtain rfl := entry_emitter hemitter
  exact entryPoint_names hrun

variable (hmargin : ∀ c ∈ margin.toList, c = ' ') (hdepth : w.blocks.size < depth)
include hmargin hdepth

theorem generate_piece :
    Piece margin.toList (isVariable w) .closed (marks w depth entry) report.code := by
  have hvalid := generate_names h hsuccess hentry
  obtain ⟨code, run, hcompile, heq⟩ := generate_compiled h hsuccess hentry
  rw [heq]
  exact (compile_faithful hmargin hvalid hdepth (tidy_start w _) hcompile).2

/-- The bodies of the functions tell what is in the two sockets of the entry point. -/
theorem generate_bodies :
    ∃ inSetup inLoop, Program.bodies? report.code = some (inSetup, inLoop) ∧
      Tells margin.toList (isVariable w)
        (insideMarks (marks w depth) (w.block entry) (.statement "SETUP")) inSetup ∧
      Tells margin.toList (isVariable w)
        (insideMarks (marks w depth) (w.block entry) (.statement "LOOP")) inLoop := by
  have hvalid := generate_names h hsuccess hentry
  have hfaithful : ∀ calls, Faithful margin.toList (isVariable w) (marks w depth)
      ((arduino margin room).compile w w.blocks.size calls) :=
    fun _ => compile_faithful hmargin hvalid (Nat.le_of_lt hdepth)
  obtain ⟨code, run, hcompile, heq⟩ := generate_compiled h hsuccess hentry
  obtain ⟨text, mid, hemit, hnext⟩ := Generator.compile_chain_ok hcompile
  obtain ⟨t, emitter, ht, -, hemitter, hrun⟩ := arduino_emitBlock_ok hemit
  have hsockets := (entry_type (isEntry_type hentry ▸ ht)).1
  obtain rfl := entry_emitter (isEntry_type hentry ▸ hemitter)
  obtain ⟨htidy, _, before, inSetup, inLoop, hyield, hparts⟩ :=
    entryPoint_parts hmargin rfl hvalid (fun s hs => isVariable_iff.mp hs)
      (bodyCode_piece hmargin (hfaithful _) ht (w.block entry)) ((tidy_start w _).visited _) hrun
  obtain rfl := Yield.statement.inj hyield
  have hmarks : ∀ name, .statement name ∈ t.sockets →
      socketMarks (marks w depth) t (w.block entry) name =
        insideMarks (marks w depth) (w.block entry) (.statement name) := by
    intro name hname
    have hsocket : t.socket? name = some (.statement name) :=
      Catalog.registry_regular.socket?_mem ht hname
    simp [socketMarks, hsocket]
  rw [hmarks "SETUP" (by simp [hsockets]), hmarks "LOOP" (by simp [hsockets])] at hparts
  refine ⟨inSetup, inLoop, ?_, hparts.setup.2, hparts.loop.2⟩
  rw [heq]
  rcases hnext with ⟨-, heq, -⟩ | ⟨next, rest, -, hrest, heq⟩
  · have hnothing : Program.Spelled .plain "".toList [] .plain := .nil
    rw [heq]
    simpa using hparts.bodies hnothing rfl
  · obtain ⟨ts, hspelled, -⟩ := Piece.spelled (hfaithful _ htidy hrest).2
    rw [heq]
    exact hparts.bodies hspelled rfl

end

end BlockSketch.Sketch
