import BlockSketch.Proofs.Canvas.Reloading
import BlockSketch.Proofs.Sketch.Names
import BlockSketch.Proofs.Workspace.Keyed

/-!
# The variables of a canvas

An operation brings a block into the workspace, declares a variable, starts a new program or reads
one. All others add neither a type nor a name to what is there. So a name is declared on request or
along with a block that holds it. Both ways admit the names that a sketch can declare, and nothing
but a load brings others. Among them are words with a line feed at their end; such a name is declared
only if an operation spells it out.
-/

namespace BlockSketch

open Sketch (isVariableName)

-- ---------------------------------------------------------------------------
-- Values of fields
-- ---------------------------------------------------------------------------

/-- A value taken for a field is its initial one or comes from a member of that name. -/
theorem BlockType.validateInput_source {t : BlockType} (h : t.validateInput v fill = .ok result)
    (hx : (name, x) ∈ result) : ∃ field, (name, field) ∈ t.fields ∧
      (x = field.initial ∨ ∃ given, v.member? name = some given ∧ field.validate given = .ok x) := by
  have hinitial : ∀ {names mentions}, t.validateNames names mentions fill = .ok result →
      ∃ field, (name, field) ∈ t.fields ∧ x = field.initial := by
    intro names mentions h
    unfold validateNames at h
    split at h
    · rw [refuseMentioned_ok h, List.mem_map] at hx
      obtain ⟨⟨n, field⟩, hfield, heq⟩ := hx
      obtain ⟨rfl, rfl⟩ := Prod.mk.inj heq
      exact ⟨field, hfield, rfl⟩
    · cases h
  unfold validateInput at h
  split at h
  · rename_i members
    obtain ⟨nf, hnf, hname, hfilled⟩ := Document.exists_mem_left (validateFields_ok.mp h).2 hx
    obtain ⟨n, field⟩ := nf
    obtain rfl : name = n := hname
    refine ⟨field, hnf, ?_⟩
    rcases hfilled with hgiven | ⟨-, -, rfl⟩
    · exact .inr hgiven
    · exact .inl rfl
  · obtain ⟨field, hfield, hx⟩ := hinitial h
    exact ⟨field, hfield, .inl hx⟩
  · split at h
    · obtain ⟨field, hfield, hx⟩ := hinitial h
      exact ⟨field, hfield, .inl hx⟩
    · cases h
  · cases h

theorem Field.validate_variable {field : Field} (hkind : field.kind = .variable)
    (h : field.validate v = .ok x) : x = v := by
  unfold Field.validate at h
  rw [hkind] at h
  cases v with
  | text s =>
    dsimp only at h
    split at h
    · cases h
    · exact (Except.ok.inj h).symm
  | _ => cases h

theorem Catalog.initial_variable : ∀ t ∈ blockTypes, ∀ nf ∈ t.fields, nf.2.kind = .variable →
    nf.2.initial = .text "item" := by
  have hlabelled : ∀ choices, (labelled choices).kind ≠ .variable := fun _ => by simp [labelled]
  have hnumber : ∀ n low high, (number n low high).kind ≠ .variable := fun _ _ _ => by simp [number]
  simp only [blockTypes, List.forall_mem_cons]
  simp [choice, pin, variableField, hlabelled, hnumber]

-- ---------------------------------------------------------------------------
-- Edits of a workspace
-- ---------------------------------------------------------------------------

namespace Workspace

variable {w w' w'' : Workspace} {new : String → Prop}

/-- What an edit does to the declared names: none is declared twice, and those that are new can be
declared and satisfy `new`. -/
structure Declares (new : String → Prop) (w w' : Workspace) : Prop where
  names : v ∈ w'.variableNames →
    v ∈ w.variableNames ∨ ∃ s, v = .text s ∧ isVariableName s = true ∧ new s
  once : w.variableNames.Nodup → w'.variableNames.Nodup

theorem Declares.of_eq (h : w'.variableNames = w.variableNames) : Declares new w w' where
  names hv := .inl (h ▸ hv)
  once hnodup := h.symm ▸ hnodup

theorem Declares.of_adds (h : AddsNothing w w') : Declares new w w' where
  names hv := .inl (h.names.subset hv)
  once hnodup := hnodup.sublist h.names

theorem Declares.trans (h : Declares new w w') (h' : Declares new w' w'') : Declares new w w'' where
  names hv := (h'.names hv).elim h.names .inr
  once hnodup := h'.once (h.once hnodup)

theorem Declares.addVariable (w : Workspace) (hname : isVariableName s = true) (hnew : new s) :
    Declares new w (w.addVariable (.text s)).2 := by
  rcases addVariable_names w (.text s) with ⟨heq, -⟩ | ⟨heq, hfree⟩
  · exact .of_eq heq
  · have hfree : .text s ∉ w.variableNames := by
      simpa only [declares, ← Bool.not_eq_true, Value.text_isIn] using hfree
    refine ⟨fun {v} hv => ?_, fun hnodup => ?_⟩
    · rw [heq] at hv
      rcases List.mem_append.mp hv with hv | hv
      · exact .inl hv
      · exact .inr ⟨s, List.mem_singleton.mp hv, hname, hnew⟩
    · rw [heq, List.nodup_append_comm]
      exact List.nodup_cons.mpr ⟨hfree, hnodup⟩

theorem Declares.declareAll (w : Workspace) {names : List String}
    (hnames : ∀ s ∈ names, isVariableName s = true ∧ new s) :
    Declares new w (w.declareAll names) := by
  induction names generalizing w with
  | nil => exact .of_eq rfl
  | cons s names ih =>
    obtain ⟨⟨hname, hnew⟩, hrest⟩ := List.forall_mem_cons.mp hnames
    exact (Declares.addVariable w hname hnew).trans (ih _ hrest)

theorem readVariable_valid (h : readVariable v = .ok s) : isVariableName s = true := by
  unfold readVariable at h
  split at h
  · rename_i hs
    cases h
    exact (Option.filter_eq_some_iff.mp hs).2
  · cases h

theorem Declares.createVariable (h : w.createVariable v = .ok (added, w')) :
    Declares (fun s => v = .text s) w w' := by
  simp only [Workspace.createVariable, bind_ok, Except.ok.injEq] at h
  obtain ⟨s, hs, heq⟩ := h
  have hadds : Declares (fun s => v = .text s) w (w.addVariable (.text s)).2 :=
    .addVariable w (readVariable_valid hs) (readVariable_ok hs).1
  rw [heq] at hadds
  exact hadds

theorem newVariables_source {fields : List String}
    (h : w.newVariables values found fields = .ok names) (hs : s ∈ names) :
    s ∈ found ∨ isVariableName s = true ∧ ∃ field ∈ fields, values.find? field = some (.text s) := by
  induction fields generalizing found with
  | nil =>
    cases h
    exact .inl hs
  | cons field fields ih =>
    simp only [newVariables, bind_ok] at h
    obtain ⟨name, hname, h⟩ := h
    obtain ⟨hread, -⟩ := readVariable_ok hname
    have hhead : values.find? field = some (.text name) := by
      cases hv : values.find? field with
      | none => simp [hv] at hread
      | some v => simpa [hv] using hread
    rcases ih h with hfound | ⟨hvalid, other, hother, hfind⟩
    · split at hfound
      · exact .inl hfound
      · rcases List.mem_append.mp hfound with hfound | hfound
        · exact .inl hfound
        · obtain rfl := List.mem_singleton.mp hfound
          exact .inr ⟨readVariable_valid hname, field, List.mem_cons_self, hhead⟩
    · exact .inr ⟨hvalid, other, List.mem_cons_of_mem _ hother, hfind⟩

theorem plan_source (h : plan Catalog.registry kinds w request = .ok p)
    (hs : s ∈ p.variableNames) : isVariableName s = true ∧
      (s = "item" ∨ ∃ field, request.fields.member? field = some (.text s)) := by
  simp only [plan, bind_ok] at h
  obtain ⟨t, ht, h⟩ := h
  obtain ⟨htype, -⟩ := Catalog.find?_registry (placeableType_ok ht)
  split at h
  · cases h
  · split at h
    · cases h
    · simp only [bind_ok, mapError_ok, Except.ok.injEq] at h
      obtain ⟨fields, hfields, names, hnames, rfl⟩ := h
      rcases newVariables_source hnames hs with hs | ⟨hvalid, name, hname, hfind⟩
      · cases hs
      · refine ⟨hvalid, ?_⟩
        obtain ⟨field, hfield, hx⟩ :=
          BlockType.validateInput_source hfields (Assoc.find?_mem hfind)
        obtain ⟨field', hfield', hkind⟩ :=
          (BlockType.mem_variableFields (Catalog.names_distinct t htype).2.2).mp hname
        obtain rfl : field = field' := Option.some.inj
          ((Assoc.find?_of_mem (Catalog.names_distinct t htype).2.2 hfield).symm.trans hfield')
        rcases hx with hx | ⟨given, hgiven, hx⟩
        · rw [Catalog.initial_variable t htype _ hfield hkind] at hx
          exact .inl (Value.text.inj hx)
        · obtain rfl := Field.validate_variable hkind hx
          split at hgiven
          · cases hgiven
          · exact .inr ⟨name, hgiven⟩

theorem Declares.place
    (h : place Catalog.registry kinds w supply request = (.ok placed, supply')) :
    Declares (fun s => s = "item" ∨ ∃ field, request.fields.member? field = some (.text s)) w
      placed.workspace := by
  obtain ⟨p, b, shadows, hplan, -, -, heq⟩ := place_steps h
  rw [heq]
  exact (Declares.declareAll w fun s hs => plan_source hplan hs).trans
    (.of_eq (addTree_variableNames _ _ _))

theorem reread_variableNames {registry : Registry}
    (h : Document.reread registry (Document.ofWorkspace w) = .ok w') :
    w'.variableNames = w.variableNames := by
  simp only [Document.reread, bind_ok, Document.readVariables_ok] at h
  obtain ⟨names, ⟨hnames, -⟩, h⟩ := h
  simp only [Document.assemble, bind_ok, Except.ok.injEq] at h
  obtain ⟨_, -, _, -, _, -, rfl⟩ := h
  rcases hnames with ⟨hnone, -⟩ | hsome
  · cases hnone
  · exact (Value.list.inj (Option.some.inj hsome)).symm

end Workspace

-- ---------------------------------------------------------------------------
-- Operations
-- ---------------------------------------------------------------------------

/-- An operation spells out the name of a variable: to declare it, or as the value of a field. -/
def Operation.Spells (s : String) : Operation → Prop
  | .createVariable v => v = .text s
  | .createBlock request => ∃ field, request.fields.member? field = some (.text s)
  | _ => False

def Operation.IsLoad : Operation → Prop
  | .load _ | .loadText _ => True
  | _ => False

namespace Canvas

open Workspace (AddsNothing Declares)

inductive Brings (c : Canvas) : Operation → Workspace → Prop
  | nothing {op : Operation} (h : AddsNothing c.workspace w) : Brings c op w
  | block {request : BlockRequest} {placed : Placed} {supply : Supply}
      (h : c.workspace.place c.registry c.selection.kinds c.supply request =
        (.ok placed, supply)) : Brings c (.createBlock request) placed.workspace
  | name (h : c.workspace.createVariable v = .ok (added, w)) : Brings c (.createVariable v) w
  | entry (id : String) : Brings c .clear (.fresh id)
  | document {op : Operation} (h : op.reading? c = some (.ok w)) : Brings c op w

variable {c : Canvas}

theorem Reworks.brings {op : Operation} {w : Workspace} {supply : Supply}
    (h : Reworks c op w supply) : Brings c op w := by
  cases h with
  | kept => exact .nothing (.refl _)
  | placed hplace => exact .block hplace
  | connected block parent socket =>
    exact .nothing (Workspace.addsNothing_connect c.registry c.workspace block parent socket)
  | detached hdetach => exact .nothing (Workspace.addsNothing_detach hdetach)
  | deleted hdelete => exact .nothing (Workspace.addsNothing_delete hdelete)
  | changed hset => exact .nothing (Workspace.addsNothing_setField hset)
  | declared hcreate => exact .name hcreate
  | undeclared name =>
    exact .nothing (Workspace.addsNothing_deleteVariable c.registry c.workspace name)
  | cleared => exact .entry _
  | loaded hread => exact .document hread

theorem apply_brings (c : Canvas) (op : Operation) :
    Brings c op (c.apply op).canvas.workspace :=
  (c.apply_ends op).reworks.brings

theorem apply_declares (hregistry : c.registry = Catalog.registry) (hload : ¬op.IsLoad) :
    Declares (fun s => s = "item" ∨ op.Spells s) c.workspace (c.apply op).canvas.workspace := by
  have hbrings := apply_brings c op
  generalize (c.apply op).canvas.workspace = w at hbrings ⊢
  cases hbrings with
  | nothing h => exact .of_adds h
  | block h =>
    rw [hregistry] at h
    exact .place h
  | name h =>
    have hcreates := Declares.createVariable h
    refine ⟨fun hv => (hcreates.names hv).imp_right ?_, hcreates.once⟩
    rintro ⟨s, hs, hvalid, hspelled⟩
    exact ⟨s, hs, hvalid, .inr hspelled⟩
  | entry id => exact ⟨fun hv => (List.not_mem_nil hv).elim, fun _ => .nil⟩
  | document h =>
    cases op with
    | load document => exact (hload trivial).elim
    | loadText text => exact (hload trivial).elim
    | reload => exact .of_eq (Workspace.reread_variableNames (Option.some.inj h))
    | _ => cases h

-- ---------------------------------------------------------------------------
-- Runs
-- ---------------------------------------------------------------------------

/-- What a run without loads keeps of the names: each was admitted, and none is there twice. -/
theorem run_declared (new : String → Prop) (hregistry : c.registry = Catalog.registry)
    (hops : ∀ op ∈ ops, ¬op.IsLoad ∧ ∀ s, s = "item" ∨ op.Spells s → new s)
    (hnames : ∀ v ∈ c.workspace.variableNames,
      ∃ s, v = .text s ∧ isVariableName s = true ∧ new s)
    (hnodup : c.workspace.variableNames.Nodup) :
    (∀ v ∈ (c.run ops).1.workspace.variableNames,
      ∃ s, v = .text s ∧ isVariableName s = true ∧ new s) ∧
      (c.run ops).1.workspace.variableNames.Nodup := by
  induction ops generalizing c with
  | nil => exact ⟨hnames, hnodup⟩
  | cons op ops ih =>
    obtain ⟨⟨hload, hnew⟩, hrest⟩ := List.forall_mem_cons.mp hops
    have hstep := apply_declares hregistry hload
    refine ih ((apply_registry c op).trans hregistry) hrest (fun v hv => ?_) (hstep.once hnodup)
    rcases hstep.names hv with hv | ⟨s, rfl, hvalid, hs⟩
    · exact hnames v hv
    · exact ⟨s, rfl, hvalid, hnew s hs⟩

theorem start_undeclared (h : start settings limit = .ok c) :
    c.registry = Catalog.registry ∧ c.workspace.variableNames = [] := by
  have hnew := new_of_start h
  refine ⟨hnew.registry, ?_⟩
  rw [hnew.workspace]
  rfl

open Expression (isWord)
open Sketch (declarationText reservedNames)
open Text (lineCount)

/-- The variables of a program that was not loaded. Each has a declaration of its own, and is an
identifier that is not reserved and is declared in one line; or else it is an identifier with a line
feed behind it, whose declaration takes two lines, and an operation spelled it out. -/
theorem variables_words_unless_fed (settings : Settings) (c : Canvas) (ops : List Operation)
    (hstart : start settings limit = .ok c) (hload : ∀ op ∈ ops, ¬op.IsLoad) :
    ∃ names : List String, (c.run ops).1.workspace.variableNames = names.map .text ∧
      names.Nodup ∧ (names.map declarationText).Nodup ∧
      (∀ operand body complain, ∃ run,
        (Sketch.Arduino.declareVariables (names.map .text)).run operand body complain
          (.start (names.map .text)) = .ok ((), run) ∧
        run.definitions.texts (some .global) =
          (names.map declarationText).map .text) ∧
      ∀ name ∈ names,
        isWord name.toList = true ∧ name ∉ reservedNames ∧ lineCount (declarationText name) = 1 ∨
        ∃ word, name = word ++ "\n" ∧ isWord word.toList = true ∧
          lineCount (declarationText name) = 2 ∧ ∃ op ∈ ops, op.Spells name := by
  obtain ⟨hregistry, hnone⟩ := start_undeclared hstart
  obtain ⟨hall, hnodup⟩ := run_declared (fun s => s = "item" ∨ ∃ op ∈ ops, op.Spells s)
    hregistry (fun op hop => ⟨hload op hop, fun s hs => hs.imp_right fun h => ⟨op, hop, h⟩⟩)
    (by simp [hnone]) (by simp [hnone])
  obtain ⟨names, heq⟩ := Document.exists_texts fun v hv => (hall v hv).imp fun _ => And.left
  rw [heq] at hall hnodup ⊢
  have hnames : ∀ name ∈ names, isVariableName name = true ∧
      (name = "item" ∨ ∃ op ∈ ops, op.Spells name) := by
    intro name hname
    obtain ⟨s, hs, hadmitted⟩ := hall _ (List.mem_map_of_mem hname)
    exact Value.text.inj hs ▸ hadmitted
  have hdistinct := hnodup.of_map _
  refine ⟨names, rfl, hdistinct, ?_, fun operand body complain => ?_, fun name hname => ?_⟩
  · exact hdistinct.map fun _ _ => Sketch.declarationText_inj.mp
  · rw [List.map_map]
    exact Sketch.declareVariables_texts (fun name hname => (hnames name hname).1) hdistinct
  · obtain ⟨hvalid, horigin⟩ := hnames name hname
    rcases Sketch.isVariableName_iff.mp hvalid with ⟨hword, hfree⟩ | ⟨word, rfl, hword⟩
    · exact .inl ⟨hword, hfree, Sketch.lineCount_declaration hword⟩
    · refine .inr ⟨word, rfl, hword, Sketch.lineCount_declaration_fed hword, ?_⟩
      refine horigin.resolve_left fun hitem => ?_
      have hfeed : '\n' ∈ "item".toList := by
        rw [← hitem]
        simp
      exact absurd hfeed (by decide)

/-- A variable is declared, and another one whose name goes on with a line feed. -/
def namesake : List Operation := [.createVariable "x", .createVariable "x\n"]

theorem namesake_run (h : start settings limit = .ok c) :
    (c.run namesake).1.workspace.variableNames = ["x", "x\n"].map .text := by
  simp only [start, bind_ok, Except.ok.injEq] at h
  obtain ⟨indent, -, rfl⟩ := h
  rfl

theorem variables_words_namesake : ∃ c, start {} = .ok c ∧ (∀ op ∈ namesake, ¬op.IsLoad) ∧
    (c.run namesake).1.workspace.variableNames = ["x", "x\n"].map .text ∧
    (["x", "x\n"].map declarationText).Nodup ∧
    lineCount (declarationText "x") = 1 ∧ ∃ op ∈ namesake, op.Spells "x\n" := by
  obtain ⟨c, hstart⟩ := exists_start
  have hload : ∀ op ∈ namesake, ¬op.IsLoad := by simp [namesake, Operation.IsLoad]
  obtain ⟨names, heq, -, hdistinct, -, hnames⟩ :=
    variables_words_unless_fed {} c namesake hstart hload
  obtain rfl : ["x", "x\n"] = names :=
    List.map_injective_iff.mpr (fun _ _ => Value.text.inj) ((namesake_run hstart).symm.trans heq)
  refine ⟨c, hstart, hload, namesake_run hstart, hdistinct, ?_, ?_⟩
  · rcases hnames "x" (by simp) with ⟨-, -, hline⟩ | ⟨word, hword, -⟩
    · exact hline
    · have hfeed : '\n' ∈ "x".toList := by
        rw [hword]
        simp
      exact absurd hfeed (by decide)
  · rcases hnames "x\n" (by simp) with ⟨hword, -⟩ | ⟨word, -, -, -, hspelled⟩
    · cases hword
    · exact hspelled

/-- The second name is no identifier, and its declaration declares the first one again. -/
theorem fed_name_admitted : ∃ c, start {} = .ok c ∧
    .text "x\n" ∈ (c.run namesake).1.workspace.variableNames ∧ isWord "x\n".toList = false ∧
    declarationText "x" = "float x = 0;\n" ∧ declarationText "x\n" = "float x\n = 0;\n" ∧
    lineCount (declarationText "x\n") = 2 := by
  obtain ⟨c, hstart⟩ := exists_start
  refine ⟨c, hstart, ?_, rfl, rfl, rfl, rfl⟩
  rw [namesake_run hstart]
  exact List.mem_cons_of_mem _ List.mem_cons_self

end Canvas

end BlockSketch
