import BlockSketch.Proofs.Canvas.Regeneration
import BlockSketch.Proofs.Sketch.Compiled
import BlockSketch.Proofs.Sketch.ForestWalk
import BlockSketch.Proofs.Sketch.Warnings

/-!
# Sketches of reachable workspaces

What a canvas shows compiles, unless a name that was loaded cannot be that of a variable, or its
blocks are nested too deep.
-/

namespace BlockSketch

namespace Sketch

open Workspace (Invariant)

theorem entryPoint_feed {operand : Value → Order → Gen Value} {body : Value → Gen String}
    {complain : Complaint → Fault}
    (hrun : (Arduino.entryPoint site).run operand body complain run = .ok (yield, run')) :
    ∃ text, yield = .statement text ∧ '\n' ∈ text.toList := by
  simp only [Arduino.entryPoint, run_bind, gen_bind_ok] at hrun
  obtain ⟨_, _, -, _, _, -, _, _, -, _, _, -, _, _, -, _, _, -, _, _, -, hrun⟩ := hrun
  obtain ⟨rfl, -⟩ := gen_pure_ok.mp hrun
  refine ⟨_, rfl, ?_⟩
  rw [String.toList_append]
  exact List.mem_append_right _ (by decide)

section
variable {w : Workspace} {indent : String} {room : Option Nat} {report : Report}
  (hreport : (arduino indent room).generate w = .ok report)
include hreport

theorem success_iff_firstFault (hkeyed : w.Keyed) (hdepth : w.blocks.size < depth) :
    report.success = true ↔ firstFault room w [] (steps w depth) = none := by
  have hends := program_ends indent room hkeyed.types hdepth (agrees_start w w.variableNames)
  constructor
  · intro hsuccess
    obtain ⟨out, hrun, -⟩ := Generator.generate_ok hreport hsuccess
    cases hfault : firstFault room w [] (steps w depth) with
    | none => rfl
    | some f =>
      rw [hfault] at hends
      cases hends.symm.trans hrun
  · intro hnone
    rw [hnone] at hends
    obtain ⟨code, run, hrun, -⟩ := hends
    unfold Generator.generate StateT.run at hreport
    rw [hrun] at hreport
    split at hreport
    · cases hreport
    · obtain rfl := Except.ok.inj hreport
      rfl

/-- Only what has no entry point compiles to the placeholder. -/
theorem code_eq_emptyLine_iff (hsuccess : report.success = true) :
    report.code = emptyLine ↔ w.entry? = none := by
  cases hentry : w.entry? with
  | none =>
    obtain ⟨out, hrun, -⟩ := Generator.generate_ok hreport hsuccess
    simp only [Generator.program, hentry, gen_bind_ok, gen_pure_ok] at hrun
    obtain ⟨_, _, -, hcode, -⟩ := hrun
    exact iff_of_true hcode rfl
  | some entry =>
    refine iff_of_false (fun hempty => ?_) (by simp)
    obtain ⟨code, run, hcompile, hcode⟩ := generate_compiled hreport hsuccess hentry
    obtain ⟨text, mid, hemit, hrest⟩ := Generator.compile_chain_ok hcompile
    obtain ⟨t, emitter, -, -, hemitter, hrun⟩ := arduino_emitBlock_ok hemit
    rw [isEntry_type hentry] at hemitter
    obtain rfl := entry_emitter hemitter
    obtain ⟨_, heq, hfeed⟩ := entryPoint_feed hrun
    obtain rfl := Yield.statement.inj heq
    have hcode_feed : '\n' ∈ report.code.toList := by
      rw [hcode]
      rcases hrest with ⟨-, htext, -⟩ | ⟨next, rest, -, -, htext⟩
      · exact htext ▸ hfeed
      · rw [htext, String.toList_append]
        exact List.mem_append_left _ hfeed
    rw [hempty] at hcode_feed
    exact absurd hcode_feed (by decide)

end

end Sketch

namespace Canvas

open Sketch (arduino emptyLine DeclaresInvalid UsesInvalid Fits)

variable {c : Canvas}

theorem run_generator (c : Canvas) (ops : List Operation) :
    (c.run ops).1.generator = c.generator := by
  induction ops generalizing c with
  | nil => rfl
  | cons op ops ih => exact (ih _).trans (c.apply_ends op).generator

theorem start_generator (h : start settings limit = .ok c) :
    ∃ indent, c.generator = arduino indent limit := by
  have hnew := new_of_start h
  obtain ⟨indent, hindent⟩ := hnew.indent
  refine ⟨indent, ?_⟩
  rw [generator, hnew.registry, hnew.emitters, hindent, hnew.room]
  rfl

theorem Keyed.run (h : Keyed c) (ops : List Operation) : Keyed (c.run ops).1 := by
  induction ops generalizing c with
  | nil => exact h
  | cons op ops ih => exact ih (h.apply op)

/-- A document with nothing but a variable, whose name no operation would have declared. -/
def misnamedDocument : Value :=
  .object [("format", .text Document.formatName), ("version", .int 1), ("variables", .list ["2x"]),
    ("blocks", .list []), ("top_blocks", .list [])]

theorem misnamedDocument_read (registry : Registry) :
    Document.read registry misnamedDocument = .ok { variableNames := ["2x"] } := by
  have hreach : Document.checkReach [] [] = .ok () := by
    simp [Document.checkReach, Document.reach, Text.sorted, bind_ok]
  show (Document.checkReach [] [] >>= fun _ => _) >>= (fun ids => .ok (Document.build [] ids ["2x"])) = _
  rw [hreach]
  rfl

theorem misnamedDocument_proper (supply : Supply) :
    (Operation.load misnamedDocument).Proper supply := by
  refine ⟨.object (by decide) ?_, fun records hrecords record hrecord => ?_⟩
  · simp only [List.forall_mem_cons, List.not_mem_nil, false_implies, implies_true, and_true]
    exact ⟨.scalar rfl, .scalar rfl, .list (List.forall_mem_singleton.mpr (.scalar rfl)),
      .list (by simp), .list (by simp)⟩
  · obtain rfl := Value.list.inj hrecords
    cases hrecord

def entryRequest : BlockRequest where
  type := .text entryType
  id := "entry"

theorem misnamed_place (supply : Supply) : ∃ placed supply',
    Workspace.place Catalog.registry [] { variableNames := ["2x"] } supply entryRequest =
        (.ok placed, supply') ∧
      placed.workspace.entry? = some 0 ∧ placed.workspace.variableNames = [.text "2x"] := by
  obtain ⟨t, ht, hfields, hid, hvalue, hsockets⟩ : ∃ t,
      Gate.placeableType Catalog.registry [] (.text entryType) = .ok t ∧ t.fields = [] ∧
        t.typeId = .text entryType ∧ t.valueSockets = [] ∧
        t.sockets = [.statement "SETUP", .statement "LOOP"] := by
    rw [Catalog.registry_eq]
    exact ⟨_, rfl, rfl, rfl, rfl, rfl⟩
  have hvalid : t.validateFields [] true = .ok [] :=
    BlockType.validateFields_ok.mpr ⟨by simp [Assoc.names], by rw [hfields]; exact .nil⟩
  have hvars : t.variableFields = [] := by
    rw [BlockType.variableFields, hfields]
    rfl
  have hnew : ({ variableNames := ["2x"] } : Workspace).findBlock? "entry" = none := by
    simp [Workspace.findBlock?, Workspace.search_rootStack, Workspace.allBlocks_eq]
  have hentry : Workspace.entry? { variableNames := ["2x"] } = none := rfl
  have hplan : Workspace.plan Catalog.registry [] { variableNames := ["2x"] } entryRequest =
      .ok ⟨t, [], []⟩ := by
    simp only [Workspace.plan, bind_ok, entryRequest]
    refine ⟨t, ht, ?_⟩
    simp only [hentry, hnew, hvars, Option.isSome_none, Bool.and_false, Bool.false_eq_true, if_false,
      bind_ok]
    exact ⟨[], mapError_ok.mpr hvalid, [], rfl, rfl⟩
  unfold Workspace.place
  rw [hplan]
  simp only [Workspace.buildBlock, hsockets, hid, hvalue]
  exact ⟨_, _, rfl, rfl, rfl⟩

def misnaming : List Operation := [.load misnamedDocument, .createBlock entryRequest]

theorem misnaming_run (h : start settings limit = .ok c) :
    Workspace.entry? (c.run misnaming).1.workspace = some 0 ∧
      (c.run misnaming).1.workspace.variableNames = [.text "2x"] := by
  simp only [start, bind_ok, Except.ok.injEq] at h
  obtain ⟨indent, -, rfl⟩ := h
  obtain ⟨placed, supply', hplace, hfacts⟩ := misnamed_place (Supply.drawId {}).2
  simp only [misnaming, run, Canvas.apply, Outcome.map, load, misnamedDocument_read, createBlock]
  split <;> rename_i heq
  · cases hplace.symm.trans heq
  · cases hplace.symm.trans heq
    exact hfacts

theorem fits_fresh (id : String) : Fits limit (.fresh id) ↔ ∀ n ∈ limit, 7 ≤ n := by
  have hempty : ∀ p, ((Workspace.fresh id).block p).next = none ∧
      ∀ k c, (k, some c) ∉ ((Workspace.fresh id).block p).inputs := by
    intro p
    match p with
    | 0 => exact ⟨rfl, fun k c hc => by simp [Workspace.fresh, Workspace.block] at hc⟩
    | p + 1 => exact ⟨rfl, fun k c hc => (List.not_mem_nil hc).elim⟩
  have hasked : ∀ {r n}, Sketch.AskedAt (.fresh id) r n → n = 0 := by
    intro r n hr
    cases hr with
    | root => rfl
    | next _ hc => cases (hempty _).1.symm.trans hc
    | input _ _ hc => exact ((hempty _).2 _ _ hc).elim
  constructor
  · intro hfits
    obtain ⟨t, ht⟩ : ∃ t, Catalog.registry.find? (.text entryType) = some t := by
      rw [Catalog.registry_find?]
      exact ⟨_, rfl⟩
    have hroom := hfits 0 0 t (.root (List.mem_singleton_self _)) ht
    rwa [Sketch.callsFor, (Sketch.entry_type ht).2] at hroom
  · intro hroom r n t hr _ m hm
    have hcalls : Sketch.callsFor t ≤ 7 := by
      rw [Sketch.callsFor]
      split <;> decide
    rw [hasked hr, Nat.zero_add]
    exact hcalls.trans (hroom m hm)

end Canvas

end BlockSketch
