import BlockSketch.Proofs.Canvas.Outcomes
import BlockSketch.Proofs.Catalog
import BlockSketch.Proofs.Document.Build

/-!
# Runs of a canvas

Whatever is done to a canvas, its workspace stays sound: a forest of typed blocks with distinct ids,
whose links, fields and variables are as the built-in types ask. Each operation keeps the invariant of
the workspace, refused or not, and a run is one operation after the other.

Ids of new blocks are drawn from a supply. That no id from outside is one that is drawn later is
asked of the operations, as nothing in the editor could see to it.
-/

namespace BlockSketch

open Relation (ReflTransGen TransGen)

namespace Workspace

-- ---------------------------------------------------------------------------
-- Sound workspaces
-- ---------------------------------------------------------------------------

/-- A block is as its type asks: in its sockets stand only blocks that fit there, chains consist of
links, it has the fields of its type with values that they store, and its variables are declared. -/
structure BlockSound (registry : Registry) (w : Workspace) (r : Ref) (t : BlockType) : Prop where
  type : registry.find? (w.block r).type = some t
  keys : (w.block r).inputs.keys.Nodup
  inputs : (k, x) ∈ (w.block r).inputs → ∃ socket, t.socket? k = some socket ∧
    ∀ c, x = some c → ∃ u, registry.find? (w.block c).type = some u ∧ socket.Fits u
  next : (w.block r).next = some c → t.isLink = true ∧
    ∃ u, registry.find? (w.block c).type = some u ∧ u.isLink = true
  fields : t.Stored (w.block r).fields
  declared : ∀ field ∈ t.variableFields, ∃ v ∈ w.variableNames,
    (w.block r).fields.find? field = some v

structure Sound (registry : Registry) (w : Workspace) : Prop where
  reached : r ∈ w.allBlocks ↔
    ∃ root ∈ w.roots, ReflTransGen (fun p c => c ∈ w.children p) root r
  exist : r ∈ w.allBlocks → r < w.blocks.size
  once : w.allBlocks.Nodup
  /-- Every block is a root or the child of one block, and no two of these. -/
  places : (w.roots ++ w.allBlocks.flatMap w.children).Perm w.allBlocks
  acyclic : ¬TransGen (fun p c => c ∈ w.children p) r r
  ids : (w.allBlocks.map fun r => (w.block r).id).Nodup
  blocks : r ∈ w.allBlocks → ∃ t, BlockSound registry w r t
  variablesOnce : w.variableNames.Nodup
  entry : r ∈ w.allBlocks → (w.block r).type = .text entryType →
    r ∈ w.roots ∧ (w.block r).isDeletable = false ∧
      ∀ r' ∈ w.allBlocks, (w.block r').type = .text entryType → r' = r

variable {w : Workspace} {registry : Registry}

theorem Invariant.blockSound (h : Invariant registry w) (hr : w.Live r) :
    ∃ t, BlockSound registry w r t := by
  have hlt := h.forest.live_lt hr
  obtain ⟨t, ht⟩ := h.linked.known hlt
  refine ⟨t, ht, (h.forest.keys r).2, fun {k x} hk => ?_, fun {c} hc => ?_, h.stored hlt ht,
    h.declared hr ht⟩
  · obtain ⟨t', socket, ht', hsocket⟩ := h.linked.sockets (Table.mem_keys.mpr ⟨x, hk⟩)
    obtain rfl := ht.unique ht'
    refine ⟨socket, hsocket, ?_⟩
    rintro c rfl
    obtain ⟨t', u, socket', ht', hu, hsocket', hfits⟩ := h.linked.fits (s := .input r k) hk
    obtain rfl := ht.unique ht'
    obtain rfl := Option.some.inj (hsocket.symm.trans hsocket')
    exact ⟨u, hu, hfits⟩
  · obtain ⟨t', u, ht', hu, hlink, hlink'⟩ := h.linked.fits (s := .next r) hc
    obtain rfl := ht.unique ht'
    exact ⟨hlink, u, hu, hlink'⟩

theorem Invariant.sound (h : Invariant registry w) (hregular : registry.Regular) :
    Sound registry w := by
  have hlive : ∀ {r}, r ∈ w.allBlocks ↔ w.Live r := h.forest.mem_allBlocks
  have hchildren : (fun p c => c ∈ w.children p) = w.Link := by
    funext p c
    exact propext mem_children
  refine ⟨fun {r} => ?_, fun hr => h.forest.live_lt (hlive.mp hr), h.forest.allBlocks_nodup,
    h.forest.places, fun {r} => ?_, ?_, fun hr => h.blockSound (hlive.mp hr), h.namesOnce,
    fun {r} hr ht => ?_⟩
  · rw [hlive, hchildren]
    rfl
  · rw [hchildren]
    exact h.forest.slots.acyclic r
  · refine List.Nodup.map_on (fun r hr r' hr' hid => ?_) h.forest.allBlocks_nodup
    exact h.distinct (hlive.mp hr) (hlive.mp hr') hid
  · have hroot := h.entry_root hregular (hlive.mp hr) ht
    refine ⟨hroot, h.entryKept (h.forest.bounded hroot) ht, fun r' hr' ht' => ?_⟩
    exact h.entryOnce (h.entry_root hregular (hlive.mp hr') ht') hroot ht' ht

-- ---------------------------------------------------------------------------
-- The first workspace
-- ---------------------------------------------------------------------------

theorem not_holds_empty : ¬({} : Workspace).Holds s c := by
  cases s with
  | root => exact List.not_mem_nil
  | next p => exact nofun
  | input p k => exact List.not_mem_nil

theorem not_live_empty : ¬({} : Workspace).Live r :=
  fun hr => not_holds_empty hr.held.choose_spec

theorem Invariant.empty (registry : Registry) : Invariant registry {} where
  linked :=
    { forest :=
        { keys _ := .nil
          bounded hc := (not_holds_empty hc).elim
          nodup := .nil
          slots :=
            { unique hc := (not_holds_empty hc).elim
              single _ hc := (not_holds_empty hc).elim
              acyclic r hcycle := by
                obtain ⟨_, ⟨s, -, hc⟩, -⟩ := TransGen.head'_iff.mp hcycle
                exact not_holds_empty hc } }
      known hr := (Nat.not_lt_zero _ hr).elim
      sockets hk := (List.not_mem_nil hk).elim
      fits hc := (not_holds_empty hc).elim }
  stored hr := (Nat.not_lt_zero _ hr).elim
  ids hr := (not_live_empty hr).elim
  distinct hr := (not_live_empty hr).elim
  declared hr := (not_live_empty hr).elim
  names _ hv := (List.not_mem_nil hv).elim
  namesOnce := .nil
  entryOnce hr := (not_holds_empty hr).elim
  entryKept hr := (Nat.not_lt_zero _ hr).elim

def entryBlock (id : String) : Block where
  type := .text entryType
  id := .text id
  inputs := [(.text "SETUP", none), (.text "LOOP", none)]
  deletable := .bool false

theorem fresh_eq (id : String) :
    fresh id = (({} : Workspace).alloc (entryBlock id)).2.addRoot 0 := by
  rfl

theorem entryBlock_bare (id : String) : ∃ t, IsBare Catalog.registry (entryBlock id) t ∧
    t.variableFields = [] := by
  have hentry : ∃ t, Catalog.registry.find? (.text entryType) = some t ∧ t.fields = [] ∧
      t.sockets = [.statement "SETUP", .statement "LOOP"] ∧ t.deletable = .bool false := by
    rw [Catalog.registry_find?]
    exact ⟨_, rfl, rfl, rfl, rfl⟩
  obtain ⟨t, ht, hfields, hsockets, hdeletable⟩ := hentry
  refine ⟨t, ⟨ht, rfl, fun {k x} hk => ?_, ?_, fun {k} hk => ?_, ?_, fun _ => rfl,
    hdeletable.symm⟩, ?_⟩
  · simp only [entryBlock, List.mem_cons, Prod.mk.injEq, List.not_mem_nil, or_false] at hk
    rcases hk with ⟨-, rfl⟩ | ⟨-, rfl⟩ <;> rfl
  · simp [Table.TextKeys, Table.keys, entryBlock]
  · have hk : k = .text "SETUP" ∨ k = .text "LOOP" := by
      simpa [Table.keys, entryBlock] using hk
    rw [BlockType.socket?, hsockets]
    rcases hk with rfl | rfl
    · exact ⟨_, rfl⟩
    · exact ⟨_, rfl⟩
  · rw [BlockType.Stored, hfields]
    exact .nil
  · rw [BlockType.variableFields, hfields]
    rfl

theorem Invariant.fresh (id : String) :
    Gains Catalog.registry {} (Workspace.fresh id) [.text id] := by
  obtain ⟨t, hbare, hnone⟩ := entryBlock_bare id
  rw [fresh_eq]
  refine (Invariant.empty _).addNew ⟨hbare, ⟨id, rfl⟩, ?_, by simp [hnone]⟩ fun _ => rfl
  rintro ⟨r, hr, -⟩
  exact not_live_empty hr

theorem fresh_pastIds (hs : supply.Past s) : PastIds (fresh s) supply := by
  intro v hv
  rcases (Invariant.fresh s).ids hv with ⟨r, hr, -⟩ | hv
  · exact (not_live_empty hr).elim
  · exact ⟨s, List.mem_singleton.mp hv, hs⟩

end Workspace

-- ---------------------------------------------------------------------------
-- Operations
-- ---------------------------------------------------------------------------

/-- An id that an operation brings is not going to be drawn, and no object of a document has two
members of one name. -/
def Operation.Proper (supply : Supply) : Operation → Prop
  | .createBlock request => Workspace.ProperRequest supply request
  | .load document => document.WellKeyed ∧ Document.PastRecords supply document
  | .loadText text => ∀ s document, text = .text s → Json.read s = .ok document →
      Document.PastRecords supply document
  | _ => True

namespace Canvas

open Workspace (Invariant Keeps PastIds ProperRequest Sound)

variable {c : Canvas}

structure Good (c : Canvas) : Prop where
  registry : c.registry = Catalog.registry
  inv : Invariant c.registry c.workspace
  ids : PastIds c.workspace c.supply

theorem Good.regular (h : Good c) : c.registry.Regular :=
  h.registry ▸ Catalog.registry_regular

theorem Good.reads {op : Operation} (h : Good c) (hproper : op.Proper c.supply)
    (hread : op.reading? c = some (.ok w)) : Invariant c.registry w ∧ PastIds w c.supply := by
  cases op with
  | load document =>
    exact Document.read_invariant h.regular hproper.1 hproper.2 (Option.some.inj hread)
  | reload => exact Document.reread_invariant h.regular h.inv h.ids (Option.some.inj hread)
  | loadText text =>
    obtain ⟨s, document, rfl, hjson, hw⟩ := Document.readText_ok (Option.some.inj hread)
    exact Document.read_invariant h.regular (Json.read_wellKeyed hjson)
      (hproper s document rfl hjson) hw
  | _ => cases hread

theorem Good.reworks {supply : Supply} (h : Good c) (hproper : op.Proper c.supply)
    (hreworks : Reworks c op w supply) : Invariant c.registry w ∧ PastIds w supply := by
  have hedited {w' : Workspace} (hkeeps : Keeps c.registry c.workspace w') :
      Invariant c.registry w' ∧ PastIds w' c.supply :=
    ⟨hkeeps.inv, hkeeps.pastIds h.ids⟩
  cases hreworks with
  | kept _ hdrawn => exact ⟨h.inv, h.ids.mono hdrawn⟩
  | placed hplace => exact h.inv.place h.regular h.ids hproper hplace
  | connected block parent socket => exact hedited (h.inv.connect h.regular block parent socket)
  | detached hdetach => exact hedited (h.inv.detach h.regular hdetach)
  | deleted hdelete => exact hedited (h.inv.delete h.regular hdelete)
  | changed hset => exact hedited (h.inv.setField h.regular hset)
  | declared hcreate => exact hedited (h.inv.createVariable hcreate)
  | undeclared name => exact hedited (h.inv.deleteVariable h.regular name)
  | cleared =>
    rw [h.registry]
    exact ⟨(Invariant.fresh _).inv, Workspace.fresh_pastIds c.supply.drawId_past⟩
  | loaded hread => exact h.reads hproper hread

theorem Good.apply (h : Good c) (hproper : op.Proper c.supply) : Good (c.apply op).canvas := by
  have hends := c.apply_ends op
  obtain ⟨hinv, hids⟩ := h.reworks hproper hends.reworks
  rw [← hends.registry] at hinv
  exact ⟨hends.registry.trans h.registry, hinv, hids⟩

-- ---------------------------------------------------------------------------
-- Runs
-- ---------------------------------------------------------------------------

def ProperRun (c : Canvas) : List Operation → Prop
  | [] => True
  | op :: rest => op.Proper c.supply ∧ ProperRun (c.apply op).canvas rest

theorem Good.run (h : Good c) (hproper : c.ProperRun ops) : Good (c.run ops).1 := by
  induction ops generalizing c with
  | nil => exact h
  | cons op ops ih => exact ih (h.apply hproper.1) hproper.2

theorem exists_start : ∃ c, start {} = .ok c :=
  ⟨_, rfl⟩

structure New (limit : Option Nat) (c : Canvas) : Prop where
  registry : c.registry = Catalog.registry
  emitters : c.emitters = Sketch.Arduino.emitters
  indent : ∃ text, c.indent = .text text
  room : c.room = limit
  selection : c.selection = []
  allowed : c.allowed = Gate.allowedTypes Catalog.registry []
  workspace : c.workspace = .fresh (Supply.drawId {}).1
  supply : c.supply = (Supply.drawId {}).2
  scheduler : ∃ s, c.scheduler = some s

theorem new_of_start (h : start settings limit = .ok c) : New limit c := by
  simp only [start, bind_ok, Except.ok.injEq] at h
  obtain ⟨indent, -, rfl⟩ := h
  exact ⟨by dsimp only, rfl, ⟨_, rfl⟩, rfl, rfl, by dsimp only, rfl, rfl, ⟨_, rfl⟩⟩

theorem good_start (h : start settings limit = .ok c) : Good c := by
  have hnew := new_of_start h
  refine ⟨hnew.registry, ?_, ?_⟩
  · rw [hnew.registry, hnew.workspace]
    exact (Invariant.fresh _).inv
  · rw [hnew.workspace, hnew.supply]
    exact Workspace.fresh_pastIds (Supply.drawId_past {})

/-- The workspace is sound after every run of operations from a new canvas. -/
theorem workspace_sound (settings : Settings) (c : Canvas) (ops : List Operation)
    (hstart : start settings limit = .ok c) (hproper : c.ProperRun ops) :
    Sound Catalog.registry (c.run ops).1.workspace := by
  have hgood := (good_start hstart).run hproper
  have hsound := hgood.inv.sound hgood.regular
  rw [hgood.registry] at hsound
  exact hsound

/-- A loop with a filled socket is built, moved into the program and run around a new variable, and
then another program is loaded. -/
def editsAndLoad : List Operation := [
  .createBlock { type := "controls_repeat_ext", id := "loop" },
  .connect "loop" "uuid-1" "SETUP",
  .createBlock { type := "variables_set", fields := .object [("VAR", "count")], id := "set" },
  .connect "set" "loop" "DO",
  .deleteVariable "count",
  .load Document.delayDocument]

theorem delayDocument_wellKeyed : Document.delayDocument.WellKeyed := by
  have hfields : Value.WellKeyed (.object [("TIME", .int 5)]) :=
    .object (by decide) (List.forall_mem_singleton.mpr (.scalar rfl))
  have hrecord : Document.delayRecord.WellKeyed := by
    refine .object (by decide) ?_
    simp only [List.forall_mem_cons, List.not_mem_nil, false_implies, implies_true, and_true]
    exact ⟨.scalar rfl, .scalar rfl, hfields⟩
  refine .object (by decide) ?_
  simp only [List.forall_mem_cons, List.not_mem_nil, false_implies, implies_true, and_true]
  exact ⟨.scalar rfl, .scalar rfl, .list (List.forall_mem_singleton.mpr hrecord),
    .list (List.forall_mem_singleton.mpr (.scalar rfl))⟩

theorem editsAndLoad_proper (c : Canvas) : c.ProperRun editsAndLoad := by
  refine ⟨.inr ⟨"loop", rfl, Supply.past_of_head _ (by decide)⟩, trivial,
    .inr ⟨"set", rfl, Supply.past_of_head _ (by decide)⟩, trivial, trivial,
    ⟨delayDocument_wellKeyed, ?_⟩, trivial⟩
  rintro records hrecords record hrecord s hs
  obtain rfl := Value.list.inj hrecords
  obtain rfl := List.mem_singleton.mp hrecord
  obtain rfl := Value.text.inj hs
  exact Supply.past_of_head _ (by decide)

theorem workspace_sound_editsAndLoad : ∃ c, start {} = .ok c ∧ c.ProperRun editsAndLoad ∧
    Sound Catalog.registry (c.run editsAndLoad).1.workspace :=
  ⟨_, rfl, editsAndLoad_proper _, workspace_sound {} _ _ rfl (editsAndLoad_proper _)⟩

end Canvas

end BlockSketch
