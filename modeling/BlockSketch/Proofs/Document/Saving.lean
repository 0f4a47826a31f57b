import BlockSketch.Proofs.Document.Build

/-!
# Saving and loading

A saved workspace has a record for every live block, in tree order. Read again, every record becomes
the entry that stands for its block, and the workspace built from these entries is the saved one but
for the places of its blocks.
-/

namespace BlockSketch

open Ancestry
open Relation (ReflTransGen TransGen)

-- ---------------------------------------------------------------------------
-- The same program
-- ---------------------------------------------------------------------------

def Block.relabel (f : Ref → Ref) (b : Block) : Block :=
  { b with
    inputs := b.inputs.map fun (socket, child) => (socket, child.map f)
    next := b.next.map f }

namespace Workspace

/-- The live blocks are at other places, and otherwise what they were. -/
structure Renames (f : Ref → Ref) (w w' : Workspace) : Prop where
  injective : w.Live r → w.Live r' → f r = f r' → r = r'
  block : w.Live r → w'.block (f r) = (w.block r).relabel f
  roots : w'.roots = w.roots.map f
  names : w'.variableNames = w.variableNames

/-- Two workspaces are equal but for the places of their blocks. -/
def SameProgram (w w' : Workspace) : Prop :=
  ∃ f, Renames f w w'

end Workspace

namespace Document

variable {registry : Registry} {w : Workspace} {entries : List Entry} {names ids : List String}

-- ---------------------------------------------------------------------------
-- Saved records
-- ---------------------------------------------------------------------------

theorem ofValue?_toValue {record : BlockRecord}
    (hkeys : ∀ k ∈ record.inputs.keys, ∃ s, k = .text s) :
    Draft.ofValue? (record.toValue Value.plain) = some (.ofRecord record) := by
  have hinputs : (record.inputs.map fun input => (input.1.plain, input.2)).map
      (fun input => (Value.text input.1, input.2)) = record.inputs := by
    rw [List.map_map]
    refine (List.map_congr_left fun input hinput => ?_).trans (List.map_id _)
    obtain ⟨k, v⟩ := input
    obtain ⟨s, rfl⟩ := hkeys k (Table.mem_keys.mpr ⟨v, hinput⟩)
    rfl
  exact congrArg (fun inputs => some { Draft.ofRecord record with inputs := some inputs }) hinputs

theorem serialize_hasParts (hnames : w.variableNames = names.map .text) (hdistinct : names.Nodup)
    (hnamed : "" ∉ names) : HasParts w.serialize names
      (w.allBlocks.map fun r => (recordOf w r).toValue Value.plain)
      (w.roots.map fun r => (w.block r).id) := by
  refine ⟨⟨_, rfl⟩, rfl, rfl, .inr ?_, hdistinct, hnamed, ?_, rfl⟩
  · rw [← hnames]
    rfl
  · exact congrArg Value.list List.map_map

-- ---------------------------------------------------------------------------
-- Entries for blocks
-- ---------------------------------------------------------------------------

structure StandsFor (w : Workspace) (r : Ref) (e : Entry) : Prop where
  id : (w.block r).id = .text e.id
  type : (w.block r).type = e.type.typeId
  fields : (w.block r).fields = e.fields
  inputs : (w.block r).inputs.map (fun (socket, child) => (socket, linkId w child)) = e.inputs
  next : linkId w (w.block r).next = e.next
  deletable : (w.block r).deletable = e.deletable

structure Entry.Stable (registry : Registry) (names : List String) (e : Entry) : Prop where
  named : e.id ≠ ""
  type : ∃ type, e.type.typeId = .text type ∧ registry.find? (.text type) = some e.type
  fields : e.type.validateFields e.fields false = .ok e.fields
  declared : ∀ field ∈ e.type.variableFields, ∃ name ∈ names, e.fields.find? field = some (.text name)
  deletable : ∃ b, e.deletable = .bool b ∧ (b = true → e.type.isDeletable = true)

theorem StandsFor.reads (h : StandsFor w r e) (hstable : e.Stable registry names) :
    Reads registry names (.ofRecord (recordOf w r)) e where
  id := h.id
  named := hstable.named
  type := by
    obtain ⟨type, heq, hfind⟩ := hstable.type
    exact ⟨type, h.type.trans heq, hfind⟩
  fields := ⟨e.fields, congrArg Value.object h.fields, hstable.fields, hstable.declared⟩
  inputs := congrArg some h.inputs
  next := h.next
  deletable := by
    obtain ⟨b, hb, hdel⟩ := hstable.deletable
    exact .inr ⟨b, congrArg some (h.deletable.trans hb), hdel, hb⟩

theorem linkId_text (hid : ∀ c, link = some c → ∃ s, (w.block c).id = .text s) :
    (linkId w link).text?.map Value.text = link.map fun c => (w.block c).id := by
  cases link with
  | none => rfl
  | some c =>
    obtain ⟨s, hs⟩ := hid c rfl
    simp [linkId, Value.ofOption, Value.text?, hs]

section

variable (hids : ∀ r, w.Live r → ∃ s, (w.block r).id = .text s)
include hids

theorem StandsFor.links (h : StandsFor w r e) (hr : w.Live r) :
    e.links.map Value.text = (w.children r).map fun c => (w.block c).id := by
  have hbelow : ∀ c, c ∈ w.children r → ∃ s, (w.block c).id = .text s := fun c hc =>
    hids c (hr.child (Workspace.mem_children.mp hc))
  simp only [Workspace.children, List.mem_append, List.mem_filterMap, Option.mem_toList] at hbelow
  rw [links_eq, linksIn, ← h.inputs, ← h.next, Workspace.children, List.map_append, List.map_append,
    List.map_filterMap, List.map_filterMap, List.filterMap_map]
  congr 1
  · refine List.filterMap_congr fun input hinput => linkId_text fun c hc => hbelow c (.inl ?_)
    exact ⟨input, hinput, hc⟩
  · have hnext := linkId_text (w := w) fun c hc => hbelow c (.inr hc)
    rw [← Option.toList_map, ← Option.toList_map, hnext]

end

-- ---------------------------------------------------------------------------
-- The entries of all blocks
-- ---------------------------------------------------------------------------

theorem stands_ids (hstands : List.Forall₂ (StandsFor w) refs entries) :
    (entries.map Entry.id).map Value.text = refs.map fun r => (w.block r).id := by
  induction hstands with
  | nil => rfl
  | cons h _ ih => simp [h.id, ih]

theorem stands_links (hids : ∀ r, w.Live r → ∃ s, (w.block r).id = .text s)
    (hstands : List.Forall₂ (StandsFor w) refs entries) (hlive : ∀ r ∈ refs, w.Live r) :
    (entries.flatMap Entry.links).map Value.text =
      (refs.flatMap w.children).map fun c => (w.block c).id := by
  induction hstands with
  | nil => rfl
  | cons h _ ih =>
    obtain ⟨hr, hrefs⟩ := List.forall_mem_cons.mp hlive
    simp only [List.flatMap_cons, List.map_append, h.links hids hr, ih hrefs]

section

variable (hforest : Workspace.Forest w) (hstands : List.Forall₂ (StandsFor w) w.allBlocks entries)

section

include hstands

theorem stands_at (hr : r ∈ w.allBlocks) :
    ∃ e, entries[w.allBlocks.idxOf r]? = some e ∧ StandsFor w r e := by
  obtain ⟨hlength, hget⟩ := List.forall₂_iff_get.mp hstands
  have hlt := List.idxOf_lt_length_of_mem hr
  refine ⟨_, List.getElem?_eq_getElem (hlength ▸ hlt), ?_⟩
  simpa using hget _ hlt (hlength ▸ hlt)

end

variable (hids : ∀ r, w.Live r → ∃ s, (w.block r).id = .text s)
  (hdistinct : ∀ r r', w.Live r → w.Live r' → (w.block r).id = (w.block r').id → r = r')

section

include hforest hstands hids

theorem stands_child (h : Child entries a b) :
    ∃ p c, w.Live p ∧ w.Link p c ∧ (w.block p).id = .text a ∧ (w.block c).id = .text b := by
  obtain ⟨e, he, rfl, hb⟩ := h
  obtain ⟨p, hp, hstands⟩ := exists_mem_left hstands he
  have hlive := hforest.mem_allBlocks.mp hp
  have hb := List.mem_map_of_mem (f := Value.text) hb
  rw [hstands.links hids hlive, List.mem_map] at hb
  obtain ⟨c, hc, hb⟩ := hb
  exact ⟨p, c, hlive, Workspace.mem_children.mp hc, hstands.id, hb⟩

include hdistinct

theorem stands_path (h : TransGen (Child entries) a b) : ∃ p c, w.Live p ∧ w.Live c ∧
    TransGen w.Link p c ∧ (w.block p).id = .text a ∧ (w.block c).id = .text b := by
  induction h with
  | single h =>
    obtain ⟨p, c, hp, hlink, ha, hb⟩ := stands_child hforest hstands hids h
    exact ⟨p, c, hp, hp.child hlink, .single hlink, ha, hb⟩
  | tail _ h ih =>
    obtain ⟨p, q, hp, hq, hpath, ha, hb⟩ := ih
    obtain ⟨q', c, hq', hlink, hb', hc⟩ := stands_child hforest hstands hids h
    obtain rfl := hdistinct q q' hq hq' (hb.trans hb'.symm)
    exact ⟨p, c, hp, hq.child hlink, hpath.tail hlink, ha, hc⟩

/-- The entries of a forest of blocks form a forest. -/
theorem stands_forest (hroots : (w.roots.map fun r => (w.block r).id) = ids.map .text)
    (hlinked : ∀ e ∈ entries, e.Linked entries)
    (hentry : SoleEntry entries (entries.flatMap Entry.links)) : Forest entries ids := by
  have hinj : Function.Injective Value.text := fun _ _ => Value.text.inj
  have hmem : ∀ (x : String) (l : List String), x ∈ l ↔ Value.text x ∈ l.map Value.text :=
    fun _ _ => (List.mem_map_of_injective hinj).symm
  have hlive : ∀ r ∈ w.allBlocks, w.Live r := fun r => hforest.mem_allBlocks.mp
  have hplaces := hforest.places
  have hall : ((w.roots ++ w.allBlocks.flatMap w.children).map fun r => (w.block r).id).Nodup := by
    refine (hplaces.map _).nodup_iff.mpr (hforest.allBlocks_nodup.map_on fun r hr r' hr' => ?_)
    exact hdistinct r r' (hlive r hr) (hlive r' hr')
  have hperm := hplaces.map fun r => (w.block r).id
  rw [← stands_ids hstands] at hperm
  rw [List.map_append, hroots, ← stands_links hids hstands hlive] at hperm hall
  obtain ⟨hrootsOnce, hlinksOnce, hapart⟩ := List.nodup_append.mp hall
  refine ⟨(List.nodup_map_iff hinj).mp (hperm.nodup_iff.mp hall), hlinked,
    (List.nodup_map_iff hinj).mp hlinksOnce, fun a hcycle => ?_,
    (List.nodup_map_iff hinj).mp hrootsOnce, fun x => ?_, hentry⟩
  · obtain ⟨p, c, hp, hc, hpath, ha, ha'⟩ := stands_path hforest hstands hids hdistinct hcycle
    obtain rfl := hdistinct p c hp hc (ha.trans ha'.symm)
    exact hforest.slots.acyclic p hpath
  · rw [hmem x ids, hmem x (entries.map Entry.id), hmem x (entries.flatMap Entry.links),
      ← hperm.mem_iff, List.mem_append]
    constructor
    · exact fun hx => ⟨.inl hx, fun hx' => hapart _ hx _ hx' rfl⟩
    · exact fun ⟨hx, hx'⟩ => hx.resolve_right hx'

end

end

-- ---------------------------------------------------------------------------
-- Reading what was saved
-- ---------------------------------------------------------------------------

theorem HasParts.read_eq (h : HasParts document names records roots) :
    Document.read registry document =
      Document.assemble registry names (records.map Draft.ofValue?) roots := by
  obtain ⟨members, rfl⟩ := h.object
  have hvariables := readVariables_ok.mpr ⟨h.declares, h.distinct, h.named⟩
  simp only [Document.read, require, Value.object?, Option.isSome_some, if_true, h.format, h.version,
    Value.same_text.mpr rfl, hvariables, h.blocks, h.tops]
  rfl

section

variable (hdeclares : w.variableNames = names.map .text) (hdistinct : names.Nodup)
  (hnamed : "" ∉ names)
include hdeclares hdistinct hnamed

theorem read_saved (hkeys : ∀ r, Table.TextKeys (w.block r).inputs) :
    Document.read registry w.serialize = Document.assemble registry names
      (w.allBlocks.map fun r => some (.ofRecord (recordOf w r)))
      (w.roots.map fun r => (w.block r).id) := by
  rw [(serialize_hasParts hdeclares hdistinct hnamed).read_eq, List.map_map]
  congr 1
  refine List.map_congr_left fun r _ => ofValue?_toValue ?_
  have hsame : (recordOf w r).inputs.keys = (w.block r).inputs.keys := by
    simp [recordOf, Table.keys]
  rw [hsame]
  exact (hkeys r).1

/-- A workspace that is loaded again at once is read as the same records. -/
theorem reread_saved : Document.reread registry (ofWorkspace w) = Document.assemble registry names
    (w.allBlocks.map fun r => some (.ofRecord (recordOf w r)))
    (w.roots.map fun r => (w.block r).id) := by
  have hvariables : readVariables (some (.list w.variableNames)) = .ok names :=
    readVariables_ok.mpr ⟨.inr (by rw [hdeclares]), hdistinct, hnamed⟩
  simp only [Document.reread, ofWorkspace, hvariables, List.map_map]
  rfl

end

/-- A workspace whose blocks are read again as entries that fit together. -/
structure Saves (registry : Registry) (w : Workspace) (entries : List Entry)
    (ids names : List String) : Prop where
  blocks : Workspace.Forest w
  stands : List.Forall₂ (fun r e => StandsFor w r e ∧ e.Stable registry names) w.allBlocks entries
  forest : Forest entries ids
  roots : (w.roots.map fun r => (w.block r).id) = ids.map .text
  declares : w.variableNames = names.map .text
  distinct : names.Nodup
  named : "" ∉ names

section

variable (h : Saves registry w entries ids names)
include h

theorem Saves.assemble : Document.assemble registry names
    (w.allBlocks.map fun r => some (.ofRecord (recordOf w r)))
    (w.roots.map fun r => (w.block r).id) = .ok (build entries ids names) := by
  refine assemble_ok.mpr ⟨entries, ids, ?_, h.roots, h.forest, rfl⟩
  refine List.forall₂_map_left_iff.mpr (h.stands.imp fun r e ⟨hstands, hstable⟩ => ?_)
  exact readRecord_ok.mpr ⟨_, rfl, hstands.reads hstable⟩

theorem Saves.read : Document.read registry w.serialize = .ok (build entries ids names) := by
  rw [read_saved h.declares h.distinct h.named h.blocks.keys]
  exact h.assemble

theorem Saves.reread : Document.reread registry (ofWorkspace w) = .ok (build entries ids names) := by
  rw [reread_saved h.declares h.distinct h.named]
  exact h.assemble

theorem Saves.entry_at (hr : w.Live r) :
    ∃ e, entries[w.allBlocks.idxOf r]? = some e ∧ StandsFor w r e :=
  stands_at (h.stands.imp fun _ _ => And.left) (h.blocks.mem_allBlocks.mpr hr)

theorem Saves.refOf_linkId (hlink : ∀ c, link = some c → w.Live c) :
    refOf entries (linkId w link) = link.map fun r => w.allBlocks.idxOf r := by
  cases link with
  | none => rfl
  | some c =>
    obtain ⟨e, he, hstands⟩ := h.entry_at (hlink c rfl)
    exact (refOf_ok h.forest.ids).mpr ⟨e, he, hstands.id⟩

/-- What was saved is read as the same program. -/
theorem Saves.renames :
    w.Renames (fun r => w.allBlocks.idxOf r) (build entries ids names) where
  injective hr hr' := (List.idxOf_inj (h.blocks.mem_allBlocks.mpr hr)).mp
  block {r} hr := by
    obtain ⟨e, he, hstands⟩ := h.entry_at hr
    have hbelow : ∀ c, w.Link r c → w.Live c := fun _ => hr.child
    rw [block_build he]
    simp only [Entry.toBlock, Block.relabel, Block.mk.injEq, ← hstands.inputs, ← hstands.next,
      List.map_map]
    refine ⟨hstands.type.symm, hstands.id.symm, hstands.fields.symm, ?_, ?_, hstands.deletable.symm⟩
    · refine List.map_congr_left fun input hinput => congrArg (Prod.mk input.1) ?_
      refine h.refOf_linkId fun c hc => hbelow c ⟨.input r input.1, rfl, ?_⟩
      rw [Workspace.Holds, ← hc]
      exact hinput
    · exact h.refOf_linkId fun c hc => hbelow c ⟨.next r, rfl, hc⟩
  roots := by
    have hids : (build entries ids names).roots = (ids.map .text).filterMap (refOf entries) := by
      rw [List.filterMap_map]
      rfl
    rw [hids, ← h.roots, List.filterMap_map, ← List.filterMap_eq_map]
    refine List.filterMap_congr fun r hr => ?_
    have hlive : ∀ c, some r = some c → w.Live c := fun c hc => Option.some.inj hc ▸ .root hr
    exact h.refOf_linkId hlive
  names := h.declares.symm

end

end Document

end BlockSketch
