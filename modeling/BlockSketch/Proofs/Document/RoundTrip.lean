import BlockSketch.Proofs.Catalog
import BlockSketch.Proofs.Document.Saving
import BlockSketch.Proofs.Workspace.Keeping

/-!
# Reading, saving and reading again

A document that is read gives a workspace whose own document is read too, as the same program. The
second document says what the first one says, with all members written out, the fields as they are
stored and the records in tree order.
-/

namespace BlockSketch.Document

open Relation (ReflTransGen TransGen)
open Workspace (SameProgram)

variable {registry : Registry} {w : Workspace} {entries : List Entry} {names ids : List String}

-- ---------------------------------------------------------------------------
-- Documents that say the same
-- ---------------------------------------------------------------------------

/-- Ids in tree order: each is followed by all that its record leads to, and then by the ids that
come after it. -/
inductive TreeOrder (records : List Value) : List Value → List Value → Prop where
  | nil : TreeOrder records [] []
  | cons (hrecord : record ∈ records)
      (hbelow : TreeOrder records ((linksOf record).map .text) below)
      (hafter : TreeOrder records rest after) :
      TreeOrder records (record.member "id" :: rest) (record.member "id" :: (below ++ after))

/-- A record of a type that says what another one says, with all its members and with the values that
its fields store. -/
structure WritesOut (registry : Registry) (record record' : Value) (t : BlockType) : Prop where
  known : HasType registry record t
  type : record'.member? "type" = some (record.member "type")
  fields : ∃ given stored, fieldsOf record = .object given ∧
    record'.member? "fields" = some (.object stored) ∧
    (∀ name ∈ Assoc.names given, t.fields.has name = true) ∧
    List.Forall₂ (fun nf nv => nv.1 = nf.1 ∧
      ∃ v, Assoc.find? given nf.1 = some v ∧ nf.2.validate v = .ok nv.2) t.fields stored
  inputs : record'.member? "inputs" = some (inputsOf record)
  next : record'.member? "next" = some (record.member "next")
  deletable : record'.member? "deletable" = some ((record.member? "deletable").getD t.deletable)

/-- Records in tree order that write out other records, one for each of them. -/
structure Restates (registry : Registry) (roots records records' : List Value) : Prop where
  order : TreeOrder records roots (records'.map (·.member "id"))
  once : (records'.map (·.member "id")).Perm (records.map (·.member "id"))
  record : ∀ record ∈ records, ∀ record' ∈ records', record'.member "id" = record.member "id" →
    ∃ t, WritesOut registry record record' t

-- ---------------------------------------------------------------------------
-- Tree order
-- ---------------------------------------------------------------------------

theorem TreeOrder.append (h : TreeOrder records roots order) (h' : TreeOrder records roots' order') :
    TreeOrder records (roots ++ roots') (order ++ order') := by
  induction h with
  | nil => exact h'
  | cons hrecord hbelow _ _ ih =>
    rw [List.cons_append, List.cons_append, List.append_assoc]
    exact .cons hrecord hbelow ih

theorem TreeOrder.flatMap {refs : List Ref} {id : Ref → Value} {below : Ref → List Ref}
    (h : ∀ r ∈ refs, TreeOrder records [id r] ((below r).map id)) :
    TreeOrder records (refs.map id) ((refs.flatMap below).map id) := by
  induction refs with
  | nil => exact .nil
  | cons r refs ih =>
    obtain ⟨hr, hrefs⟩ := List.forall_mem_cons.mp h
    rw [List.flatMap_cons, List.map_append]
    exact hr.append (ih hrefs)

theorem treeOrder_subtree {records : List Value} (hforest : Workspace.Forest w)
    (hrecords : ∀ r, w.Live r → ∃ record ∈ records, record.member "id" = (w.block r).id ∧
      (linksOf record).map Value.text = (w.children r).map fun c => (w.block c).id)
    (hr : w.Live r) :
    TreeOrder records [(w.block r).id] ((w.subtree r).map fun x => (w.block x).id) := by
  induction r using hforest.induct with
  | step r ih =>
    obtain ⟨record, hrecord, hid, hlinks⟩ := hrecords r hr
    have hbelow : TreeOrder records ((w.children r).map fun x => (w.block x).id)
        (((w.children r).flatMap w.subtree).map fun x => (w.block x).id) := by
      refine .flatMap fun c hc => ?_
      have hlink := Workspace.mem_children.mp hc
      exact ih c hlink (hr.child hlink)
    rw [← hlinks] at hbelow
    have hone := TreeOrder.cons hrecord hbelow .nil
    rw [hid, List.append_nil] at hone
    rw [hforest.subtree_eq, List.map_cons]
    exact hone

-- ---------------------------------------------------------------------------
-- Entries and the blocks built from them
-- ---------------------------------------------------------------------------

theorem Entry.exists_hasLink {e : Entry} (h : x ∈ e.links) : ∃ place, e.HasLink place (.text x) := by
  rw [links_eq, List.mem_append] at h
  rcases h with h | h
  · obtain ⟨⟨k, v⟩, hmem, hv⟩ := List.mem_filterMap.mp h
    rw [Value.text?_eq_some] at hv
    exact ⟨some k, hv ▸ hmem⟩
  · exact ⟨none, Value.text?_eq_some.mp (Option.mem_toList.mp h)⟩

section

variable (hforest : Forest entries ids)
include hforest

/-- Every entry becomes a live block: one that is no root has its place in another one. -/
theorem Forest.live_build (hkeys : ∀ e ∈ entries, Table.TextKeys e.inputs)
    (hr : r < entries.length) : (build entries ids names).Live r := by
  refine (hforest.build_forest hkeys).live_of_held (S := (· < entries.length)) (fun x hx => ?_) hr
  have hf := List.getElem?_eq_getElem hx
  have hmem := List.mem_of_getElem? hf
  by_cases hroot : entries[x].id ∈ ids
  · exact .inl ((root_build hforest.ids).mpr ⟨_, hf, hroot⟩)
  · have hlink : entries[x].id ∈ entries.flatMap Entry.links := by
      by_contra hfree
      exact hroot ((hforest.tops _).mpr ⟨List.mem_map_of_mem hmem, hfree⟩)
    obtain ⟨e, he, hlink⟩ := List.mem_flatMap.mp hlink
    obtain ⟨place, hlink⟩ := Entry.exists_hasLink hlink
    obtain ⟨p, hp⟩ := List.mem_iff_getElem?.mp he
    refine .inr ⟨p, (List.getElem?_eq_some_iff.mp hp).1, Workspace.slotAt p place,
      Workspace.slotAt_parent p place, ?_⟩
    exact (holds_build hforest.ids).mpr ⟨e, _, hp, hf, hlink⟩

theorem Forest.linkId_refOf (h : Leads entries suits v) :
    linkId (build entries ids names) (refOf entries v) = v := by
  rcases h with rfl | ⟨child, hchild, rfl, -⟩
  · rfl
  · obtain ⟨c, hc⟩ := List.mem_iff_getElem?.mp hchild
    have href : refOf entries (.text child.id) = some c :=
      (refOf_ok hforest.ids).mpr ⟨child, hc, rfl⟩
    rw [href]
    exact (build_content hc).2.1

theorem Forest.stands_build (he : entries[r]? = some e) :
    StandsFor (build entries ids names) r e := by
  have hlinked := hforest.linked e (List.mem_of_getElem? he)
  have hblock : (build entries ids names).block r = e.toBlock entries := block_build he
  refine ⟨?_, ?_, ?_, ?_, ?_, ?_⟩ <;> rw [hblock]
  · exact rfl
  · exact rfl
  · exact rfl
  · rw [Entry.toBlock, List.map_map]
    refine (List.map_congr_left fun input hinput => ?_).trans (List.map_id _)
    obtain ⟨socket, -, hleads⟩ := hlinked.inputs input hinput
    exact congrArg (Prod.mk input.1) (hforest.linkId_refOf hleads)
  · exact hforest.linkId_refOf hlinked.next
  · exact rfl

theorem Forest.roots_build : ((build entries ids names).roots.map fun r =>
    ((build entries ids names).block r).id) = ids.map .text := by
  have hroots : (build entries ids names).roots = ids.filterMap fun x => refOf entries (.text x) := rfl
  rw [hroots, List.map_filterMap, ← List.filterMap_eq_map]
  refine List.filterMap_congr fun x hx => ?_
  obtain ⟨hmem, -⟩ := (hforest.tops x).mp hx
  obtain ⟨f, hf, rfl⟩ := List.mem_map.mp hmem
  obtain ⟨c, hc⟩ := List.mem_iff_getElem?.mp hf
  rw [(refOf_ok hforest.ids).mpr ⟨f, hc, rfl⟩]
  exact congrArg some (build_content hc).2.1

end

/-- What is read once is read again as it is. -/
theorem Reads.stable (hdeclared : registry.Declared) (h : Reads registry names d e) :
    e.Stable registry names := by
  obtain ⟨type, -, hfind⟩ := h.type
  obtain ⟨hid, htype⟩ := hdeclared type e.type hfind
  have hnodup := htype.fieldNames
  obtain ⟨given, -, hfields, -⟩ := h.fields
  have hstored : e.type.Stored e.fields := BlockType.stored_of_filled (by simp)
    (BlockType.validateFields_ok.mp hfields).2
  refine ⟨h.named, ⟨type, hid, hfind⟩, hstored.validateFields hnodup false,
    fun field hfield => h.declared hnodup hfield, ?_⟩
  rcases h.deletable with ⟨-, heq⟩ | ⟨b', -, hdel, heq⟩
  · rw [heq]
    exact htype.flag
  · exact ⟨b', heq, hdel⟩

theorem Entry.Linked.mono {e : Entry} (h : e.Linked entries) (hsub : ∀ e ∈ entries, e ∈ entries') :
    e.Linked entries' := by
  have hleads : ∀ {suits v}, Leads entries suits v → Leads entries' suits v := by
    rintro suits v (hnull | ⟨child, hchild, hid, hsuits⟩)
    · exact .inl hnull
    · exact .inr ⟨child, hsub child hchild, hid, hsuits⟩
  refine ⟨fun input hinput => ?_, hleads h.next⟩
  obtain ⟨socket, hsocket, hinput⟩ := h.inputs input hinput
  exact ⟨socket, hsocket, hleads hinput⟩

theorem SoleEntry.of_mem (h : SoleEntry entries (entries.flatMap Entry.links))
    (hmem : ∀ e, e ∈ entries' ↔ e ∈ entries) :
    SoleEntry entries' (entries'.flatMap Entry.links) := by
  refine ⟨fun e he e' he' => h.sole e ((hmem e).mp he) e' ((hmem e').mp he'), fun e he ht hlink => ?_⟩
  obtain ⟨p, hp, hlink⟩ := List.mem_flatMap.mp hlink
  exact h.free e ((hmem e).mp he) ht (List.mem_flatMap.mpr ⟨p, (hmem p).mp hp, hlink⟩)

section

variable (hforest : Forest entries ids) (hkeys : ∀ e ∈ entries, Table.TextKeys e.inputs)
include hforest hkeys

theorem Forest.exists_listed : ∃ entries', (∀ e, e ∈ entries' ↔ e ∈ entries) ∧
    List.Forall₂ (fun r e => entries[r]? = some e) (build entries ids names).allBlocks entries' := by
  have hblocks : Workspace.Forest (build entries ids names) := hforest.build_forest hkeys
  obtain ⟨entries', hlisted⟩ := exists_forall₂.mpr fun r hr => by
    obtain ⟨e, -, he⟩ := exists_entry_at (hblocks.live_lt (hblocks.mem_allBlocks.mp hr))
    exact ⟨e, he⟩
  refine ⟨entries', fun e => ⟨fun he => ?_, fun he => ?_⟩, hlisted⟩
  · obtain ⟨r, -, hr⟩ := exists_mem_left hlisted he
    exact List.mem_of_getElem? hr
  · obtain ⟨r, hr⟩ := List.mem_iff_getElem?.mp he
    have hlive : (build entries ids names).Live r :=
      hforest.live_build hkeys (List.getElem?_eq_some_iff.mp hr).1
    obtain ⟨e', he', hr'⟩ := exists_mem_right hlisted (hblocks.mem_allBlocks.mpr hlive)
    obtain rfl := Option.some.inj (hr.symm.trans hr')
    exact he'

/-- A workspace that was built from stable entries can be read again. -/
theorem Forest.saves_build (hstable : ∀ e ∈ entries, e.Stable registry names)
    (hmem : ∀ e, e ∈ entries' ↔ e ∈ entries)
    (hlisted : List.Forall₂ (fun r e => entries[r]? = some e)
      (build entries ids names).allBlocks entries')
    (hdistinct : names.Nodup) (hnamed : "" ∉ names) :
    Saves registry (build entries ids names) entries' ids names := by
  have hblocks : Workspace.Forest (build entries ids names) := hforest.build_forest hkeys
  have hstands : List.Forall₂ (StandsFor (build entries ids names)) _ entries' :=
    hlisted.imp fun r e he => hforest.stands_build he
  have hat : ∀ r, (build entries ids names).Live r → ∃ e, entries[r]? = some e := fun r hr => by
    obtain ⟨e, -, he⟩ := exists_entry_at (hblocks.live_lt hr)
    exact ⟨e, he⟩
  refine ⟨hblocks, hlisted.imp fun r e he => ⟨hforest.stands_build he,
    hstable e (List.mem_of_getElem? he)⟩, ?_, hforest.roots_build, rfl, hdistinct, hnamed⟩
  refine stands_forest hblocks hstands (fun r hr => ?_) (fun r r' hr hr' hid => ?_)
    hforest.roots_build (fun e he => ?_) (hforest.entry.of_mem hmem)
  · obtain ⟨e, he⟩ := hat r hr
    exact ⟨_, (build_content he).2.1⟩
  · obtain ⟨e, he⟩ := hat r hr
    obtain ⟨e', he'⟩ := hat r' hr'
    rw [(build_content he).2.1, (build_content he').2.1] at hid
    exact place_unique hforest.ids he he' (Value.text.inj hid)
  · exact (hforest.linked e ((hmem e).mp he)).mono fun e' he' => (hmem e').mpr he'

end

-- ---------------------------------------------------------------------------
-- Records and what is written for them
-- ---------------------------------------------------------------------------

/-- The record of a block writes out the record that the block was read from. -/
theorem Reads.writesOut (hdeclared : registry.Declared) (hdraft : Draft.ofValue? record = some d)
    (hreads : Reads registry names d e) (hstands : StandsFor w r e) :
    WritesOut registry record ((recordOf w r).toValue Value.plain) e.type := by
  cases record with
  | object members =>
    cases hdraft
    obtain ⟨type, htype, hfind⟩ := hreads.type
    obtain ⟨given, hgiven, hfields, -⟩ := hreads.fields
    obtain ⟨hnames, hfilled⟩ := BlockType.validateFields_ok.mp hfields
    obtain ⟨inputs, hinputs, hmap⟩ := Option.map_eq_some_iff.mp hreads.inputs
    refine ⟨⟨type, htype, hfind⟩, congrArg some ?_, ⟨given, e.fields, hgiven, ?_, hnames, ?_⟩,
      congrArg some ?_, congrArg some (hstands.next.trans hreads.next.symm), congrArg some ?_⟩
    · exact hstands.type.trans ((hdeclared type e.type hfind).1.trans htype.symm)
    · exact congrArg (fun fields => some (Value.object fields)) hstands.fields
    · refine hfilled.imp fun nf nv ⟨hname, hvalue⟩ => ⟨hname, ?_⟩
      exact hvalue.resolve_right fun ⟨_, hfill, _⟩ => nomatch hfill
    · refine Eq.trans ?_ (object?_ok.mp hinputs).symm
      refine congrArg Value.object (Eq.trans (congrArg _ (hstands.inputs.trans hmap.symm)) ?_)
      rw [List.map_map]
      exact List.map_id _
    · refine hstands.deletable.trans ?_
      rcases hreads.deletable with ⟨hnone, heq⟩ | ⟨b, hsome, -, heq⟩
      · rw [heq]
        exact congrArg (Option.getD · e.type.deletable) hnone.symm
      · rw [heq]
        exact congrArg (Option.getD · e.type.deletable) hsome.symm
  | _ => cases hdraft

section

variable {records : List Value} (hdeclared : registry.Declared)
  (hread : List.Forall₂ (fun record e => readRecord registry names (Draft.ofValue? record) = .ok e)
    records entries)
  (hmem : ∀ e, e ∈ entries' ↔ e ∈ entries) (hsaves : Saves registry w entries' ids names)

section

include hread hmem hsaves

theorem Saves.treeOrder : TreeOrder records (ids.map .text)
    (w.allBlocks.map fun r => (w.block r).id) := by
  have hids : ∀ r, w.Live r → ∃ s, (w.block r).id = .text s := fun r hr => by
    obtain ⟨e, -, hstands⟩ := hsaves.entry_at hr
    exact ⟨e.id, hstands.id⟩
  rw [← hsaves.roots, Workspace.allBlocks_eq]
  refine .flatMap fun r hr => treeOrder_subtree hsaves.blocks (fun x hx => ?_) (.root hr)
  obtain ⟨e, he, hstands⟩ := hsaves.entry_at hx
  obtain ⟨record, hrecord, hreads⟩ := exists_mem_left hread ((hmem e).mp (List.mem_of_getElem? he))
  have hreads := readRecord_readAs hreads
  refine ⟨record, hrecord, hreads.id.trans hstands.id.symm, ?_⟩
  rw [hreads.links, hstands.links hids hx]

theorem Saves.ids_perm (hforest : Forest entries ids) :
    (w.allBlocks.map fun r => (w.block r).id).Perm (records.map (·.member "id")) := by
  have hperm : (entries'.map Entry.id).Perm (entries.map Entry.id) := by
    refine (List.perm_ext_iff_of_nodup hsaves.forest.ids hforest.ids).mpr fun x => ?_
    simp only [List.mem_map, hmem]
  rw [← stands_ids (hsaves.stands.imp fun _ _ => And.left),
    ids_readAs (hread.imp fun _ _ => readRecord_readAs)]
  exact hperm.map _

include hdeclared

theorem Saves.restates (hforest : Forest entries ids) : Restates registry (ids.map .text) records
    (w.allBlocks.map fun r => (recordOf w r).toValue Value.plain) := by
  have hids : (w.allBlocks.map fun r => (recordOf w r).toValue Value.plain).map (·.member "id") =
      w.allBlocks.map fun r => (w.block r).id := List.map_map
  refine ⟨?_, ?_, fun record hrecord record' hrecord' hid => ?_⟩
  · rw [hids]
    exact hsaves.treeOrder hread hmem
  · rw [hids]
    exact hsaves.ids_perm hread hmem hforest
  · obtain ⟨r, hr, rfl⟩ := List.mem_map.mp hrecord'
    obtain ⟨e, he, hreads⟩ := exists_mem_right hread hrecord
    obtain ⟨e', he', hstands⟩ := hsaves.entry_at (hsaves.blocks.mem_allBlocks.mp hr)
    obtain ⟨d, hdraft, hd⟩ := readRecord_ok.mp hreads
    have hsame : e' = e := by
      refine eq_of_id hforest.ids ((hmem e').mp (List.mem_of_getElem? he')) he ?_
      exact Value.text.inj (hstands.id.symm.trans (hid.trans (readRecord_readAs hreads).id))
    exact ⟨e.type, hd.writesOut hdeclared hdraft (hsame ▸ hstands)⟩

end

end

/-- The document of a workspace that was read is read as the same program, and says what the document
said that the workspace was read from. -/
theorem serialize_restates (registry : Registry) (hdeclared : registry.Declared) (document : Value)
    (hkeyed : document.WellKeyed) (w : Workspace) (hread : read registry document = .ok w) :
    (∃ w', read registry w.serialize = .ok w' ∧ reread registry (ofWorkspace w) = .ok w' ∧
      SameProgram w w') ∧
    ∃ names records records' roots, HasParts document names records roots ∧
      HasParts w.serialize names records' roots ∧ Restates registry roots records records' := by
  obtain ⟨names, records, _, hparts, hassemble⟩ := read_ok.mp hread
  obtain ⟨entries, ids, hdrafts, rfl, hforest, rfl⟩ := assemble_ok.mp hassemble
  have hread := List.forall₂_map_left_iff.mp hdrafts
  have hrecords : ∀ record ∈ records, record.WellKeyed := by
    have hlist := hkeyed.member "blocks"
    rw [hparts.blocks] at hlist
    exact hlist.items
  have hfrom : ∀ e ∈ entries, ∃ d, d.Keyed ∧ Reads registry names d e := by
    intro e he
    obtain ⟨record, hrecord, hread⟩ := exists_mem_left hread he
    obtain ⟨d, hdraft, hreads⟩ := readRecord_ok.mp hread
    exact ⟨d, ofValue?_keyed (hrecords record hrecord) hdraft, hreads⟩
  have hkeys : ∀ e ∈ entries, Table.TextKeys e.inputs := fun e he => by
    obtain ⟨d, hd, hreads⟩ := hfrom e he
    exact hd e.inputs hreads.inputs
  have hstable : ∀ e ∈ entries, e.Stable registry names := fun e he => by
    obtain ⟨d, -, hreads⟩ := hfrom e he
    exact hreads.stable hdeclared
  obtain ⟨entries', hmem, hlisted⟩ := hforest.exists_listed hkeys
  have hsaves := hforest.saves_build hkeys hstable hmem hlisted hparts.distinct hparts.named
  have hparts' := serialize_hasParts hsaves.declares hsaves.distinct hsaves.named
  rw [hsaves.roots] at hparts'
  exact ⟨⟨_, hsaves.read, hsaves.reread, _, hsaves.renames⟩, names, records, _, _, hparts, hparts',
    hsaves.restates hdeclared hread hmem hforest⟩

-- ---------------------------------------------------------------------------
-- A document with protected blocks
-- ---------------------------------------------------------------------------

/-- An assignment with a protected number in it, and another assignment that is protected itself and
comes last in the program, but first among the records. -/
def guardedRecords : List Value := [
  .object [("id", "b"), ("type", "variables_set"), ("fields", .object [("VAR", "x")]),
    ("deletable", .bool false)],
  .object [("id", "a"), ("type", "variables_set"), ("fields", .object [("VAR", "x")]),
    ("inputs", .object [("VALUE", "c")])],
  .object [("id", "c"), ("type", "math_number"), ("fields", .object [("NUM", .int 7)]),
    ("deletable", .bool false)]]

def guardedDocument : Value :=
  .object [("format", .text formatName), ("version", .int 1), ("variables", .list ["x"]),
    ("blocks", .list guardedRecords), ("top_blocks", .list ["a", "b"])]

def guardedWorkspace : Workspace where
  blocks := #[
    { type := "variables_set", id := "b", fields := [("VAR", "x")], deletable := .bool false },
    { type := "variables_set", id := "a", fields := [("VAR", "x")], inputs := [("VALUE", some 2)] },
    { type := "math_number", id := "c", fields := [("NUM", .int 7)], deletable := .bool false }]
  roots := [1, 0]
  variableNames := ["x"]

def guardedEntries (t u : BlockType) : List Entry := [
  { id := "b", type := t, fields := [("VAR", "x")], inputs := [], next := .null
    deletable := .bool false },
  { id := "a", type := t, fields := [("VAR", "x")], inputs := [("VALUE", "c")], next := .null
    deletable := .bool true },
  { id := "c", type := u, fields := [("NUM", .int 7)], inputs := [], next := .null
    deletable := .bool false }]

theorem guarded_reads (ht : Catalog.registry.find? (.text "variables_set") = some t)
    (hfields : t.fields = [("VAR", Catalog.variableField)]) (hdel : t.deletable = .bool true)
    (hu : Catalog.registry.find? (.text "math_number") = some u)
    (hufields : u.fields = [("NUM", Catalog.number 0 none none)]) :
    List.Forall₂ (fun draft e => readRecord Catalog.registry ["x"] draft = .ok e)
      (guardedRecords.map Draft.ofValue?) (guardedEntries t u) := by
  have hset : t.validateFields [("VAR", "x")] false = .ok [("VAR", "x")] := by
    refine BlockType.validateFields_ok.mpr ⟨by simp [Assoc.names, Assoc.has_iff, hfields], ?_⟩
    rw [hfields]
    exact .cons ⟨rfl, .inl ⟨_, rfl, rfl⟩⟩ .nil
  have hnumber : u.validateFields [("NUM", .int 7)] false = .ok [("NUM", .int 7)] := by
    refine BlockType.validateFields_ok.mpr ⟨by simp [Assoc.names, Assoc.has_iff, hufields], ?_⟩
    rw [hufields]
    exact .cons ⟨rfl, .inl ⟨_, rfl, rfl⟩⟩ .nil
  have hdeclared : ∀ field ∈ t.variableFields, ∃ name ∈ ["x"],
      Assoc.find? [("VAR", Value.text "x")] field = some (.text name) := by
    rw [BlockType.variableFields, hfields]
    exact List.forall_mem_singleton.mpr ⟨"x", List.mem_singleton_self _, rfl⟩
  have hnone : u.variableFields = [] := by
    rw [BlockType.variableFields, hufields]
    rfl
  refine .cons (readRecord_ok.mpr ⟨_, rfl, ?_⟩) (.cons (readRecord_ok.mpr ⟨_, rfl, ?_⟩)
    (.cons (readRecord_ok.mpr ⟨_, rfl, ?_⟩) .nil))
  · exact ⟨rfl, by simp, ⟨_, rfl, ht⟩, ⟨_, rfl, hset, hdeclared⟩, rfl, rfl,
      .inr ⟨false, rfl, by rintro ⟨⟩, rfl⟩⟩
  · exact ⟨rfl, by simp, ⟨_, rfl, ht⟩, ⟨_, rfl, hset, hdeclared⟩, rfl, rfl, .inl ⟨rfl, hdel.symm⟩⟩
  · exact ⟨rfl, by simp, ⟨_, rfl, hu⟩, ⟨_, rfl, hnumber, by simp [hnone]⟩, rfl, rfl,
      .inr ⟨false, rfl, by rintro ⟨⟩, rfl⟩⟩

theorem guarded_forest {t u : BlockType} (hid : t.typeId = .text "variables_set")
    (hsockets : t.sockets = [.value { name := "VALUE" }]) (huid : u.typeId = .text "math_number")
    (hshape : u.isStatement = false) : Forest (guardedEntries t u) ["a", "b"] := by
  have hlinks : (guardedEntries t u).flatMap Entry.links = ["c"] := rfl
  have hchild : ∀ x y, Child (guardedEntries t u) x y → x = "a" ∧ y = "c" := by
    rintro x y ⟨e, he, rfl, hy⟩
    simp only [guardedEntries, List.mem_cons, List.not_mem_nil, or_false] at he
    rcases he with rfl | rfl | rfl
    · cases hy
    · exact ⟨rfl, List.mem_singleton.mp hy⟩
    · cases hy
  have hother : ∀ e ∈ guardedEntries t u, ¬e.IsEntryPoint := by
    simp [guardedEntries, Entry.IsEntryPoint, hid, huid, entryType]
  refine ⟨by simp [guardedEntries], fun e he => ?_, by simp [hlinks], fun x hcycle => ?_, by simp,
    fun x => ?_, ⟨fun e he _ _ ht => (hother e he ht).elim, fun e he ht => (hother e he ht).elim⟩⟩
  · simp only [guardedEntries, List.mem_cons, List.not_mem_nil, or_false] at he
    rcases he with rfl | rfl | rfl
    · exact ⟨by simp, .inl rfl⟩
    · refine ⟨List.forall_mem_singleton.mpr ⟨.value { name := "VALUE" }, ?_, .inr ?_⟩, .inl rfl⟩
      · rw [BlockType.socket?, hsockets]
        rfl
      · exact ⟨_, List.mem_of_getElem? (i := 2) rfl, rfl, hshape, rfl⟩
    · exact ⟨by simp, .inl rfl⟩
  · obtain ⟨_, hfirst, -⟩ := TransGen.head'_iff.mp hcycle
    obtain ⟨_, -, hlast⟩ := TransGen.tail'_iff.mp hcycle
    have hne := (hchild _ _ hfirst).1.symm.trans (hchild _ _ hlast).2
    simp at hne
  · rw [hlinks]
    simp only [guardedEntries, List.map_cons, List.map_nil, List.mem_cons, List.not_mem_nil, or_false]
    grind

theorem read_guarded : read Catalog.registry guardedDocument = .ok guardedWorkspace := by
  have hset : ∃ t, Catalog.registry.find? (.text "variables_set") = some t ∧
      t.typeId = "variables_set" ∧ t.fields = [("VAR", Catalog.variableField)] ∧
      t.sockets = [.value { name := "VALUE" }] ∧ t.deletable = .bool true := by
    rw [Catalog.registry_find?]
    exact ⟨_, rfl, rfl, rfl, rfl, rfl⟩
  have hnumber : ∃ t, Catalog.registry.find? (.text "math_number") = some t ∧
      t.typeId = "math_number" ∧ t.fields = [("NUM", Catalog.number 0 none none)] ∧
      t.isStatement = false := by
    rw [Catalog.registry_find?]
    exact ⟨_, rfl, rfl, rfl, rfl⟩
  obtain ⟨t, ht, hid, hfields, hsockets, hdel⟩ := hset
  obtain ⟨u, hu, huid, hufields, hshape⟩ := hnumber
  refine read_ok.mpr ⟨["x"], guardedRecords, ["a", "b"],
    ⟨⟨_, rfl⟩, rfl, by decide, .inr rfl, by simp, by simp, rfl, rfl⟩, assemble_ok.mpr ?_⟩
  refine ⟨guardedEntries t u, ["a", "b"], guarded_reads ht hfields hdel hu hufields, rfl,
    guarded_forest hid hsockets huid hshape, ?_⟩
  have hbuild : build (guardedEntries t u) ["a", "b"] ["x"] =
      { guardedWorkspace with
        blocks := #[
          { type := t.typeId, id := "b", fields := [("VAR", "x")], deletable := .bool false },
          { type := t.typeId, id := "a", fields := [("VAR", "x")], inputs := [("VALUE", some 2)] },
          { type := u.typeId, id := "c", fields := [("NUM", .int 7)], deletable := .bool false }] } :=
    rfl
  rw [hbuild, hid, huid]
  rfl

theorem guardedDocument_wellKeyed : guardedDocument.WellKeyed := by
  have hset : Value.WellKeyed (.object [("VAR", "x")]) :=
    .object (by decide) (List.forall_mem_singleton.mpr (.scalar rfl))
  have hinputs : Value.WellKeyed (.object [("VALUE", "c")]) :=
    .object (by decide) (List.forall_mem_singleton.mpr (.scalar rfl))
  have hnumber : Value.WellKeyed (.object [("NUM", .int 7)]) :=
    .object (by decide) (List.forall_mem_singleton.mpr (.scalar rfl))
  have hrecords : ∀ record ∈ guardedRecords, record.WellKeyed := by
    simp only [guardedRecords, List.forall_mem_cons, List.not_mem_nil, false_implies, implies_true,
      and_true]
    refine ⟨.object (by decide) ?_, .object (by decide) ?_, .object (by decide) ?_⟩ <;>
      simp only [List.forall_mem_cons, List.not_mem_nil, false_implies, implies_true, and_true]
    · exact ⟨.scalar rfl, .scalar rfl, hset, .scalar rfl⟩
    · exact ⟨.scalar rfl, .scalar rfl, hset, hinputs⟩
    · exact ⟨.scalar rfl, .scalar rfl, hnumber, .scalar rfl⟩
  refine .object (by decide) ?_
  simp only [List.forall_mem_cons, List.not_mem_nil, false_implies, implies_true, and_true]
  exact ⟨.scalar rfl, .scalar rfl, .list (List.forall_mem_singleton.mpr (.scalar rfl)),
    .list hrecords, .list (by simp only [List.forall_mem_cons, List.not_mem_nil, false_implies,
      implies_true, and_true]; exact ⟨.scalar rfl, .scalar rfl⟩)⟩

theorem guardedDocument_restated : Catalog.registry.Declared ∧ guardedDocument.WellKeyed ∧
    read Catalog.registry guardedDocument = .ok guardedWorkspace ∧
    (∃ w', read Catalog.registry guardedWorkspace.serialize = .ok w' ∧
      reread Catalog.registry (ofWorkspace guardedWorkspace) = .ok w' ∧
      SameProgram guardedWorkspace w') ∧
    ∃ names records records' roots, HasParts guardedDocument names records roots ∧
      HasParts guardedWorkspace.serialize names records' roots ∧
      Restates Catalog.registry roots records records' :=
  ⟨Catalog.registry_declared, guardedDocument_wellKeyed, read_guarded,
    serialize_restates _ Catalog.registry_declared _ guardedDocument_wellKeyed _ read_guarded⟩

end BlockSketch.Document
