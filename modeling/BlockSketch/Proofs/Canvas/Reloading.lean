import BlockSketch.Proofs.Canvas.Protection

/-!
# Saving a canvas and loading it again

Whatever was done to a canvas, its workspace is read back as the same program, with one exception: a
block that was given an empty id. Its record counts as one without an id, and for it the whole document
is refused.
-/

namespace BlockSketch

namespace Workspace

variable {w w' : Workspace} {registry : Registry} {given : Value}

-- ---------------------------------------------------------------------------
-- What a reader asks for
-- ---------------------------------------------------------------------------

/-- What a reader asks of blocks and variables beyond the invariant: a flag that the type of its block
admits, and a name. -/
structure Filed (registry : Registry) (w : Workspace) : Prop where
  flag : r < w.blocks.size → TypeIs registry w r t →
    ∃ b, (w.block r).deletable = .bool b ∧ (b = true → t.isDeletable = true)
  names : .text "" ∉ w.variableNames

/-- No block has an empty id, also of those that were deleted. -/
def AllNamed (w : Workspace) : Prop :=
  ∀ r < w.blocks.size, (w.block r).id ≠ .text ""

theorem Carries.filed (h : Carries registry given w w') (hregular : registry.Regular)
    (hdeclared : registry.Declared) (hfiled : Filed registry w) : Filed registry w' where
  flag {r t} hr ht := by
    by_cases hlt : r < w.blocks.size
    · rw [TypeIs, h.type hlt] at ht
      rw [h.deletable hlt]
      exact hfiled.flag hlt ht
    · obtain ⟨⟨u, hu, hflag⟩, -⟩ := h.new (Nat.le_of_not_lt hlt) hr
      obtain rfl := ht.unique hu
      obtain ⟨-, s, hs⟩ := hregular.typeId ht
      rw [TypeIs, hs] at ht
      rw [hflag]
      exact (hdeclared s t ht).2.flag
  names hv := hfiled.names (h.names hv)

theorem Carries.allNamed (h : Carries registry given w w') (hgiven : given ≠ .text "")
    (hnamed : AllNamed w) : AllNamed w' := by
  intro r hr hid
  by_cases hlt : r < w.blocks.size
  · exact hnamed r hlt ((h.id hlt).symm.trans hid)
  · exact hgiven ((h.new (Nat.le_of_not_lt hlt) hr).named hid)

theorem fresh_filed (registry : Registry) (id : String) : Filed registry (fresh id) where
  flag {r t} hr _ := by
    obtain rfl : r = 0 := Nat.lt_one_iff.mp hr
    exact ⟨false, rfl, nofun⟩
  names := List.not_mem_nil

theorem fresh_allNamed {id : String} (hid : id ≠ "") : AllNamed (fresh id) := by
  intro r hr heq
  obtain rfl : r = 0 := Nat.lt_one_iff.mp hr
  exact hid (Value.text.inj heq)

/-- What an operation does to the blocks: all stay what they are, beside new ones, or all are
replaced by others that can be saved. -/
def Refiles (registry : Registry) (given : Value) (w w' : Workspace) : Prop :=
  Carries registry given w w' ∨ Filed registry w' ∧ AllNamed w'

theorem Refiles.of_eq (h : w' = w) : Refiles registry given w w' := by
  rw [h]
  exact .inl (SameContent.refl w).carries

end Workspace

namespace Document

open Workspace (AllNamed Filed HasId Invariant SameProgram TypeIs)

variable {registry : Registry} {w : Workspace} {entries : List Entry} {names : List String}

section

variable (hdeclared : registry.Declared)
include hdeclared

theorem assemble_filed {drafts : List (Option Draft)} (hnamed : "" ∉ names)
    (h : assemble registry names drafts roots = .ok w) : Filed registry w ∧ AllNamed w := by
  obtain ⟨entries, ids, hread, -, -, rfl⟩ := assemble_ok.mp h
  have hstable : ∀ e ∈ entries, e.Stable registry names := by
    intro e he
    obtain ⟨draft, -, hread⟩ := exists_mem_left hread he
    obtain ⟨d, -, hreads⟩ := readRecord_ok.mp hread
    exact hreads.stable hdeclared
  refine ⟨⟨fun {r t} hr ht => ?_, fun hv => ?_⟩, fun r hr hid => ?_⟩
  · obtain ⟨e, hmem, he⟩ := exists_entry_at hr
    obtain ⟨type, heq, hfind⟩ := (hstable e hmem).type
    rw [TypeIs, (build_content he).1, heq, hfind] at ht
    obtain rfl := Option.some.inj ht
    rw [(build_content he).2.2.2]
    exact (hstable e hmem).deletable
  · obtain ⟨name, hname, heq⟩ := List.mem_map.mp hv
    exact hnamed (Value.text.inj heq ▸ hname)
  · obtain ⟨e, hmem, he⟩ := exists_entry_at hr
    exact (hstable e hmem).named (Value.text.inj ((build_content he).2.1.symm.trans hid))

theorem read_filed (h : read registry document = .ok w) : Filed registry w ∧ AllNamed w := by
  obtain ⟨names, records, roots, hparts, hassemble⟩ := read_ok.mp h
  exact assemble_filed hdeclared hparts.named hassemble

theorem reread_filed (h : reread registry document = .ok w) : Filed registry w ∧ AllNamed w := by
  simp only [reread, bind_ok, readVariables_ok] at h
  obtain ⟨names, ⟨-, -, hnamed⟩, hassemble⟩ := h
  exact assemble_filed hdeclared hnamed hassemble

end

/-- A workspace is read back as the same program, from its document and from itself. -/
def Survives (registry : Registry) (w : Workspace) : Prop :=
  ∃ w', read registry w.serialize = .ok w' ∧ reread registry (ofWorkspace w) = .ok w' ∧
    SameProgram w w'

structure IsRefused (registry : Registry) (w : Workspace) (reason : MalformedReason) : Prop where
  read : read registry w.serialize = .error { reason }
  reread : reread registry (ofWorkspace w) = .error { reason }

theorem readRecord_unnamed (hid : d.id = .text "") :
    readRecord registry names (some d) = .error { reason := .noId } := by
  have hread : readId d.id = .error { reason := .noId } := by
    rw [hid]
    rfl
  simp only [readRecord, orElse, Option.elim_some, bind, Except.bind, hread]

-- ---------------------------------------------------------------------------
-- The entries of a sound workspace
-- ---------------------------------------------------------------------------

theorem StandsFor.typeIs (h : StandsFor w r e) (hstable : e.Stable registry names) :
    TypeIs registry w r e.type := by
  obtain ⟨type, heq, hfind⟩ := hstable.type
  rw [TypeIs, h.type, heq]
  exact hfind

theorem StandsFor.unique (h : StandsFor w r e) (h' : StandsFor w r e') (htype : e.type = e'.type) :
    e = e' := by
  have hid := Value.text.inj (h.id.symm.trans h'.id)
  have hfields := h.fields.symm.trans h'.fields
  have hinputs := h.inputs.symm.trans h'.inputs
  have hnext := h.next.symm.trans h'.next
  have hdeletable := h.deletable.symm.trans h'.deletable
  cases e
  cases e'
  simp_all

section

variable (h : Invariant registry w) (hregular : registry.Regular)
include h hregular

theorem exists_entry (hfiled : Filed registry w) (hdeclares : w.variableNames = names.map .text)
    (hr : w.Live r) (hnamed : (w.block r).id ≠ .text "") :
    ∃ e, StandsFor w r e ∧ e.Stable registry names := by
  have hlt := h.forest.live_lt hr
  obtain ⟨t, ht⟩ := h.linked.known hlt
  obtain ⟨htype, type, heq⟩ := hregular.typeId ht
  obtain ⟨id, hid⟩ := h.ids hr
  refine ⟨⟨id, t, (w.block r).fields, _, _, (w.block r).deletable⟩,
    ⟨hid, htype.symm, rfl, rfl, rfl, rfl⟩, ?_, ⟨type, htype.trans heq, ?_⟩,
    (h.stored hlt ht).validateFields (hregular.fieldNames ht) false, fun field hfield => ?_,
    hfiled.flag hlt ht⟩
  · rintro rfl
    exact hnamed hid
  · rw [← heq]
    exact ht
  · obtain ⟨v, hv, hfind⟩ := h.declared hr ht field hfield
    rw [hdeclares] at hv
    obtain ⟨name, hname, rfl⟩ := List.mem_map.mp hv
    exact ⟨name, hname, hfind⟩

section

variable (hstands : List.Forall₂ (fun r e => StandsFor w r e ∧ e.Stable registry names)
  w.allBlocks entries)
include hstands

omit hregular in
theorem stands_linked (he : e ∈ entries) : e.Linked entries := by
  obtain ⟨r, hr, hstand, hstable⟩ := exists_mem_left hstands he
  have hlive := h.forest.mem_allBlocks.mp hr
  obtain ⟨t, hsound⟩ := h.blockSound hlive
  obtain rfl := (hstand.typeIs hstable).unique hsound.type
  have hleads : ∀ {suits : BlockType → Prop} (link : Option Ref), (∀ c, link = some c →
      w.Link r c ∧ ∃ u, registry.find? (w.block c).type = some u ∧ suits u) →
      Leads entries suits (linkId w link) := by
    intro suits link hlink
    cases link with
    | none => exact .inl rfl
    | some c =>
      obtain ⟨hc, u, hu, hsuits⟩ := hlink c rfl
      obtain ⟨f, hf, hstand', hstable'⟩ :=
        exists_mem_right hstands (h.forest.mem_allBlocks.mpr (hlive.child hc))
      obtain rfl := (hstand'.typeIs hstable').unique hu
      exact .inr ⟨f, hf, hstand'.id, hsuits⟩
  constructor
  · intro input hinput
    rw [← hstand.inputs] at hinput
    obtain ⟨⟨k, x⟩, hmem, rfl⟩ := List.mem_map.mp hinput
    obtain ⟨socket, hsocket, hfits⟩ := hsound.inputs hmem
    refine ⟨socket, hsocket, hleads x fun c hc => ⟨⟨.input r k, rfl, ?_⟩, hfits c hc⟩⟩
    rw [Workspace.Holds, ← hc]
    exact hmem
  · rw [← hstand.next]
    refine hleads _ fun c hc => ⟨⟨.next r, rfl, hc⟩, ?_⟩
    obtain ⟨hlink, u, hu, hlink'⟩ := hsound.next hc
    exact ⟨u, hu, hlink, hlink'⟩

theorem stands_soleEntry : SoleEntry entries (entries.flatMap Entry.links) := by
  have hroot : ∀ {r e}, w.Live r → StandsFor w r e → e.IsEntryPoint → w.Holds .root r :=
    fun hr hstand ht => h.entry_root hregular hr (hstand.type.trans ht)
  refine ⟨fun e he e' he' ht ht' => ?_, fun e he ht hlink => ?_⟩
  · obtain ⟨r, hr, hstand, hstable⟩ := exists_mem_left hstands he
    obtain ⟨r', hr', hstand', hstable'⟩ := exists_mem_left hstands he'
    have hr := hroot (h.forest.mem_allBlocks.mp hr) hstand ht
    have hr' := hroot (h.forest.mem_allBlocks.mp hr') hstand' ht'
    obtain rfl := h.entryOnce hr hr' (hstand.type.trans ht) (hstand'.type.trans ht')
    exact hstand.unique hstand' ((hstand.typeIs hstable).unique (hstand'.typeIs hstable'))
  · obtain ⟨r, hr, hstand, -⟩ := exists_mem_left hstands he
    have hr := h.forest.mem_allBlocks.mp hr
    obtain ⟨a, hchild⟩ := mem_links.mp hlink
    obtain ⟨p, c, hp, hlink, -, hc⟩ := stands_child h.forest (hstands.imp fun _ _ => And.left)
      (fun _ => h.ids) hchild
    -- The entry point would be a root and stand below another block.
    obtain rfl := h.distinct hr (hp.child hlink) (hstand.id.trans hc.symm)
    obtain ⟨s, hs, hheld⟩ := hlink
    rw [h.forest.slots.unique hheld (hroot hr hstand ht)] at hs
    cases hs

end

variable (hfiled : Filed registry w)
include hfiled

omit hregular in
theorem exists_names :
    ∃ names : List String, w.variableNames = names.map .text ∧ names.Nodup ∧ "" ∉ names := by
  obtain ⟨names, hdeclares⟩ := exists_texts h.names
  refine ⟨names, hdeclares, .of_map Value.text ?_, fun hempty => hfiled.names ?_⟩
  · rw [← hdeclares]
    exact h.namesOnce
  · rw [hdeclares]
    exact List.mem_map_of_mem hempty

/-- A sound workspace whose blocks all have names is read back as the same program. -/
theorem survives_of_named (hnamed : ¬w.HasId (.text "")) : Survives registry w := by
  obtain ⟨names, hdeclares, hdistinct, hempty⟩ := exists_names h hfiled
  obtain ⟨entries, hstands⟩ := exists_forall₂.mpr fun r hr =>
    exists_entry h hregular hfiled hdeclares (h.forest.mem_allBlocks.mp hr) fun hid =>
      hnamed ⟨r, h.forest.mem_allBlocks.mp hr, hid⟩
  have hroots : ∀ v ∈ w.roots.map fun r => (w.block r).id, ∃ s, v = .text s := by
    rintro _ hv
    obtain ⟨r, hr, rfl⟩ := List.mem_map.mp hv
    exact h.ids (.root hr)
  obtain ⟨ids, hids⟩ := exists_texts hroots
  have hforest := stands_forest h.forest (hstands.imp fun _ _ => And.left) (fun _ => h.ids)
    (fun _ _ => h.distinct) hids (fun _ => stands_linked h hstands)
    (stands_soleEntry h hregular hstands)
  have hsaves : Saves registry w entries ids names :=
    ⟨h.forest, hstands, hforest, hids, hdeclares, hdistinct, hempty⟩
  exact ⟨_, hsaves.read, hsaves.reread, _, hsaves.renames⟩

/-- The record of a block without a name is the only one that is refused, and it is refused first. -/
theorem assemble_unnamed (hdeclares : w.variableNames = names.map .text) (hr : w.Live r)
    (hid : (w.block r).id = .text "") : assemble registry names
      (w.allBlocks.map fun r => some (.ofRecord (recordOf w r))) roots =
        .error { reason := .noId } := by
  obtain ⟨before, after, hsplit⟩ := List.append_of_mem (h.forest.mem_allBlocks.mpr hr)
  have honce := h.forest.allBlocks_nodup
  rw [hsplit, List.nodup_append] at honce
  obtain ⟨hbefore, -, hapart⟩ := honce
  have hlive : ∀ q ∈ before, w.Live q := fun q hq => by
    refine h.forest.mem_allBlocks.mp ?_
    rw [hsplit]
    exact List.mem_append_left _ hq
  obtain ⟨es, hstands⟩ := exists_forall₂.mpr fun q hq =>
    exists_entry h hregular hfiled hdeclares (hlive q hq) fun hqid =>
      hapart q hq r List.mem_cons_self (h.distinct (hlive q hq) hr (hqid.trans hid.symm))
  have hread : List.Forall₂ (fun draft e => readRecord registry names draft = .ok e)
      (before.map fun q => some (.ofRecord (recordOf w q))) es :=
    List.forall₂_map_left_iff.mpr (hstands.imp fun q e ⟨hstand, hstable⟩ =>
      readRecord_ok.mpr ⟨_, rfl, hstand.reads hstable⟩)
  have hids : (([] ++ es).map Entry.id).Nodup := by
    refine .of_map Value.text ?_
    rw [List.nil_append, stands_ids (hstands.imp fun _ _ => And.left)]
    exact hbefore.map_on fun q hq q' hq' => h.distinct (hlive q hq) (hlive q' hq')
  have hbad : readRecord registry names (some (.ofRecord (recordOf w r))) =
      .error { reason := .noId } := readRecord_unnamed hid
  rw [assemble, hsplit, List.map_append, List.map_cons, readRecords_error hread hids hbad]
  rfl

theorem refused_of_unnamed (hunnamed : w.HasId (.text "")) : IsRefused registry w .noId := by
  obtain ⟨names, hdeclares, hdistinct, hempty⟩ := exists_names h hfiled
  obtain ⟨r, hr, hid⟩ := hunnamed
  constructor
  · rw [read_saved hdeclares hdistinct hempty h.forest.keys]
    exact assemble_unnamed h hregular hfiled hdeclares hr hid
  · rw [reread_saved hdeclares hdistinct hempty]
    exact assemble_unnamed h hregular hfiled hdeclares hr hid

end

end Document

-- ---------------------------------------------------------------------------
-- Operations
-- ---------------------------------------------------------------------------

namespace Canvas

open Document (IsRefused Survives)
open Workspace (AllNamed Filed HasId Refiles)

variable {c : Canvas}

theorem Good.declared (h : Good c) : c.registry.Declared :=
  h.registry ▸ Catalog.registry_declared

theorem Good.reads_filed {op : Operation} (h : Good c) (hread : op.reading? c = some (.ok w)) :
    Filed c.registry w ∧ AllNamed w := by
  cases op with
  | load document => exact Document.read_filed h.declared (Option.some.inj hread)
  | reload => exact Document.reread_filed h.declared (Option.some.inj hread)
  | loadText text =>
    obtain ⟨_, _, -, -, hw⟩ := Document.readText_ok (Option.some.inj hread)
    exact Document.read_filed h.declared hw
  | _ => cases hread

theorem Good.refiles (h : Good c) (op : Operation) :
    Refiles c.registry op.givenId c.workspace (c.apply op).canvas.workspace := by
  by_cases hedit : op.IsEdit
  · exact .inl (h.loses hedit).carries
  obtain ⟨supply, hreworks⟩ := c.apply_reworks op
  generalize (c.apply op).canvas.workspace = w at hreworks ⊢
  cases hreworks with
  | kept => exact .of_eq rfl
  | cleared =>
    exact .inr ⟨Workspace.fresh_filed _ _, Workspace.fresh_allNamed c.supply.drawId_ne_empty⟩
  | loaded hread => exact .inr (h.reads_filed hread)
  | _ => exact (hedit trivial).elim

-- ---------------------------------------------------------------------------
-- Runs
-- ---------------------------------------------------------------------------

theorem Good.run_keeps {P : Canvas → Prop} (h : Good c) (hP : P c) (hproper : c.ProperRun ops)
    (hstep : ∀ c, ∀ op ∈ ops, Good c → P c → P (c.apply op).canvas) : P (c.run ops).1 := by
  induction ops generalizing c with
  | nil => exact hP
  | cons op ops ih =>
    obtain ⟨hfirst, hrest⟩ := hproper
    refine ih (h.apply hfirst) (hstep c op List.mem_cons_self h hP) hrest fun c op hop => ?_
    exact hstep c op (List.mem_cons_of_mem _ hop)

theorem Good.run_filed (h : Good c) (hfiled : Filed Catalog.registry c.workspace)
    (hproper : c.ProperRun ops) : Filed Catalog.registry (c.run ops).1.workspace := by
  refine h.run_keeps (P := fun c => Filed Catalog.registry c.workspace) hfiled hproper
    fun c op _ h hfiled => ?_
  rcases h.refiles op with hcarries | ⟨hfiled', -⟩
  · rw [← h.registry] at hfiled ⊢
    exact hcarries.filed h.regular h.declared hfiled
  · rw [← h.registry]
    exact hfiled'

theorem Good.run_allNamed (h : Good c) (hnamed : AllNamed c.workspace) (hproper : c.ProperRun ops)
    (hgiven : ∀ op ∈ ops, op.givenId ≠ .text "") : AllNamed (c.run ops).1.workspace := by
  refine h.run_keeps (P := fun c => AllNamed c.workspace) hnamed hproper fun c op hop h hnamed => ?_
  rcases h.refiles op with hcarries | ⟨-, hnamed'⟩
  · exact hcarries.allNamed (hgiven op hop) hnamed
  · exact hnamed'

theorem start_filed (h : start settings limit = .ok c) :
    Filed Catalog.registry c.workspace ∧ AllNamed c.workspace := by
  rw [(new_of_start h).workspace]
  exact ⟨Workspace.fresh_filed _ _, Workspace.fresh_allNamed (Supply.drawId_ne_empty {})⟩

/-- After every run the workspace is read back as the same program, unless a block has an empty id:
then it is refused. Only the creation of a block with that id brings one. -/
theorem survives_unless_unnamed (settings : Settings) (c : Canvas) (ops : List Operation)
    (hstart : start settings limit = .ok c) (hproper : c.ProperRun ops) :
    (¬(c.run ops).1.workspace.HasId (.text "") →
      Survives Catalog.registry (c.run ops).1.workspace) ∧
    ((c.run ops).1.workspace.HasId (.text "") →
      IsRefused Catalog.registry (c.run ops).1.workspace .noId ∧
        ∃ request, .createBlock request ∈ ops ∧ request.id = .text "") := by
  have hstarted := good_start hstart
  have hgood := hstarted.run hproper
  obtain ⟨hfiled, hnamed⟩ := start_filed hstart
  have hinv := hgood.inv
  have hregular := hgood.regular
  rw [hgood.registry] at hinv hregular
  have hfiled := hstarted.run_filed hfiled hproper
  refine ⟨Document.survives_of_named hinv hregular hfiled, fun hid =>
    ⟨Document.refused_of_unnamed hinv hregular hfiled hid, ?_⟩⟩
  by_contra! hgiven
  obtain ⟨r, hr, hid⟩ := hid
  refine hstarted.run_allNamed hnamed hproper (fun op hop => ?_) r (hinv.forest.live_lt hr) hid
  cases op with
  | createBlock request => exact hgiven request hop
  | _ => exact nofun

theorem survives_editsAndLoad : ∃ c, start {} = .ok c ∧ c.ProperRun editsAndLoad ∧
    Survives Catalog.registry (c.run editsAndLoad).1.workspace := by
  obtain ⟨c, hstart⟩ := exists_start
  obtain ⟨hsurvives, hunnamed⟩ :=
    survives_unless_unnamed {} c editsAndLoad hstart (editsAndLoad_proper c)
  refine ⟨c, hstart, editsAndLoad_proper c, hsurvives fun hid => ?_⟩
  obtain ⟨-, request, hmem, hempty⟩ := hunnamed hid
  simp only [editsAndLoad, List.mem_cons, Operation.createBlock.injEq, reduceCtorEq, List.not_mem_nil,
    or_false, false_or] at hmem
  rcases hmem with rfl | rfl <;> simp at hempty

def unnamedBlock : List Operation := [.createBlock { type := "logic_boolean", id := "" }]

def unnamedWorkspace : Workspace where
  blocks := #[Workspace.entryBlock "uuid-1",
    { type := "logic_boolean", id := "", fields := [("BOOL", .text "TRUE")] }]
  roots := [0, 1]

theorem unnamed_place (supply : Supply) : (Workspace.fresh "uuid-1").place Catalog.registry [] supply
    { type := "logic_boolean", id := "" } =
      (.ok ⟨"", "logic_boolean", [], unnamedWorkspace⟩, supply.drawId.2) := by
  have htype : ∃ t, Gate.placeableType Catalog.registry [] "logic_boolean" = .ok t ∧
      t.typeId = "logic_boolean" ∧
      t.fields = [("BOOL", Catalog.labelled [("true", "TRUE"), ("false", "FALSE")])] ∧
      t.sockets = [] ∧ t.deletable = .bool true := by
    rw [Catalog.registry_eq]
    exact ⟨_, rfl, rfl, rfl, rfl, rfl⟩
  obtain ⟨t, ht, hid, hfields, hsockets, hdeletable⟩ := htype
  have hfree : (Workspace.fresh "uuid-1").findBlock? "" = none :=
    Workspace.search_eq_findSome? _ _ _
  have hfilled : t.validateFields [] true = .ok [("BOOL", "TRUE")] := by
    refine BlockType.validateFields_ok.mpr ⟨by simp [Assoc.names], ?_⟩
    rw [hfields]
    exact .cons ⟨rfl, .inr ⟨rfl, rfl, rfl⟩⟩ .nil
  have hnone : t.variableFields = [] := by
    rw [BlockType.variableFields, hfields]
    rfl
  have hvalues : t.valueSockets = [] := by
    rw [BlockType.valueSockets, hsockets]
    rfl
  have hplan : (Workspace.fresh "uuid-1").plan Catalog.registry []
      { type := "logic_boolean", id := "" } = .ok ⟨t, [("BOOL", "TRUE")], []⟩ := by
    simp only [Workspace.plan, ht, bind, Except.bind, hfree, Option.isSome_none, Bool.and_false,
      BlockType.validateInput, Value.isEmpty, if_true, hfilled, hnone]
    rw [hid]
    rfl
  simp only [Workspace.place, hplan, Workspace.buildBlock, hsockets, hvalues]
  rw [hid, hdeletable]
  rfl

theorem unnamed_created (h : start settings limit = .ok c) :
    (c.run unnamedBlock).1.workspace = unnamedWorkspace := by
  simp only [start, bind_ok, Except.ok.injEq] at h
  obtain ⟨indent, -, rfl⟩ := h
  have hplace := unnamed_place (Supply.drawId {}).2
  simp only [unnamedBlock, run, apply, createBlock]
  split <;> rename_i heq
  · cases hplace.symm.trans heq
  · cases hplace.symm.trans heq
    rfl

/-- The truth value is placed without a name, and the program with it cannot be loaded again. -/
theorem unnamed_block_refused : ∃ c, start {} = .ok c ∧ c.ProperRun unnamedBlock ∧
    IsRefused Catalog.registry (c.run unnamedBlock).1.workspace .noId ∧
    ¬Survives Catalog.registry (c.run unnamedBlock).1.workspace := by
  obtain ⟨c, hstart⟩ := exists_start
  have hproper : c.ProperRun unnamedBlock :=
    ⟨.inr ⟨"", rfl, Supply.past_of_head _ (by decide)⟩, trivial⟩
  have hgood := (good_start hstart).run hproper
  have hfiled := (good_start hstart).run_filed (start_filed hstart).1 hproper
  have hid : (c.run unnamedBlock).1.workspace.HasId (.text "") := by
    rw [unnamed_created hstart]
    exact ⟨1, .root (List.mem_cons_of_mem _ List.mem_cons_self), rfl⟩
  have hrefused := Document.refused_of_unnamed (hgood.registry ▸ hgood.inv)
    (hgood.registry ▸ hgood.regular) hfiled hid
  refine ⟨c, hstart, hproper, hrefused, ?_⟩
  rintro ⟨w, hread, -⟩
  cases hread.symm.trans hrefused.read

end Canvas

end BlockSketch
