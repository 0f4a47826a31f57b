import BlockSketch.Proofs.Document.Acceptance
import BlockSketch.Proofs.Json
import BlockSketch.Proofs.Workspace.Placing

/-!
# Workspaces from documents

The workspace that is built from entries has a block for each of them, at its place among the
entries. Links by id become links by place, so that a forest of entries becomes a forest of blocks.
-/

namespace BlockSketch.Document

open Ancestry Relation
open Workspace (slotAt Invariant TypeIs SlotFits)
open Value (WellKeyed)

variable {registry : Registry} {entries : List Entry}

-- ---------------------------------------------------------------------------
-- Places of entries
-- ---------------------------------------------------------------------------

section

variable (hn : (entries.map Entry.id).Nodup)
include hn

theorem place_unique {p q : Nat} {e f : Entry} (he : entries[p]? = some e) (hf : entries[q]? = some f)
    (h : e.id = f.id) : p = q := by
  have hp : (entries.map Entry.id)[p]? = some e.id := by simp [he]
  have hq : (entries.map Entry.id)[q]? = some e.id := by simp [hf, h]
  exact (List.getElem?_inj (List.getElem?_eq_some_iff.mp hp).1 hn).mp (hp.trans hq.symm)

theorem refOf_ok : refOf entries v = some c ↔ ∃ e, entries[c]? = some e ∧ v = .text e.id := by
  simp only [refOf, Option.bind_eq_some_iff, Value.text?_eq_some, List.findIdx?_eq_some_iff_getElem,
    beq_iff_eq]
  constructor
  · rintro ⟨x, rfl, hlt, rfl, -⟩
    exact ⟨_, List.getElem?_eq_getElem hlt, rfl⟩
  · rintro ⟨e, he, rfl⟩
    obtain ⟨hlt, heq⟩ := List.getElem?_eq_some_iff.mp he
    refine ⟨e.id, rfl, hlt, by rw [heq], fun j hj hid => ?_⟩
    have hjlt : j < entries.length := Nat.lt_trans hj hlt
    exact Nat.ne_of_lt hj (place_unique hn (List.getElem?_eq_getElem hjlt) he hid)

end

theorem block_build (he : entries[r]? = some e) :
    (build entries ids names).block r = e.toBlock entries := by
  simp [Workspace.block, build, he]

theorem build_size : (build entries ids names).blocks.size = entries.length := by
  simp [build]

theorem exists_entry_at (hr : r < (build entries ids names).blocks.size) :
    ∃ e ∈ entries, entries[r]? = some e := by
  rw [build_size] at hr
  exact ⟨_, List.getElem_mem hr, List.getElem?_eq_getElem hr⟩

def Entry.HasLink (e : Entry) : Option Value → Value → Prop
  | none, v => e.next = v
  | some k, v => (k, v) ∈ e.inputs

theorem Entry.HasLink.mem_links {e : Entry} (h : e.HasLink place (.text x)) : x ∈ e.links := by
  rw [links_eq, List.mem_append]
  cases place with
  | none =>
    rw [HasLink] at h
    exact .inr (by simp [h, Value.text?])
  | some k => exact .inl (List.mem_filterMap.mpr ⟨_, h, rfl⟩)

theorem linksIn_unique {inputs : Table Value} (hnodup : (linksIn inputs).Nodup)
    (h : (k, .text x) ∈ inputs) (h' : (k', .text x) ∈ inputs) : k = k' := by
  have hmem : ∀ {k : Value} {inputs : Table Value}, (k, .text x) ∈ inputs → x ∈ linksIn inputs :=
    fun h => List.mem_filterMap.mpr ⟨_, h, rfl⟩
  induction inputs with
  | nil => simp at h
  | cons input inputs ih =>
    rcases List.mem_cons.mp h with rfl | hrest
    · rw [linksIn_text, List.nodup_cons] at hnodup
      rcases List.mem_cons.mp h' with heq | hrest'
      · exact (Prod.mk.inj heq).1.symm
      · exact (hnodup.1 (hmem hrest')).elim
    · rcases List.mem_cons.mp h' with rfl | hrest'
      · rw [linksIn_text, List.nodup_cons] at hnodup
        exact (hnodup.1 (hmem hrest)).elim
      · refine ih ?_ hrest hrest'
        exact hnodup.sublist ((List.sublist_cons_self input inputs).filterMap _)

theorem Entry.HasLink.unique {e : Entry} (hnodup : e.links.Nodup) (h : e.HasLink place (.text x))
    (h' : e.HasLink place' (.text x)) : place = place' := by
  rw [links_eq, List.nodup_append] at hnodup
  obtain ⟨hinputs, -, hdisjoint⟩ := hnodup
  have hboth : ∀ k, (k, .text x) ∈ e.inputs → e.next ≠ .text x := by
    intro k hk hnext
    refine hdisjoint x (List.mem_filterMap.mpr ⟨_, hk, rfl⟩) x ?_ rfl
    simp [hnext, Value.text?]
  cases place with
  | none =>
    cases place' with
    | none => rfl
    | some k' => exact (hboth k' h' h).elim
  | some k =>
    cases place' with
    | none => exact (hboth k h h').elim
    | some k' => rw [linksIn_unique hinputs h h']

-- ---------------------------------------------------------------------------
-- What slots hold
-- ---------------------------------------------------------------------------

section

variable (hn : (entries.map Entry.id).Nodup)
include hn

theorem holds_build : (build entries ids names).Holds (slotAt p place) c ↔
    ∃ e f, entries[p]? = some e ∧ entries[c]? = some f ∧ e.HasLink place (.text f.id) := by
  cases he : entries[p]? with
  | none =>
    have hout : ¬p < entries.length := by simpa using he
    simp only [reduceCtorEq, false_and, exists_false, iff_false]
    intro hc
    exact hout (build_size ▸ Workspace.parent_lt hc)
  | some e =>
    simp only [Option.some.injEq, exists_and_left, exists_eq_left']
    cases place with
    | none =>
      simp only [slotAt, Workspace.Holds, block_build he, Entry.toBlock, Entry.HasLink, refOf_ok hn]
    | some k =>
      simp only [slotAt, Workspace.Holds, block_build he, Entry.toBlock, Entry.HasLink, List.mem_map,
        Prod.mk.injEq, Prod.exists, refOf_ok hn]
      constructor
      · rintro ⟨k, v, hmem, rfl, f, hf, rfl⟩
        exact ⟨f, hf, hmem⟩
      · rintro ⟨f, hf, hmem⟩
        exact ⟨k, _, hmem, rfl, f, hf, rfl⟩

theorem root_build : (build entries ids names).Holds .root c ↔
    ∃ f, entries[c]? = some f ∧ f.id ∈ ids := by
  simp only [Workspace.Holds, build, List.mem_filterMap, refOf_ok hn, Value.text.injEq]
  constructor
  · rintro ⟨x, hx, f, hf, rfl⟩
    exact ⟨f, hf, hx⟩
  · rintro ⟨f, hf, hx⟩
    exact ⟨_, hx, f, hf, rfl⟩

end

-- ---------------------------------------------------------------------------
-- The forest of blocks
-- ---------------------------------------------------------------------------

section

variable {roots names : List String} {e e' f : Entry} {p p' c : Nat}
  (hforest : Forest entries roots)
include hforest

/-- Two links to one id come from one place of one entry. -/
theorem Forest.link_unique (he : entries[p]? = some e) (he' : entries[p']? = some e')
    (h : e.HasLink place (.text x)) (h' : e'.HasLink place' (.text x)) :
    p = p' ∧ place = place' := by
  have hmem := List.mem_of_getElem? he
  have hmem' := List.mem_of_getElem? he'
  obtain ⟨heach, -⟩ := List.nodup_flatMap.mp hforest.oneParent
  have hid : e.id = e'.id := Document.oneParent hforest.oneParent _ _ _
    ⟨e, hmem, rfl, h.mem_links⟩ ⟨e', hmem', rfl, h'.mem_links⟩
  obtain rfl := eq_of_id hforest.ids hmem hmem' hid
  exact ⟨place_unique hforest.ids he he' rfl, h.unique (heach e hmem) h'⟩

theorem Forest.root_unlinked (hf : f.id ∈ roots) (he : entries[p]? = some e) :
    ¬e.HasLink place (.text f.id) := by
  intro h
  refine ((hforest.tops f.id).mp hf).2 (List.mem_flatMap.mpr ⟨e, ?_, h.mem_links⟩)
  exact List.mem_of_getElem? he

theorem Forest.build_unique (hc : (build entries roots names).Holds s c)
    (hc' : (build entries roots names).Holds s' c) : s = s' := by
  have hn := hforest.ids
  rcases Workspace.slot_cases s with rfl | ⟨p, place, rfl⟩
  · obtain ⟨f, hf, hroot⟩ := (root_build hn).mp hc
    rcases Workspace.slot_cases s' with rfl | ⟨p', place', rfl⟩
    · rfl
    · obtain ⟨e', f', he', hf', h'⟩ := (holds_build hn).mp hc'
      obtain rfl := Option.some.inj (hf.symm.trans hf')
      exact (hforest.root_unlinked hroot he' h').elim
  · obtain ⟨e, f, he, hf, h⟩ := (holds_build hn).mp hc
    rcases Workspace.slot_cases s' with rfl | ⟨p', place', rfl⟩
    · obtain ⟨f', hf', hroot⟩ := (root_build hn).mp hc'
      obtain rfl := Option.some.inj (hf.symm.trans hf')
      exact (hforest.root_unlinked hroot he h).elim
    · obtain ⟨e', f', he', hf', h'⟩ := (holds_build hn).mp hc'
      obtain rfl := Option.some.inj (hf.symm.trans hf')
      obtain ⟨rfl, rfl⟩ := hforest.link_unique he he' h h'
      rfl

theorem Forest.build_single (hkeys : ∀ e ∈ entries, Table.TextKeys e.inputs) (hs : s ≠ .root)
    (hc : (build entries roots names).Holds s c) (hc' : (build entries roots names).Holds s c') :
    c = c' := by
  have hn := hforest.ids
  rcases Workspace.slot_cases s with rfl | ⟨p, place, rfl⟩
  · exact (hs rfl).elim
  · obtain ⟨e, f, he, hf, h⟩ := (holds_build hn).mp hc
    obtain ⟨e', f', he', hf', h'⟩ := (holds_build hn).mp hc'
    obtain rfl := Option.some.inj (he.symm.trans he')
    refine place_unique hn hf hf' ?_
    cases place with
    | none => exact Value.text.inj (h.symm.trans h')
    | some k =>
      have hkeys := hkeys e (List.mem_of_getElem? he)
      obtain ⟨s, rfl⟩ := hkeys.1 k (Table.mem_keys.mpr ⟨_, h⟩)
      have hfind := (Table.find?_text hkeys).mpr h
      rw [(Table.find?_text hkeys).mpr h'] at hfind
      exact (Value.text.inj (Option.some.inj hfind)).symm

theorem Forest.link_child (h : (build entries roots names).Link p c) :
    ∃ e f, entries[p]? = some e ∧ entries[c]? = some f ∧ Child entries e.id f.id := by
  obtain ⟨s, hs, hc⟩ := h
  rcases Workspace.slot_cases s with rfl | ⟨q, place, rfl⟩
  · simp [Slot.parent?] at hs
  · rw [Workspace.slotAt_parent] at hs
    cases hs
    obtain ⟨e, f, he, hf, hlink⟩ := (holds_build hforest.ids).mp hc
    exact ⟨e, f, he, hf, e, List.mem_of_getElem? he, rfl, hlink.mem_links⟩

theorem Forest.path_child (h : TransGen (build entries roots names).Link p c) :
    ∃ e f, entries[p]? = some e ∧ entries[c]? = some f ∧ TransGen (Child entries) e.id f.id := by
  induction h with
  | single h =>
    obtain ⟨e, f, he, hf, hchild⟩ := hforest.link_child h
    exact ⟨e, f, he, hf, .single hchild⟩
  | tail _ h ih =>
    obtain ⟨e, f, he, hf, hpath⟩ := ih
    obtain ⟨f', g, hf', hg, hchild⟩ := hforest.link_child h
    obtain rfl := Option.some.inj (hf.symm.trans hf')
    exact ⟨e, g, he, hg, hpath.tail hchild⟩

theorem Forest.build_forest (hkeys : ∀ e ∈ entries, Table.TextKeys e.inputs) :
    Workspace.Forest (build entries roots names) := by
  have hn := hforest.ids
  refine ⟨fun r => ?_, fun {s c} hc => ?_, ?_, fun hc hc' => hforest.build_unique hc hc',
    fun hs hc hc' => hforest.build_single hkeys hs hc hc', fun r hcycle => ?_⟩
  · cases he : entries[r]? with
    | none =>
      have hdefault : (build entries roots names).block r = default := by
        simp [Workspace.block, build, he]
      rw [hdefault]
      exact .nil
    | some e =>
      rw [block_build he]
      have hsame : (e.toBlock entries).inputs.keys = e.inputs.keys := by
        simp [Entry.toBlock, Table.keys]
      rw [Table.TextKeys, hsame]
      exact hkeys e (List.mem_of_getElem? he)
  · rw [build_size]
    rcases Workspace.slot_cases s with rfl | ⟨p, place, rfl⟩
    · obtain ⟨f, hf, -⟩ := (root_build hn).mp hc
      exact (List.getElem?_eq_some_iff.mp hf).1
    · obtain ⟨-, f, -, hf, -⟩ := (holds_build hn).mp hc
      exact (List.getElem?_eq_some_iff.mp hf).1
  · refine hforest.nodup.filterMap fun x y c hx hy => ?_
    obtain ⟨f, hf, hx⟩ := (refOf_ok hn).mp hx
    obtain ⟨g, hg, hy⟩ := (refOf_ok hn).mp hy
    obtain rfl := Option.some.inj (hf.symm.trans hg)
    exact Value.text.inj (hx.trans hy.symm)
  · obtain ⟨e, f, he, hf, hpath⟩ := hforest.path_child hcycle
    obtain rfl := Option.some.inj (he.symm.trans hf)
    exact hforest.acyclic _ hpath

end

-- ---------------------------------------------------------------------------
-- The invariant
-- ---------------------------------------------------------------------------

theorem find?_forall₂ {P : String → Field → Value → Prop} {fields : Assoc Field}
    {values : Assoc Value}
    (h : List.Forall₂ (fun nf nv => nv.1 = nf.1 ∧ P nf.1 nf.2 nv.2) fields values)
    (hfield : fields.find? name = some field) :
    ∃ v, values.find? name = some v ∧ P name field v := by
  induction h with
  | nil => simp [Assoc.find?] at hfield
  | @cons nf nv fields values hhead _ ih =>
    obtain ⟨n, f⟩ := nf
    obtain ⟨m, v⟩ := nv
    obtain ⟨rfl, hv⟩ := hhead
    rw [Assoc.find?_cons] at hfield ⊢
    split at hfield
    · rename_i heq
      cases hfield
      exact ⟨v, by rw [if_pos heq], heq ▸ hv⟩
    · rename_i hne
      rw [if_neg hne]
      exact ih hfield

section

variable {names : List String} {e : Entry} (hregular : registry.Regular)
  (hreads : Reads registry names d e)
include hregular hreads

theorem Reads.typeIs : registry.find? e.type.typeId = some e.type := by
  obtain ⟨x, -, hfind⟩ := hreads.type
  rw [(hregular.typeId hfind).1, hfind]

theorem Reads.stored : e.type.Stored e.fields := by
  obtain ⟨given, -, hfields, -⟩ := hreads.fields
  exact BlockType.stored_of_filled (fun _ => hregular.initial (hreads.typeIs hregular))
    (BlockType.validateFields_ok.mp hfields).2

omit hregular in
theorem Reads.declared (hnodup : e.type.fields.names.Nodup)
    (hfield : field ∈ e.type.variableFields) :
    ∃ name ∈ names, e.fields.find? field = some (.text name) := by
  obtain ⟨given, -, hfields, hnames⟩ := hreads.fields
  obtain ⟨f, hf, hkind⟩ := (BlockType.mem_variableFields hnodup).mp hfield
  obtain ⟨name, hname, hgiven⟩ := hnames field hfield
  obtain ⟨v, hv, hfilled⟩ := find?_forall₂ (BlockType.validateFields_ok.mp hfields).2 hf
  refine ⟨name, hname, hv.trans ?_⟩
  rcases hfilled with ⟨v', hv', hvalidate⟩ | ⟨hnone, -⟩
  · obtain rfl := Option.some.inj (hgiven.symm.trans hv')
    simp only [Field.validate, hkind] at hvalidate
    split at hvalidate
    · cases hvalidate
    · cases hvalidate
      rfl
  · rw [hgiven] at hnone
    cases hnone

theorem Reads.entryKept (hentry : e.IsEntryPoint) : e.deletable.isEmpty = true := by
  have hfind := hreads.typeIs hregular
  rw [hentry] at hfind
  obtain ⟨-, -, hkept⟩ := hregular.entry hfind
  rcases hreads.deletable with ⟨-, heq⟩ | ⟨b, -, hb, heq⟩
  · rw [heq]
    simpa [BlockType.isDeletable] using hkept
  · cases b
    · rw [heq]
      rfl
    · rw [hb rfl] at hkept
      cases hkept

end

section

variable {roots names : List String} (hregular : registry.Regular)
  (hforest : Forest entries roots) (hreads : ∀ e ∈ entries, ∃ d, Reads registry names d e)

theorem build_content (he : entries[r]? = some e) :
    ((build entries roots names).block r).type = e.type.typeId ∧
      ((build entries roots names).block r).id = .text e.id ∧
      ((build entries roots names).block r).fields = e.fields ∧
      ((build entries roots names).block r).deletable = e.deletable := by
  rw [block_build he]
  exact ⟨rfl, rfl, rfl, rfl⟩

include hregular hreads

theorem typeIs_build (he : entries[r]? = some e) :
    TypeIs registry (build entries roots names) r t ↔ t = e.type := by
  obtain ⟨d, hd⟩ := hreads e (List.mem_of_getElem? he)
  rw [TypeIs, (build_content he).1, hd.typeIs hregular, Option.some.injEq, eq_comm]

include hforest

theorem slotFits_build (hc : (build entries roots names).Holds s c) :
    SlotFits registry (build entries roots names) s c := by
  have hn := hforest.ids
  rcases Workspace.slot_cases s with rfl | ⟨p, place, rfl⟩
  · trivial
  · obtain ⟨e, f, he, hf, hlink⟩ := (holds_build hn).mp hc
    have hp : TypeIs registry (build entries roots names) p e.type :=
      (typeIs_build hregular hreads he).mpr rfl
    have hu : TypeIs registry (build entries roots names) c f.type :=
      (typeIs_build hregular hreads hf).mpr rfl
    have hlinked := hforest.linked e (List.mem_of_getElem? he)
    have hfmem := List.mem_of_getElem? hf
    cases place with
    | none =>
      rcases hlinked.next with hnull | ⟨child, hchild, hid, htlink, hulink⟩
      · rw [Entry.HasLink, hnull] at hlink
        cases hlink
      · obtain rfl := eq_of_id hn hfmem hchild (Value.text.inj (hlink.symm.trans hid))
        exact ⟨_, _, hp, hu, htlink, hulink⟩
    | some k =>
      obtain ⟨socket, hsocket, hleads⟩ := hlinked.inputs _ hlink
      rcases hleads with hnull | ⟨child, hchild, hid, hfits⟩
      · cases hnull
      · obtain rfl := eq_of_id hn hfmem hchild (Value.text.inj hid)
        exact ⟨_, _, socket, hp, hu, hsocket, hfits⟩

variable (hkeys : ∀ e ∈ entries, Table.TextKeys e.inputs)
include hkeys

theorem linked_build : Workspace.Linked registry (build entries roots names) where
  forest := hforest.build_forest hkeys
  known hr := by
    obtain ⟨e, -, he⟩ := exists_entry_at hr
    exact ⟨_, (typeIs_build hregular hreads he).mpr rfl⟩
  sockets {r k} hk := by
    cases he : entries[r]? with
    | none =>
      have hdefault : (build entries roots names).block r = default := by
        simp [Workspace.block, build, he]
      rw [hdefault] at hk
      cases hk
    | some e =>
      rw [block_build he] at hk
      obtain ⟨x, hx⟩ := Table.mem_keys.mp hk
      obtain ⟨⟨k', v⟩, hmem, heq⟩ := List.mem_map.mp hx
      obtain ⟨rfl, -⟩ := Prod.mk.inj heq
      obtain ⟨socket, hsocket, -⟩ := (hforest.linked e (List.mem_of_getElem? he)).inputs _ hmem
      exact ⟨_, socket, (typeIs_build hregular hreads he).mpr rfl, hsocket⟩
  fits hc := slotFits_build hregular hforest hreads hc

theorem invariant_build (hnames : names.Nodup) : Invariant registry (build entries roots names) := by
  have hlinked := linked_build hregular hforest hreads hkeys
  have hat : ∀ r, (build entries roots names).Live r → ∃ e ∈ entries, entries[r]? = some e :=
    fun r hr => exists_entry_at (hlinked.forest.live_lt hr)
  exact
    { linked := hlinked
      stored {r t} hr ht := by
        obtain ⟨e, hmem, he⟩ := exists_entry_at hr
        obtain ⟨d, hd⟩ := hreads e hmem
        obtain rfl := (typeIs_build hregular hreads he).mp ht
        rw [(build_content he).2.2.1]
        exact hd.stored hregular
      ids {r} hr := by
        obtain ⟨e, -, he⟩ := hat r hr
        exact ⟨_, (build_content he).2.1⟩
      distinct {r r'} hr hr' hid := by
        obtain ⟨e, -, he⟩ := hat r hr
        obtain ⟨e', -, he'⟩ := hat r' hr'
        rw [(build_content he).2.1, (build_content he').2.1] at hid
        exact place_unique hforest.ids he he' (Value.text.inj hid)
      declared {r t} hr ht field hfield := by
        obtain ⟨e, hmem, he⟩ := hat r hr
        obtain ⟨d, hd⟩ := hreads e hmem
        obtain rfl := (typeIs_build hregular hreads he).mp ht
        have hnodup := hregular.fieldNames (hd.typeIs hregular)
        obtain ⟨name, hname, hfind⟩ := hd.declared hnodup hfield
        rw [(build_content he).2.2.1]
        exact ⟨_, List.mem_map_of_mem hname, hfind⟩
      names := by
        simp only [build, List.mem_map]
        rintro _ ⟨name, -, rfl⟩
        exact ⟨name, rfl⟩
      namesOnce := hnames.map fun _ _ => Value.text.inj
      entryOnce {r r'} hr hr' ht ht' := by
        obtain ⟨e, hmem, he⟩ := hat r (.root hr)
        obtain ⟨e', hmem', he'⟩ := hat r' (.root hr')
        rw [(build_content he).1] at ht
        rw [(build_content he').1] at ht'
        obtain rfl := hforest.entry.sole e hmem e' hmem' ht ht'
        exact place_unique hforest.ids he he' rfl
      entryKept {r} hr ht := by
        obtain ⟨e, hmem, he⟩ := exists_entry_at hr
        obtain ⟨d, hd⟩ := hreads e hmem
        rw [(build_content he).1] at ht
        rw [Block.isDeletable, (build_content he).2.2.2, hd.entryKept hregular ht]
        rfl }

end

-- ---------------------------------------------------------------------------
-- Loading
-- ---------------------------------------------------------------------------

def Draft.Keyed (d : Draft) : Prop :=
  ∀ inputs, d.inputs = some inputs → Table.TextKeys inputs

theorem assemble_invariant {drafts : List (Option Draft)} (hregular : registry.Regular)
    (hnames : names.Nodup) (hkeys : ∀ d, some d ∈ drafts → d.Keyed)
    (hids : ∀ d, some d ∈ drafts → ∀ s, d.id = .text s → supply.Past s)
    (h : assemble registry names drafts roots = .ok w) :
    Invariant registry w ∧ w.PastIds supply := by
  obtain ⟨entries, ids, hread, -, hforest, rfl⟩ := assemble_ok.mp h
  have hfrom : ∀ e ∈ entries, ∃ d, some d ∈ drafts ∧ Reads registry names d e := by
    intro e he
    obtain ⟨draft, hdraft, hread⟩ := exists_mem_left hread he
    obtain ⟨d, rfl, hreads⟩ := readRecord_ok.mp hread
    exact ⟨d, hdraft, hreads⟩
  have hinv := invariant_build hregular hforest (fun e he => ?_) (fun e he => ?_) hnames
  · refine ⟨hinv, ?_⟩
    rintro _ ⟨r, hr, rfl⟩
    obtain ⟨e, hmem, he⟩ := exists_entry_at (hinv.forest.live_lt hr)
    obtain ⟨d, hdraft, hd⟩ := hfrom e hmem
    exact ⟨e.id, (build_content he).2.1, hids d hdraft e.id hd.id⟩
  · obtain ⟨d, -, hd⟩ := hfrom e he
    exact ⟨d, hd⟩
  · obtain ⟨d, hmem, hd⟩ := hfrom e he
    exact hkeys d hmem e.inputs hd.inputs

theorem ofValue?_keyed (hrecord : record.WellKeyed) (h : Draft.ofValue? record = some d) :
    d.Keyed := by
  intro inputs hinputs
  cases record with
  | object members =>
    cases h
    obtain ⟨given, hgiven, rfl⟩ := Option.map_eq_some_iff.mp hinputs
    have hkeyed : WellKeyed (.object given) := by
      rw [← object?_ok.mp hgiven]
      cases hm : (Value.object members).member? "inputs" with
      | none => exact .object .nil (by simp)
      | some v => exact hrecord.member? hm
    refine ⟨?_, ?_⟩
    · simp only [Table.keys, List.map_map, List.mem_map]
      rintro _ ⟨m, -, rfl⟩
      exact ⟨m.1, rfl⟩
    · have hkeys : (given.map fun m => (Value.text m.1, m.2)).map Prod.fst =
          (given.map Prod.fst).map .text := by simp
      rw [Table.keys, hkeys]
      exact hkeyed.names.map fun _ _ => Value.text.inj
  | _ => cases h

theorem ofValue?_id (h : Draft.ofValue? record = some d) : d.id = record.member "id" := by
  cases record with
  | object members =>
    cases h
    rfl
  | _ => cases h

/-- No id of a record is going to be drawn. -/
def PastRecords (supply : Supply) (document : Value) : Prop :=
  ∀ records, document.member "blocks" = .list records → ∀ record ∈ records, ∀ s,
    record.member "id" = .text s → supply.Past s

theorem read_invariant (hregular : registry.Regular) (hkeyed : document.WellKeyed)
    (hpast : PastRecords supply document) (h : read registry document = .ok w) :
    Invariant registry w ∧ w.PastIds supply := by
  obtain ⟨names, records, roots, hparts, hassemble⟩ := read_ok.mp h
  have hrecords : ∀ record ∈ records, record.WellKeyed := by
    have hlist := hkeyed.member "blocks"
    rw [hparts.blocks] at hlist
    exact hlist.items
  refine assemble_invariant hregular hparts.distinct (fun d hd => ?_) (fun d hd s hs => ?_) hassemble
  · obtain ⟨record, hrecord, hd⟩ := List.mem_map.mp hd
    exact ofValue?_keyed (hrecords record hrecord) hd
  · obtain ⟨record, hrecord, hd⟩ := List.mem_map.mp hd
    exact hpast records hparts.blocks record hrecord s (ofValue?_id hd ▸ hs)

theorem readText_ok (h : readText registry v = .ok w) :
    ∃ s document, v = .text s ∧ Json.read s = .ok document ∧ read registry document = .ok w := by
  unfold readText at h
  split at h
  · rename_i s
    split at h
    · rename_i document hread
      exact ⟨s, document, rfl, hread, h⟩
    · cases h
  · cases h

/-- A saved workspace is read with the sockets and ids that it had. -/
theorem reread_invariant (hregular : registry.Regular) (hinv : Invariant registry w)
    (hids : w.PastIds supply) (h : reread registry (ofWorkspace w) = .ok w') :
    Invariant registry w' ∧ w'.PastIds supply := by
  simp only [reread, bind_ok, readVariables_ok] at h
  obtain ⟨names, ⟨-, hnames, -⟩, hassemble⟩ := h
  have hrecord : ∀ d : Draft,
      some d ∈ (ofWorkspace w).blocks.map (fun record => some (.ofRecord record)) →
        ∃ r, w.Live r ∧ d = .ofRecord (recordOf w r) := by
    intro d hd
    obtain ⟨record, hrecord, hd⟩ := List.mem_map.mp hd
    obtain ⟨r, hr, rfl⟩ := List.mem_map.mp hrecord
    exact ⟨r, hinv.forest.mem_allBlocks.mp hr, (Option.some.inj hd).symm⟩
  refine assemble_invariant hregular hnames (fun d hd => ?_) (fun d hd s hs => ?_) hassemble
  · obtain ⟨r, -, rfl⟩ := hrecord d hd
    intro inputs hinputs
    cases hinputs
    have hkeys : (recordOf w r).inputs.keys = (w.block r).inputs.keys := by
      simp [recordOf, Table.keys]
    rw [Table.TextKeys, hkeys]
    exact hinv.forest.keys r
  · obtain ⟨r, hr, rfl⟩ := hrecord d hd
    obtain ⟨s', hs', hpast⟩ := hids _ ⟨r, hr, rfl⟩
    obtain rfl := Value.text.inj (hs.symm.trans hs')
    exact hpast

end BlockSketch.Document
