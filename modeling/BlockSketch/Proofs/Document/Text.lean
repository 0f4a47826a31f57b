import BlockSketch.Proofs.Document.RoundTrip
import BlockSketch.Proofs.Json.RoundTrip

/-!
# Documents as text

The JSON text of a workspace that was read is read back as the same document, and so as the same
program, however the text is indented. All that such a document holds are texts, truth values and finite
numbers: a field stores nothing else.
-/

namespace BlockSketch

-- ---------------------------------------------------------------------------
-- What fields store
-- ---------------------------------------------------------------------------

namespace Numeral

theorem readDecimal?_canonical (h : readDecimal? negative cs = some x) : x.IsCanonical := by
  unfold readDecimal? at h
  dsimp only at h
  split at h <;> split at h
  · cases h
  · obtain ⟨e, -, rfl⟩ := Option.map_eq_some_iff.mp h
    exact Binary64.ofDecimal_canonical ..
  · cases h
  · obtain ⟨e, -, rfl⟩ := Option.map_eq_some_iff.mp h
    exact Binary64.ofDecimal_canonical ..

theorem readReal?_canonical (h : readReal? s = some x) : x.IsCanonical := by
  simp only [readReal?, Option.bind_eq_bind, Option.bind_eq_some_iff] at h
  obtain ⟨cs, -, h⟩ := h
  split at h
  · cases h
    trivial
  split at h
  · cases h
    trivial
  · exact readDecimal?_canonical h

end Numeral

namespace Value

/-- A value that is read back from its JSON text as it is. -/
structure ReadsBack (v : Value) : Prop where
  valid : v.Valid
  unlabelled : v.unlabelled = v

theorem ReadsBack.null : ReadsBack .null :=
  ⟨.scalar rfl (by rintro _ ⟨⟩), rfl⟩

theorem ReadsBack.bool (b : Bool) : ReadsBack (.bool b) :=
  ⟨.scalar rfl (by rintro _ ⟨⟩), rfl⟩

theorem ReadsBack.text (s : String) : ReadsBack (.text s) :=
  ⟨.scalar rfl (by rintro _ ⟨⟩), rfl⟩

theorem ReadsBack.number {n : Number} (hfinite : n.isFinite = true)
    (hreal : ∀ x, n = .real x → x.IsCanonical) : ReadsBack (.number n) := by
  refine ⟨.scalar rfl fun x hx => hreal x (number.inj hx), ?_⟩
  cases n with
  | int n => rfl
  | real x =>
    cases x with
    | finite _ _ _ => rfl
    | infinite _ => cases hfinite
    | nan _ => cases hfinite

theorem ReadsBack.list {items : List Value} (h : ∀ v ∈ items, ReadsBack v) : ReadsBack (.list items) := by
  refine ⟨.list fun v hv => (h v hv).valid, ?_⟩
  rw [Value.unlabelled, unlabelledItems_eq]
  exact congrArg Value.list ((List.map_congr_left fun v hv => (h v hv).unlabelled).trans (List.map_id _))

theorem ReadsBack.object {members : List (String × Value)} (hnames : (members.map Prod.fst).Nodup)
    (h : ∀ m ∈ members, ReadsBack m.2) : ReadsBack (.object members) := by
  refine ⟨.object hnames fun m hm => (h m hm).valid, ?_⟩
  rw [Value.unlabelled, unlabelledMembers_eq]
  refine congrArg Value.object ((List.map_congr_left fun m hm => ?_).trans (List.map_id _))
  rw [(h m hm).unlabelled]
  rfl

theorem Valid.real (h : Valid (.real x)) : x.IsCanonical := by
  cases h with
  | scalar _ hreal => exact hreal x rfl

theorem Valid.items {vs : List Value} (h : Valid (.list vs)) : ∀ v ∈ vs, v.Valid := by
  cases h with
  | scalar h _ => cases h
  | list h => exact h

theorem Valid.members {ms : List (String × Value)} (h : Valid (.object ms)) : ∀ m ∈ ms, m.2.Valid := by
  cases h with
  | scalar h _ => cases h
  | object _ h => exact h

theorem Valid.member {v : Value} (h : v.Valid) (name : String) : (v.member name).Valid := by
  cases v with
  | object ms =>
    rw [Value.member]
    cases hx : (Value.object ms).member? name with
    | none => exact ReadsBack.null.valid
    | some x => exact h.members _ (Assoc.find?_mem hx)
  | _ => exact ReadsBack.null.valid

end Value

namespace Field

open Value (ReadsBack)

theorem readNumber_canonical (hv : v.Valid) (h : readNumber v = .ok n) (x : Binary64)
    (hn : n = .real x) : x.IsCanonical := by
  subst hn
  unfold readNumber at h
  split at h
  · cases h
    exact hv.real
  · split at h
    · cases h
    · rename_i y hy
      split at h
      · cases h
      · cases h
        exact Numeral.readReal?_canonical hy
  · cases h

theorem validate_readsBack {field : Field} (htyped : field.WellTyped) (hv : v.Valid)
    (h : field.validate v = .ok stored) : ReadsBack stored := by
  cases hk : field.kind with
  | number =>
    simp only [validate, hk] at h
    obtain ⟨n, hn, rfl⟩ := map_ok.mp h
    simp only [validateNumber, bind_ok] at hn
    obtain ⟨m, hm, hn⟩ := hn
    split at hn
    · cases hn
    · rename_i hfinite
      simp only [bind_ok, Except.ok.injEq] at hn
      obtain ⟨_, -, _, -, rfl⟩ := hn
      exact .number (by simpa using hfinite) (readNumber_canonical hv hm)
  | dropdown =>
    obtain ⟨names, hnames⟩ := choiceValues_wellTyped htyped
    simp only [validate, hk, validateChoice, hnames, bind_ok, Except.ok.injEq, exists_eq_left'] at h
    split at h
    · rename_i hin
      cases h
      simp only [Value.isIn, List.any_map, List.any_eq_true, Function.comp_apply,
        Value.text_coincides] at hin
      obtain ⟨s, -, rfl⟩ := hin
      exact .text s
    · cases h
  | text =>
    simp only [validate, hk] at h
    split at h <;> cases h
    exact .text _
  | «variable» =>
    simp only [validate, hk] at h
    split at h
    · split at h <;> cases h
      exact .text _
    · cases h

end Field

namespace Document

open Value (ReadsBack)
open Workspace (SameProgram)

variable {registry : Registry} {w : Workspace} {entries : List Entry} {names ids : List String}

-- ---------------------------------------------------------------------------
-- Documents of workspaces
-- ---------------------------------------------------------------------------

theorem ofValue?_fields_valid (hrecord : record.Valid) (h : Draft.ofValue? record = some d) :
    d.fields.Valid := by
  cases record with
  | object members =>
    cases h
    show ((Value.member? (.object members) "fields").getD (.object [])).Valid
    cases hx : (Value.object members).member? "fields" with
    | none => exact .object .nil (by simp)
    | some x => exact hrecord.members _ (Assoc.find?_mem hx)
  | _ => cases h

theorem Reads.fields_readsBack {e : Entry} (hdeclared : registry.Declared) (htyped : registry.WellTyped)
    (hvalid : d.fields.Valid) (h : Reads registry names d e) : ReadsBack (.object e.fields) := by
  obtain ⟨type, -, hfind⟩ := h.type
  obtain ⟨given, hgiven, hfields, -⟩ := h.fields
  have hfilled := (BlockType.validateFields_ok.mp hfields).2
  rw [hgiven] at hvalid
  refine .object ?_ fun nv hnv => ?_
  · have hnames : e.type.fields.map Prod.fst = e.fields.map Prod.fst := by
      rw [← List.forall₂_eq_eq_eq, List.forall₂_map_left_iff, List.forall₂_map_right_iff]
      exact hfilled.imp fun _ _ h => h.1.symm
    rw [← hnames]
    exact (hdeclared _ _ hfind).2.fieldNames
  · obtain ⟨nf, hnf, -, hfill⟩ := exists_mem_left hfilled hnv
    rcases hfill with ⟨v, hv, hvalidate⟩ | ⟨-, hfill, -⟩
    · exact Field.validate_readsBack (htyped _ _ hfind nf hnf)
        (hvalid.members _ (Assoc.find?_mem hv)) hvalidate
    · cases hfill

theorem Leads.readsBack (h : Leads entries suits v) : ReadsBack v := by
  rcases h with rfl | ⟨child, -, rfl, -⟩
  · exact .null
  · exact .text child.id

theorem StandsFor.record_readsBack (h : StandsFor w r e) (hstable : e.Stable registry names)
    (hkeys : Table.TextKeys (w.block r).inputs) (hlinked : e.Linked entries)
    (hfields : ReadsBack (.object e.fields)) :
    ReadsBack ((recordOf w r).toValue Value.plain) := by
  obtain ⟨type, htype, -⟩ := hstable.type
  obtain ⟨b, hb, -⟩ := hstable.deletable
  have hinputs : ReadsBack (.object ((recordOf w r).inputs.map fun input => (input.1.plain, input.2))) := by
    refine .object ?_ fun m hm => ?_
    · have hnames : ((recordOf w r).inputs.map fun input => (input.1.plain, input.2)).map Prod.fst =
          (w.block r).inputs.keys.map Value.plain := by simp [recordOf, Table.keys]
      rw [hnames]
      refine hkeys.2.map_on fun k hk k' hk' heq => ?_
      obtain ⟨s, rfl⟩ := hkeys.1 k hk
      obtain ⟨s', rfl⟩ := hkeys.1 k' hk'
      exact congrArg Value.text heq
    · obtain ⟨input, hinput, rfl⟩ := List.mem_map.mp hm
      have hmem : input ∈ e.inputs := by
        rw [← h.inputs]
        exact hinput
      obtain ⟨socket, -, hleads⟩ := hlinked.inputs input hmem
      exact hleads.readsBack
  refine .object (by simp) ?_
  simp only [List.forall_mem_cons, List.not_mem_nil, false_implies, implies_true, and_true]
  refine ⟨?_, ?_, ?_, hinputs, ?_, ?_⟩
  · rw [recordOf, h.id]
    exact .text e.id
  · rw [recordOf, h.type, htype]
    exact .text type
  · rwa [recordOf, h.fields]
  · rw [recordOf, h.next]
    exact Leads.readsBack hlinked.next
  · rw [recordOf, h.deletable, hb]
    exact .bool b

/-- A workspace that was read is saved as entries that are read again, with fields that are read back. -/
theorem read_saves (hdeclared : registry.Declared) (htyped : registry.WellTyped)
    (hvalid : document.Valid) (hread : read registry document = .ok w) :
    ∃ entries ids names, Saves registry w entries ids names ∧
      ∀ e ∈ entries, ReadsBack (.object e.fields) := by
  obtain ⟨names, records, _, hparts, hassemble⟩ := read_ok.mp hread
  obtain ⟨entries, ids, hdrafts, rfl, hforest, rfl⟩ := assemble_ok.mp hassemble
  have hrecords : ∀ record ∈ records, record.Valid := by
    have hlist := hvalid.member "blocks"
    rw [hparts.blocks] at hlist
    exact hlist.items
  have hfrom : ∀ e ∈ entries, ∃ d, d.Keyed ∧ d.fields.Valid ∧ Reads registry names d e := by
    intro e he
    obtain ⟨record, hrecord, hread⟩ := exists_mem_left (List.forall₂_map_left_iff.mp hdrafts) he
    obtain ⟨d, hdraft, hreads⟩ := readRecord_ok.mp hread
    have hrecord := hrecords record hrecord
    exact ⟨d, ofValue?_keyed hrecord.wellKeyed hdraft, ofValue?_fields_valid hrecord hdraft, hreads⟩
  have hkeys : ∀ e ∈ entries, Table.TextKeys e.inputs := fun e he => by
    obtain ⟨d, hd, -, hreads⟩ := hfrom e he
    exact hd e.inputs hreads.inputs
  have hstable : ∀ e ∈ entries, e.Stable registry names := fun e he => by
    obtain ⟨d, -, -, hreads⟩ := hfrom e he
    exact hreads.stable hdeclared
  obtain ⟨entries', hmem, hlisted⟩ := hforest.exists_listed hkeys
  refine ⟨entries', ids, names, hforest.saves_build hkeys hstable hmem hlisted hparts.distinct
    hparts.named, fun e he => ?_⟩
  obtain ⟨d, -, hfields, hreads⟩ := hfrom e ((hmem e).mp he)
  exact hreads.fields_readsBack hdeclared htyped hfields

section

variable (h : Saves registry w entries ids names)
include h

/-- The names of sockets are texts, which are written as they are. -/
theorem Saves.writeText_eq (layout : Json.Layout) :
    writeText layout w = Json.write layout w.serialize := by
  have hrecord : ∀ record ∈ (ofWorkspace w).blocks,
      record.toValue Json.keyText = record.toValue Value.plain := by
    intro record hrecord
    obtain ⟨r, -, rfl⟩ := List.mem_map.mp hrecord
    have hinputs : (recordOf w r).inputs.map (fun input => (Json.keyText input.1, input.2)) =
        (recordOf w r).inputs.map fun input => (input.1.plain, input.2) := by
      refine List.map_congr_left fun input hinput => ?_
      obtain ⟨given, hgiven, rfl⟩ := List.mem_map.mp hinput
      obtain ⟨s, hs⟩ := (h.blocks.keys r).1 given.1 (Table.mem_keys.mpr ⟨given.2, hgiven⟩)
      simp only [hs]
      rfl
    simp only [BlockRecord.toValue, hinputs]
  rw [writeText, Workspace.serialize, toValue, toValue, List.map_congr_left hrecord]

theorem Saves.serialize_readsBack (hfields : ∀ e ∈ entries, ReadsBack (.object e.fields)) :
    ReadsBack w.serialize := by
  have hrecords : ∀ record ∈ (ofWorkspace w).blocks.map (BlockRecord.toValue Value.plain),
      ReadsBack record := by
    rw [ofWorkspace, List.map_map, List.forall_mem_map]
    intro r hr
    obtain ⟨e, he, hstands, hstable⟩ := exists_mem_right h.stands hr
    exact hstands.record_readsBack hstable (h.blocks.keys r) (h.forest.linked e he) (hfields e he)
  refine .object (by simp) ?_
  simp only [List.forall_mem_cons, List.not_mem_nil, false_implies, implies_true, and_true]
  refine ⟨.text _, .number rfl (by rintro _ ⟨⟩), .list ?_, .list ?_, .list hrecords⟩
  · rw [ofWorkspace, h.declares]
    exact List.forall_mem_map.mpr fun name _ => .text name
  · rw [ofWorkspace, h.roots]
    exact List.forall_mem_map.mpr fun x _ => .text x

end

/-- The text of a workspace that was read holds the workspace's document, and is read as the same
program, on one line or with any indentation. -/
theorem readText_writeText (registry : Registry) (hdeclared : registry.Declared)
    (htyped : registry.WellTyped) (document : Value) (hvalid : document.Valid) (w : Workspace)
    (hread : read registry document = .ok w) (indent : Option Int) :
    Json.read (writeText (.ofIndent indent) w) = .ok w.serialize ∧
      ∃ w', readText registry (.text (writeText (.ofIndent indent) w)) = .ok w' ∧ SameProgram w w' := by
  obtain ⟨entries, ids, names, hsaves, hfields⟩ := read_saves hdeclared htyped hvalid hread
  obtain ⟨hserialized, hunlabelled⟩ := hsaves.serialize_readsBack hfields
  have htext : Json.read (writeText (.ofIndent indent) w) = .ok w.serialize := by
    rw [hsaves.writeText_eq, Json.read_write (Json.Layout.ofIndent_isBlank indent) hserialized, hunlabelled]
  refine ⟨htext, build entries ids names, ?_, _, hsaves.renames⟩
  rw [readText, htext]
  exact hsaves.read

-- ---------------------------------------------------------------------------
-- A document with escapes
-- ---------------------------------------------------------------------------

/-- Characters that take every kind of escape. -/
def escapedId : String := "\"\\\n\x01é😀"

def tenth : Binary64 := .finite false 7205759403792794 (-56)

def escapedRecord : Value :=
  .object [("id", .text escapedId), ("type", "math_number"), ("fields", .object [("NUM", .real tenth)])]

def escapedDocument : Value :=
  .object [("format", .text formatName), ("version", .int 1), ("blocks", .list [escapedRecord]),
    ("top_blocks", .list [.text escapedId])]

def escapedWorkspace : Workspace where
  blocks := #[{ type := "math_number", id := .text escapedId, fields := [("NUM", .real tenth)] }]
  roots := [0]
  variableNames := []

def escapedEntry (t : BlockType) : Entry where
  id := escapedId
  type := t
  fields := [("NUM", .real tenth)]
  inputs := []
  next := .null
  deletable := .bool true

theorem tenth_canonical : tenth.IsCanonical :=
  ⟨by norm_num, by decide, by decide, .inl (by norm_num)⟩

theorem escapedDocument_valid : escapedDocument.Valid := by
  have hfields : Value.Valid (.object [("NUM", .real tenth)]) := by
    refine .object (by simp) (List.forall_mem_singleton.mpr (.scalar rfl ?_))
    rintro _ ⟨⟩
    exact tenth_canonical
  have hrecord : escapedRecord.Valid := by
    refine .object (by simp) ?_
    simp only [List.forall_mem_cons, List.not_mem_nil, false_implies, implies_true, and_true]
    exact ⟨(ReadsBack.text _).valid, (ReadsBack.text _).valid, hfields⟩
  refine .object (by simp) ?_
  simp only [List.forall_mem_cons, List.not_mem_nil, false_implies, implies_true, and_true]
  exact ⟨(ReadsBack.text _).valid, (ReadsBack.number rfl (by rintro _ ⟨⟩)).valid,
    .list (List.forall_mem_singleton.mpr hrecord),
    .list (List.forall_mem_singleton.mpr (ReadsBack.text _).valid)⟩

theorem read_escaped : read Catalog.registry escapedDocument = .ok escapedWorkspace := by
  have hnumber : ∃ t, Catalog.registry.find? (.text "math_number") = some t ∧
      t.typeId = "math_number" ∧ t.fields = [("NUM", Catalog.number 0 none none)] ∧
      t.deletable = .bool true := by
    rw [Catalog.registry_find?]
    exact ⟨_, rfl, rfl, rfl, rfl⟩
  obtain ⟨t, ht, hid, hfields, hdel⟩ := hnumber
  refine read_ok.mpr ⟨[], [escapedRecord], [.text escapedId],
    ⟨⟨_, rfl⟩, rfl, by decide, .inl ⟨rfl, rfl⟩, by simp, by simp, rfl, rfl⟩, assemble_ok.mpr ?_⟩
  refine ⟨[escapedEntry t], [escapedId],
    .cons (readRecord_ok.mpr ⟨_, rfl, ?_⟩) .nil, rfl, ?_, ?_⟩
  · have hstored : t.validateFields [("NUM", .real tenth)] false = .ok [("NUM", .real tenth)] := by
      refine BlockType.validateFields_ok.mpr ⟨by simp [Assoc.names, Assoc.has_iff, hfields], ?_⟩
      rw [hfields]
      exact .cons ⟨rfl, .inl ⟨_, rfl, rfl⟩⟩ .nil
    have hnone : t.variableFields = [] := by
      rw [BlockType.variableFields, hfields]
      rfl
    exact ⟨rfl, by simp [escapedEntry, escapedId], ⟨_, rfl, ht⟩,
      ⟨_, rfl, hstored, by simp [escapedEntry, hnone]⟩, rfl, rfl,
      .inl ⟨rfl, hdel.symm⟩⟩
  · have hid : (escapedEntry t).id = escapedId := rfl
    have hlinks : (escapedEntry t).links = [] := rfl
    refine ⟨by simp, List.forall_mem_singleton.mpr ⟨by simp [escapedEntry], .inl rfl⟩, by simp [hlinks],
      fun x hcycle => ?_, by simp, by simp [hlinks, hid], ⟨by simp, by simp [hlinks]⟩⟩
    obtain ⟨_, ⟨e, he, -, hlink⟩, -⟩ := Relation.TransGen.head'_iff.mp hcycle
    obtain rfl := List.mem_singleton.mp he
    cases hlink
  · have hbuild : build [escapedEntry t] [escapedId] [] =
        { escapedWorkspace with
          blocks := #[{ type := t.typeId, id := .text escapedId, fields := [("NUM", .real tenth)] }] } := by
      simp [build, Entry.toBlock, escapedEntry, refOf, escapedWorkspace, Value.text?, List.findIdx?_cons]
    rw [hbuild, hid]
    rfl

theorem escapedDocument_text : Catalog.registry.Declared ∧ Catalog.registry.WellTyped ∧
    escapedDocument.Valid ∧ read Catalog.registry escapedDocument = .ok escapedWorkspace ∧
    Json.read (writeText (.ofIndent (some 2)) escapedWorkspace) = .ok escapedWorkspace.serialize ∧
    ∃ w', readText Catalog.registry (.text (writeText (.ofIndent (some 2)) escapedWorkspace)) = .ok w' ∧
      SameProgram escapedWorkspace w' :=
  ⟨Catalog.registry_declared, Catalog.registry_wellTyped, escapedDocument_valid, read_escaped,
    readText_writeText _ Catalog.registry_declared Catalog.registry_wellTyped _ escapedDocument_valid _
      read_escaped (some 2)⟩

end Document

end BlockSketch
