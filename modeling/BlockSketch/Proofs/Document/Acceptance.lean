import BlockSketch.Error
import BlockSketch.Proofs.Catalog
import BlockSketch.Proofs.Document.Reach

/-!
# Which documents are accepted

A document is read exactly if it describes a forest of well typed blocks. What that means is said on
the values of the document, record by record and link by link, with no mention of how it is checked:
in particular acyclicity is the absence of a cycle among the references, and the roots are all the
records that nothing refers to. A document that is not read is malformed, whatever it is, as long as
the fields of the registered types are well typed.
-/

namespace BlockSketch.Document

open Ancestry
open Relation (ReflTransGen TransGen)

-- ---------------------------------------------------------------------------
-- Well formed documents
-- ---------------------------------------------------------------------------

def fieldsOf (record : Value) : Value :=
  (record.member? "fields").getD (.object [])

def inputsOf (record : Value) : Value :=
  (record.member? "inputs").getD (.object [])

/-- The ids that a record refers to: those in its sockets, then its successor. -/
def linksOf (record : Value) : List String :=
  (((inputsOf record).object?.getD []).map Prod.snd ++ [record.member "next"]).filterMap Value.text?

def Refers (records : List Value) (a b : String) : Prop :=
  ∃ record ∈ records, record.member "id" = .text a ∧ b ∈ linksOf record

def HasType (registry : Registry) (record : Value) (t : BlockType) : Prop :=
  ∃ type, record.member "type" = .text type ∧ registry.find? (.text type) = some t

structure RecordFits (registry : Registry) (names : List String) (record : Value)
    (t : BlockType) : Prop where
  object : ∃ members, record = .object members
  id : ∃ id, record.member "id" = .text id ∧ id ≠ ""
  type : HasType registry record t
  fields : ∃ given, fieldsOf record = .object given ∧
    (∀ name ∈ Assoc.names given, t.fields.has name = true) ∧
    ∀ nf ∈ t.fields, ∃ v, Assoc.find? given nf.1 = some v ∧ nf.2.Admits v ∧
      (nf.2.kind = .variable → ∃ name ∈ names, v = .text name)
  inputs : ∃ given, inputsOf record = .object given
  deletable : record.member? "deletable" = none ∨
    ∃ b, record.member? "deletable" = some (.bool b) ∧ (b = true → t.isDeletable = true)

def RefersTo (registry : Registry) (records : List Value) (suits : BlockType → Prop) (v : Value) :
    Prop :=
  ∃ child ∈ records, child.member "id" = v ∧ ∃ t, HasType registry child t ∧ suits t

structure LinksFit (registry : Registry) (records : List Value) (record : Value) (t : BlockType) :
    Prop where
  inputs : ∀ name child, (name, child) ∈ (inputsOf record).object?.getD [] →
    ∃ socket, t.socket? (.text name) = some socket ∧
      (child = .null ∨ RefersTo registry records (socket.Fits ·) child)
  next : record.member "next" = .null ∨
    t.isLink = true ∧ RefersTo registry records (·.isLink = true) (record.member "next")

def IsEntryRecord (registry : Registry) (record : Value) : Prop :=
  ∃ t, HasType registry record t ∧ t.typeId = .text entryType

/-- Records that form a forest with the given roots. -/
structure Describes (registry : Registry) (names : List String) (records roots : List Value) :
    Prop where
  fits : ∀ record ∈ records, ∃ t, RecordFits registry names record t ∧
    LinksFit registry records record t
  ids : (records.map (·.member "id")).Nodup
  oneParent : (records.flatMap linksOf).Nodup
  acyclic : Acyclic (Refers records)
  rootsOnce : roots.Nodup
  tops : ∀ v, v ∈ roots ↔
    (∃ record ∈ records, record.member "id" = v) ∧ ∀ x ∈ records.flatMap linksOf, v ≠ .text x
  oneEntry : ∀ a ∈ records, ∀ b ∈ records, IsEntryRecord registry a → IsEntryRecord registry b →
    a.member "id" = b.member "id"
  entryRoot : ∀ a ∈ records, IsEntryRecord registry a → a.member "id" ∈ roots

/-- The parts of a document: the names of its variables, its records and its roots. -/
structure HasParts (document : Value) (names : List String) (records roots : List Value) :
    Prop where
  object : ∃ members, document = .object members
  format : document.member "format" = .text formatName
  version : (document.member "version").same (.int currentVersion) = true
  declares : document.member? "variables" = none ∧ names = [] ∨
    document.member? "variables" = some (.list (names.map .text))
  distinct : names.Nodup
  named : "" ∉ names
  blocks : document.member "blocks" = .list records
  tops : document.member "top_blocks" = .list roots

def WellFormed (registry : Registry) (document : Value) : Prop :=
  ∃ names records roots, HasParts document names records roots ∧
    Describes registry names records roots

-- ---------------------------------------------------------------------------
-- Records as values and as entries
-- ---------------------------------------------------------------------------

theorem HasType.unique (h : HasType registry record t) (h' : HasType registry record t') :
    t = t' := by
  obtain ⟨type, htype, ht⟩ := h
  obtain ⟨type', htype', ht'⟩ := h'
  rw [htype] at htype'
  cases htype'
  exact Option.some.inj (ht.symm.trans ht')

structure ReadAs (registry : Registry) (names : List String) (record : Value) (e : Entry) :
    Prop where
  fits : RecordFits registry names record e.type
  id : record.member "id" = .text e.id
  inputs : e.inputs = ((inputsOf record).object?.getD []).map fun (name, v) => (.text name, v)
  next : record.member "next" = e.next

theorem ReadAs.links (h : ReadAs registry names record e) : linksOf record = e.links := by
  simp [linksOf, Entry.links, h.inputs, h.next, Function.comp_def]

theorem exists_forall₂ {R : α → β → Prop} {l : List α} :
    (∃ l', List.Forall₂ R l l') ↔ ∀ a ∈ l, ∃ b, R a b := by
  induction l with
  | nil => simp
  | cons a l ih =>
    simp only [List.forall_mem_cons, ← ih, List.forall₂_cons_left_iff]
    constructor
    · rintro ⟨_, b, l', hab, hl, rfl⟩
      exact ⟨⟨b, hab⟩, l', hl⟩
    · rintro ⟨⟨b, hab⟩, l', hl⟩
      exact ⟨_, b, l', hab, hl, rfl⟩

theorem exists_texts {l : List Value} (h : ∀ v ∈ l, ∃ s, v = .text s) :
    ∃ texts : List String, l = texts.map .text := by
  obtain ⟨texts, htexts⟩ := exists_forall₂.mpr h
  refine ⟨texts, ?_⟩
  rw [← List.forall₂_eq_eq_eq, List.forall₂_map_right_iff]
  exact htexts

/-- The fields of a record are complete, in their domains, and name declared variables. -/
theorem fields_ok {t : BlockType} {names : List String} {given : Assoc Value} :
    ((∃ fields, t.validateFields given false = .ok fields) ∧
        ∀ field ∈ t.variableFields, ∃ name ∈ names, given.find? field = some (.text name)) ↔
      (∀ name ∈ given.names, t.fields.has name = true) ∧
        ∀ nf ∈ t.fields, ∃ v, given.find? nf.1 = some v ∧ nf.2.Admits v ∧
          (nf.2.kind = .variable → ∃ name ∈ names, v = .text name) := by
  simp only [BlockType.validateFields_ok, BlockType.Filled, Bool.false_eq_true, false_and,
    and_false, or_false, exists_and_left, exists_forall₂, BlockType.variableFields, Assoc.names,
    List.mem_map, List.mem_filter, beq_iff_eq, and_assoc, and_congr_right_iff]
  intro _
  constructor
  · rintro ⟨hfill, hvars⟩ nf hnf
    obtain ⟨⟨_, stored⟩, -, v, hv, hstored⟩ := hfill nf hnf
    refine ⟨v, hv, ⟨stored, hstored⟩, fun hk => ?_⟩
    obtain ⟨name, hname, h⟩ := hvars nf.1 ⟨nf, hnf, hk, rfl⟩
    exact ⟨name, hname, Option.some.inj (hv.symm.trans h)⟩
  · intro h
    constructor
    · intro nf hnf
      obtain ⟨v, hv, ⟨stored, hstored⟩, -⟩ := h nf hnf
      exact ⟨(nf.1, stored), rfl, v, hv, hstored⟩
    · rintro _ ⟨nf, hnf, hk, rfl⟩
      obtain ⟨v, hv, -, hvar⟩ := h nf hnf
      obtain ⟨name, hname, rfl⟩ := hvar hk
      exact ⟨name, hname, hv⟩

theorem readRecord_readAs (h : readRecord registry names (Draft.ofValue? record) = .ok e) :
    ReadAs registry names record e := by
  obtain ⟨d, hd, h⟩ := readRecord_ok.mp h
  cases record with
  | object members =>
    cases hd
    obtain ⟨given, hgiven, hvalid, hvars⟩ := h.fields
    obtain ⟨inputs, hinputs, hmap⟩ := Option.map_eq_some_iff.mp h.inputs
    have hobject := object?_ok.mp hinputs
    have hfields := fields_ok.mp ⟨⟨_, hvalid⟩, hvars⟩
    refine ⟨⟨⟨members, rfl⟩, ⟨e.id, h.id, h.named⟩, h.type, ⟨given, hgiven, hfields⟩,
      ⟨inputs, hobject⟩, ?_⟩, h.id, ?_, h.next⟩
    · rcases h.deletable with ⟨hnone, -⟩ | ⟨b, hb, hdel, -⟩
      · exact .inl hnone
      · exact .inr ⟨b, hb, hdel⟩
    · simp [inputsOf, hinputs, hmap]
  | _ => simp [Draft.ofValue?] at hd

theorem RecordFits.exists_entry (h : RecordFits registry names record t) :
    ∃ e, readRecord registry names (Draft.ofValue? record) = .ok e := by
  obtain ⟨members, rfl⟩ := h.object
  obtain ⟨x, hid, hne⟩ := h.id
  obtain ⟨given, hgiven, hfields⟩ := h.fields
  obtain ⟨⟨fields, hvalid⟩, hvars⟩ := fields_ok.mpr hfields
  obtain ⟨inputs, hinputs⟩ := h.inputs
  obtain ⟨deletable, hdeletable⟩ : ∃ v, (Value.object members).member? "deletable" = none ∧
      v = t.deletable ∨ ∃ b, (Value.object members).member? "deletable" = some (.bool b) ∧
        (b = true → t.isDeletable = true) ∧ v = .bool b := by
    rcases h.deletable with hnone | ⟨b, hb, hdel⟩
    · exact ⟨_, .inl ⟨hnone, rfl⟩⟩
    · exact ⟨_, .inr ⟨b, hb, hdel, rfl⟩⟩
  let e : Entry :=
    { id := x, type := t, fields, next := (Value.object members).member "next", deletable
      inputs := inputs.map fun (name, v) => (.text name, v) }
  refine ⟨e, readRecord_ok.mpr ⟨_, rfl, hid, hne, h.type, ⟨given, hgiven, hvalid, hvars⟩, ?_, rfl,
    hdeletable⟩⟩
  exact Option.map_eq_some_iff.mpr ⟨inputs, object?_ok.mpr hinputs, rfl⟩

-- ---------------------------------------------------------------------------
-- Documents as values and as entries
-- ---------------------------------------------------------------------------

theorem isEntry_readAs (hread : ReadAs registry names record e) :
    IsEntryRecord registry record ↔ e.IsEntryPoint := by
  constructor
  · rintro ⟨t, ht, hentry⟩
    obtain rfl := ht.unique hread.fits.type
    exact hentry
  · exact fun hentry => ⟨e.type, hread.fits.type, hentry⟩

section

variable {registry : Registry} {names : List String} {records : List Value} {entries : List Entry}
  (h : List.Forall₂ (ReadAs registry names) records entries)
include h

theorem ids_readAs : records.map (·.member "id") = (entries.map Entry.id).map .text := by
  induction h with
  | nil => rfl
  | cons hab _ ih => simp [hab.id, ih]

theorem links_readAs : records.flatMap linksOf = entries.flatMap Entry.links := by
  induction h with
  | nil => rfl
  | cons hab _ ih => simp [hab.links, ih]

theorem refers_readAs : Refers records a b ↔ Child entries a b := by
  constructor
  · rintro ⟨record, hrecord, hid, hlink⟩
    obtain ⟨e, he, hread⟩ := exists_mem_right h hrecord
    exact ⟨e, he, by simpa [hread.id] using hid, hread.links ▸ hlink⟩
  · rintro ⟨e, he, rfl, hlink⟩
    obtain ⟨record, hrecord, hread⟩ := exists_mem_left h he
    exact ⟨record, hrecord, hread.id, hread.links ▸ hlink⟩

theorem refersTo_readAs {suits : BlockType → Prop} : RefersTo registry records suits v ↔
    ∃ child ∈ entries, v = .text child.id ∧ suits child.type := by
  constructor
  · rintro ⟨record, hrecord, rfl, t, ht, hsuits⟩
    obtain ⟨e, he, hread⟩ := exists_mem_right h hrecord
    exact ⟨e, he, hread.id, ht.unique hread.fits.type ▸ hsuits⟩
  · rintro ⟨e, he, rfl, hsuits⟩
    obtain ⟨record, hrecord, hread⟩ := exists_mem_left h he
    exact ⟨record, hrecord, hread.id, e.type, hread.fits.type, hsuits⟩

theorem linked_readAs (hread : ReadAs registry names record e) :
    LinksFit registry records record e.type ↔ e.Linked entries := by
  have hinputs : (∀ input ∈ e.inputs, InputFits entries e.type input) ↔
      ∀ name child, (name, child) ∈ (inputsOf record).object?.getD [] →
        ∃ socket, e.type.socket? (.text name) = some socket ∧
          (child = .null ∨ RefersTo registry records (socket.Fits ·) child) := by
    simp only [hread.inputs, List.forall_mem_map, Prod.forall, InputFits, Leads, refersTo_readAs h]
  have hnext : NextFits entries e.type e.next ↔ record.member "next" = .null ∨
      e.type.isLink = true ∧ RefersTo registry records (·.isLink = true) (record.member "next") := by
    simp only [hread.next, NextFits, Leads, refersTo_readAs h]
    grind
  exact ⟨fun ⟨hi, hn⟩ => ⟨hinputs.mpr hi, hnext.mpr hn⟩, fun ⟨hi, hn⟩ => ⟨hinputs.mp hi, hnext.mp hn⟩⟩

/-- Records describe a forest exactly if the entries they are read as form one. -/
theorem describes_readAs {ids : List String} :
    Describes registry names records (ids.map .text) ↔ Forest entries ids := by
  have hinj : Function.Injective Value.text := fun _ _ => Value.text.inj
  have hacyclic : Acyclic (Refers records) ↔ Acyclic (Child entries) :=
    ⟨fun ha => ha.mono fun _ _ => (refers_readAs h).mpr,
      fun ha => ha.mono fun _ _ => (refers_readAs h).mp⟩
  have hids := ids_readAs h
  have hlinks := links_readAs h
  have htops : ∀ x, ((∃ record ∈ records, record.member "id" = .text x) ∧
      ∀ y ∈ records.flatMap linksOf, Value.text x ≠ .text y) ↔
        x ∈ entries.map Entry.id ∧ x ∉ entries.flatMap Entry.links := by
    intro x
    rw [hlinks, ← List.mem_map (f := (Value.member · "id")), hids, List.mem_map_of_injective hinj]
    simp only [ne_eq, Value.text.injEq]
    grind
  have hmem : ∀ x, Value.text x ∈ ids.map Value.text ↔ x ∈ ids := fun x =>
    List.mem_map_of_injective hinj
  constructor
  · intro hd
    have hn : (entries.map Entry.id).Nodup := (List.nodup_map_iff hinj).mp (hids ▸ hd.ids)
    refine ⟨hn, fun e he => ?_, hlinks ▸ hd.oneParent, hacyclic.mp hd.acyclic,
      (List.nodup_map_iff hinj).mp hd.rootsOnce, fun x => ?_, fun e he e' he' ht ht' => ?_,
      fun e he ht => ?_⟩
    · obtain ⟨record, hrecord, hread⟩ := exists_mem_left h he
      obtain ⟨t, hfits, hlinked⟩ := hd.fits record hrecord
      obtain rfl := hfits.type.unique hread.fits.type
      exact (linked_readAs h hread).mp hlinked
    · rw [← hmem, hd.tops, htops]
    · obtain ⟨record, hrecord, hread⟩ := exists_mem_left h he
      obtain ⟨record', hrecord', hread'⟩ := exists_mem_left h he'
      have hsame := hd.oneEntry record hrecord record' hrecord' ((isEntry_readAs hread).mpr ht)
        ((isEntry_readAs hread').mpr ht')
      rw [hread.id, hread'.id] at hsame
      exact eq_of_id hn he he' (Value.text.inj hsame)
    · obtain ⟨record, hrecord, hread⟩ := exists_mem_left h he
      have hroot := hd.entryRoot record hrecord ((isEntry_readAs hread).mpr ht)
      rw [hread.id, hd.tops, htops] at hroot
      exact hroot.2
  · intro hf
    refine ⟨fun record hrecord => ?_, hids ▸ hf.ids.map hinj, hlinks ▸ hf.oneParent,
      hacyclic.mpr hf.acyclic, hf.nodup.map hinj, fun v => ?_, fun a ha b hb ht ht' => ?_,
      fun a ha ht => ?_⟩
    · obtain ⟨e, he, hread⟩ := exists_mem_right h hrecord
      exact ⟨e.type, hread.fits, (linked_readAs h hread).mpr (hf.linked e he)⟩
    · constructor
      · intro hv
        obtain ⟨x, hx, rfl⟩ := List.mem_map.mp hv
        exact (htops x).mpr ((hf.tops x).mp hx)
      · rintro ⟨⟨record, hrecord, rfl⟩, hfree⟩
        obtain ⟨e, he, hread⟩ := exists_mem_right h hrecord
        rw [hread.id] at hfree ⊢
        exact (hmem _).mpr ((hf.tops _).mpr ((htops _).mp ⟨⟨record, hrecord, hread.id⟩, hfree⟩))
    · obtain ⟨e, he, hread⟩ := exists_mem_right h ha
      obtain ⟨e', he', hread'⟩ := exists_mem_right h hb
      have hsame := hf.entry.sole e he e' he' ((isEntry_readAs hread).mp ht)
        ((isEntry_readAs hread').mp ht')
      rw [hread.id, hread'.id, hsame]
    · obtain ⟨e, he, hread⟩ := exists_mem_right h ha
      rw [hread.id, hmem, hf.tops]
      exact ⟨List.mem_map_of_mem he, hf.entry.free e he ((isEntry_readAs hread).mp ht)⟩

end

theorem assemble_describes :
    (∃ w, assemble registry names (records.map Draft.ofValue?) roots = .ok w) ↔
      Describes registry names records roots := by
  simp only [assemble_ok, List.forall₂_map_left_iff]
  constructor
  · rintro ⟨_, entries, ids, hread, rfl, hforest, -⟩
    exact (describes_readAs (hread.imp fun _ _ => readRecord_readAs)).mpr hforest
  · intro hd
    obtain ⟨entries, hread⟩ := exists_forall₂.mpr fun record hrecord => by
      obtain ⟨t, hfits, -⟩ := hd.fits record hrecord
      exact hfits.exists_entry
    have hroots : ∀ v ∈ roots, ∃ s, v = Value.text s := by
      intro v hv
      obtain ⟨⟨record, hrecord, rfl⟩, -⟩ := (hd.tops v).mp hv
      obtain ⟨t, hfits, -⟩ := hd.fits record hrecord
      obtain ⟨s, hs, -⟩ := hfits.id
      exact ⟨s, hs⟩
    obtain ⟨ids, rfl⟩ := exists_texts hroots
    exact ⟨_, entries, ids, hread, rfl,
      (describes_readAs (hread.imp fun _ _ => readRecord_readAs)).mp hd, rfl⟩

theorem readVariables_ok : readVariables v = .ok names ↔
    (v = none ∧ names = [] ∨ v = some (.list (names.map .text))) ∧ names.Nodup ∧ "" ∉ names := by
  have hlist : (v.getD (.list [])).list?.bind (·.mapM Value.text?) = some names ↔
      v = none ∧ names = [] ∨ v = some (.list (names.map .text)) := by
    rcases v with _ | v
    · simp [Value.list?, eq_comm]
    · cases v <;> simp [Value.list?, Value.mapM_text?]
  rw [← hlist]
  unfold readVariables
  split
  · rename_i hnone
    simp [hnone]
  · rename_i found hsome
    have hempty : found.any String.isEmpty = true ↔ "" ∈ found := by simp
    simp only [hsome, Option.some.injEq, eraseDups_length_eq]
    split
    · rename_i he
      simp only [fail_ok, false_iff, not_and, not_not]
      rintro rfl -
      exact hempty.mp he
    · rename_i he
      split
      · rename_i hnodup
        simp only [Except.ok.injEq, iff_self_and]
        rintro rfl
        exact ⟨hnodup, fun h => he (hempty.mpr h)⟩
      · rename_i hdup
        simp only [fail_ok, false_iff, not_and]
        rintro rfl hnodup
        exact (hdup hnodup).elim

theorem read_ok : read registry document = .ok w ↔ ∃ names records roots,
    HasParts document names records roots ∧
      assemble registry names (records.map Draft.ofValue?) roots = .ok w := by
  simp only [read, bind_ok, require_ok, Option.isSome_iff_exists, object?_ok, Value.same_text,
    readVariables_ok]
  constructor
  · rintro ⟨_, hobject, _, hformat, _, hversion, names, ⟨hnames, hnodup, hne⟩, h⟩
    split at h
    · rename_i records hrecords
      simp only [bind_ok, Except.ok.injEq, exists_eq_left'] at h
      split at h
      · rename_i roots hroots
        simp only [bind_ok, Except.ok.injEq, exists_eq_left'] at h
        exact ⟨names, records, roots, ⟨hobject, hformat, hversion, hnames, hnodup, hne, hrecords,
          hroots⟩, h⟩
      · simp [bind_ok] at h
    · simp [bind_ok] at h
  · rintro ⟨names, records, roots, hp, h⟩
    refine ⟨(), hp.object, (), hp.format, (), hp.version, names, ⟨hp.declares, hp.distinct, hp.named⟩,
      ?_⟩
    simp only [hp.blocks, hp.tops, bind_ok, Except.ok.injEq, exists_eq_left']
    exact h

-- ---------------------------------------------------------------------------
-- Refusals
-- ---------------------------------------------------------------------------

/-- A check that, where it fails, finds the document malformed and not a field at fault. -/
def BlamesDocument (x : Except Malformed α) : Prop :=
  ∀ e, x = .error e → Error.ofMalformed e = .malformed e

namespace BlamesDocument

theorem ok : BlamesDocument (.ok a : Except Malformed α) :=
  fun _ h => nomatch h

theorem error (h : Error.ofMalformed e = .malformed e) :
    BlamesDocument (.error e : Except Malformed α) := by
  rintro _ ⟨⟩
  exact h

theorem bind {x : Except Malformed α} {f : α → Except Malformed β} (hx : BlamesDocument x)
    (hf : ∀ a, x = .ok a → BlamesDocument (f a)) : BlamesDocument (x >>= f) := by
  intro e h
  rcases bind_error.mp h with h | ⟨a, ha, h⟩
  · exact hx e h
  · exact hf a ha e h

theorem require (h : Error.ofMalformed e = .malformed e) :
    BlamesDocument (Document.require b e) := by
  rintro _ he
  obtain ⟨-, rfl⟩ := require_error.mp he
  exact h

theorem orElse (h : Error.ofMalformed e = .malformed e) :
    BlamesDocument (Document.orElse o e) := by
  rintro _ he
  obtain ⟨-, rfl⟩ := orElse_error.mp he
  exact h

theorem forM {l : List α} {f : α → Except Malformed Unit} (h : ∀ a ∈ l, BlamesDocument (f a)) :
    BlamesDocument (l.forM f) := by
  intro e he
  obtain ⟨a, ha, he⟩ := forM_error he
  exact h a ha e he

end BlamesDocument

theorem validateFields_blames {t : BlockType} (hw : ∀ nf ∈ t.fields, nf.2.WellTyped) :
    BlamesDocument ((t.validateFields given false).mapError fun e => ⟨.fields e, some block⟩) := by
  intro e he
  obtain ⟨cause, hcause, rfl⟩ := mapError_error.mp he
  have hrefusal := BlockType.validateFields_refusal hw hcause
  cases cause with
  | illTyped => exact (hrefusal.1 rfl).elim
  | unpaired size => exact (hrefusal.2 size rfl).elim
  | _ => rfl

theorem readId_blames : BlamesDocument (readId v) := by
  unfold readId
  split
  · split
    · exact .error rfl
    · exact .ok
  · exact .error rfl

theorem readType_blames : BlamesDocument (readType registry block v) := by
  unfold readType
  split
  · split
    · exact .ok
    · exact .error rfl
  · exact .error rfl

theorem readDeletable_blames : BlamesDocument (readDeletable block t given) := by
  unfold readDeletable
  split
  · exact .ok
  · split
    · exact .error rfl
    · exact .ok
  · exact .error rfl

theorem readRecord_blames (hw : registry.WellTyped) :
    BlamesDocument (readRecord registry names draft) := by
  refine .bind (.orElse rfl) fun draft _ => .bind readId_blames fun block _ =>
    .bind readType_blames fun t ht => .bind (.orElse rfl) fun given _ => ?_
  obtain ⟨type, -, hfind⟩ := readType_ok.mp ht
  exact .bind (validateFields_blames (hw _ t hfind)) fun _ _ =>
    .bind (.forM fun _ _ => .require rfl) fun _ _ => .bind (.orElse rfl) fun _ _ =>
    .bind readDeletable_blames fun _ _ => .ok

theorem readRecords_blames (hw : registry.WellTyped) :
    BlamesDocument (readRecords registry names before drafts) := by
  induction drafts generalizing before with
  | nil => exact .ok
  | cons draft drafts ih =>
    exact .bind (readRecord_blames hw) fun _ _ => .bind (.require rfl) fun _ _ => ih

theorem adopt_blames : BlamesDocument (adopt entries parents parent v) := by
  unfold adopt
  split
  · exact .error rfl
  · split
    · exact .error rfl
    · exact .ok

theorem checkSocket_blames : BlamesDocument (checkSocket parent name child socket) := by
  cases socket <;> exact .require rfl

theorem checkInputs_blames {inputs : Table Value} :
    BlamesDocument (checkInputs entries e parents inputs) := by
  fun_induction checkInputs entries e parents inputs with
  | case1 => exact .ok
  | case2 => exact .error rfl
  | case3 parents _ _ _ _ _ _ ih => exact ih
  | case4 parents _ _ _ _ _ _ ih =>
    exact .bind adopt_blames fun _ _ => .bind checkSocket_blames fun _ _ => ih _

theorem checkNext_blames : BlamesDocument (checkNext entries e parents) := by
  unfold checkNext
  split
  · exact .ok
  · exact .bind (.require rfl) fun _ _ => .bind adopt_blames fun _ _ =>
      .bind (.require rfl) fun _ _ => .ok

theorem checkLinks_blames : BlamesDocument (checkLinks entries parents rest) := by
  induction rest generalizing parents with
  | nil => exact .ok
  | cons e rest ih =>
    exact .bind checkInputs_blames fun _ _ => .bind checkNext_blames fun _ _ => ih

theorem checkEntryPoint_blames : BlamesDocument (checkEntryPoint entries parents) := by
  unfold checkEntryPoint
  split
  · exact .ok
  · exact .require rfl
  · exact .error rfl

theorem reach_blames : BlamesDocument (reach entries reached stack) := by
  fun_induction reach entries reached stack with
  | case1 => exact .ok
  | case2 => exact .error rfl
  | case3 _ _ _ _ _ _ ih => exact ih
  | case4 _ _ _ _ _ ih => exact ih

theorem checkReach_blames : BlamesDocument (checkReach entries roots) := by
  refine .bind reach_blames fun met _ => ?_
  split
  · exact .ok
  · exact .error rfl

theorem checkRoots_blames : BlamesDocument (checkRoots entries parents roots) := by
  unfold checkRoots
  split
  · exact .error rfl
  · exact .bind (.require rfl) fun _ _ =>
      .bind (.forM fun _ _ => .bind (.require rfl) fun _ _ => .require rfl) fun _ _ =>
      .bind checkEntryPoint_blames fun _ _ => .bind checkReach_blames fun _ _ => .ok

theorem assemble_blames (hw : registry.WellTyped) :
    BlamesDocument (assemble registry names drafts roots) :=
  .bind (readRecords_blames hw) fun _ _ => .bind checkLinks_blames fun _ _ =>
    .bind checkRoots_blames fun _ _ => .ok

theorem readVariables_blames : BlamesDocument (readVariables v) := by
  unfold readVariables
  split
  · exact .error rfl
  · split
    · exact .error rfl
    · split
      · exact .ok
      · exact .error rfl

theorem read_blames (hw : registry.WellTyped) : BlamesDocument (read registry document) := by
  refine .bind (.require rfl) fun _ _ => .bind (.require rfl) fun _ _ => .bind (.require rfl)
    fun _ _ => .bind readVariables_blames fun _ _ => ?_
  cases document.member "blocks" with
  | list records =>
    cases document.member "top_blocks" with
    | list roots => exact .bind .ok fun _ _ => .bind .ok fun _ _ => assemble_blames hw
    | _ => exact .bind .ok fun _ _ => .bind (.error rfl) fun _ h => nomatch h
  | _ => exact .bind (.error rfl) fun _ h => nomatch h

-- ---------------------------------------------------------------------------
-- Acceptance
-- ---------------------------------------------------------------------------

/-- A document is read exactly if it is well formed, and every other value is a malformed
document. -/
theorem read_iff_wellFormed (registry : Registry) (hw : registry.WellTyped) (document : Value) :
    ((∃ w, read registry document = .ok w) ↔ WellFormed registry document) ∧
      ∀ e, (read registry document).mapError Error.ofMalformed = .error e →
        ∃ cause, e = .malformed cause := by
  constructor
  · simp only [read_ok, WellFormed, ← assemble_describes]
    constructor
    · rintro ⟨w, names, records, roots, hparts, h⟩
      exact ⟨names, records, roots, hparts, w, h⟩
    · rintro ⟨names, records, roots, hparts, w, h⟩
      exact ⟨w, names, records, roots, hparts, h⟩
  · intro e he
    obtain ⟨cause, hcause, rfl⟩ := mapError_error.mp he
    exact ⟨cause, read_blames hw cause hcause⟩

def delayRecord : Value :=
  .object [("id", "a"), ("type", "arduino_delay"), ("fields", .object [("TIME", .int 5)])]

def delayDocument : Value :=
  .object [("format", .text formatName), ("version", .int 1), ("blocks", .list [delayRecord]),
    ("top_blocks", .list ["a"])]

/-- A block that follows itself, so that it is no root and no root leads to it. -/
def loopDocument : Value :=
  .object [("format", .text formatName), ("version", .int 1),
    ("blocks", .list [.object [("id", "a"), ("type", "arduino_imu_begin"), ("next", "a")]]),
    ("top_blocks", .list [])]

theorem delay_describes : Describes Catalog.registry [] [delayRecord] ["a"] := by
  have htype : ∃ t, HasType Catalog.registry delayRecord t ∧
      t.fields = [("TIME", Catalog.number 1000 (some 1) none)] ∧ t.typeId = "arduino_delay" := by
    rw [Catalog.registry_eq]
    exact ⟨_, ⟨_, rfl, rfl⟩, rfl, rfl⟩
  obtain ⟨t, ht, hfields, hid⟩ := htype
  have hlinks : linksOf delayRecord = [] := rfl
  have hnot : ¬IsEntryRecord Catalog.registry delayRecord := by
    rintro ⟨t', ht', hentry⟩
    rw [← ht.unique ht', hid] at hentry
    simp [entryType] at hentry
  have hadmits : Field.Admits (Catalog.number 1000 (some 1) none) (.int 5) := ⟨_, rfl⟩
  refine ⟨?_, by simp, by simp [hlinks], ?_, by simp, ?_, ?_, ?_⟩
  · rintro record hrecord
    obtain rfl := List.mem_singleton.mp hrecord
    refine ⟨t, ⟨⟨_, rfl⟩, ⟨"a", rfl, by simp⟩, ht, ⟨_, rfl, ?_, ?_⟩, ⟨_, rfl⟩, .inl rfl⟩, ?_, .inl rfl⟩
    · simp [Assoc.names, hfields, Assoc.has, Assoc.find?]
    · rw [hfields]
      exact List.forall_mem_singleton.mpr ⟨_, rfl, hadmits, by rintro ⟨⟩⟩
    · rintro _ _ ⟨⟩
  · intro x hx
    obtain ⟨_, ⟨record, hrecord, -, hlink⟩, -⟩ := TransGen.head'_iff.mp hx
    simp [List.mem_singleton.mp hrecord, hlinks] at hlink
  · intro v
    have hmember : delayRecord.member "id" = .text "a" := rfl
    simp [hlinks, hmember, eq_comm]
  · simp
  · simp [hnot]

theorem read_delay_and_loop : Catalog.registry.WellTyped ∧
    (∃ w, read Catalog.registry delayDocument = .ok w) ∧
    ¬∃ w, read Catalog.registry loopDocument = .ok w := by
  refine ⟨Catalog.registry_wellTyped, ?_, ?_⟩
  · rw [(read_iff_wellFormed _ Catalog.registry_wellTyped _).1]
    exact ⟨[], [delayRecord], ["a"], ⟨⟨_, rfl⟩, rfl, by decide, .inl ⟨rfl, rfl⟩, by simp, by simp,
      rfl, rfl⟩, delay_describes⟩
  · rw [(read_iff_wellFormed _ Catalog.registry_wellTyped _).1]
    rintro ⟨names, records, roots, hparts, hd⟩
    obtain rfl := Value.list.inj hparts.blocks
    exact hd.acyclic "a" (.single ⟨_, List.mem_singleton_self _, rfl, by decide⟩)

end BlockSketch.Document
