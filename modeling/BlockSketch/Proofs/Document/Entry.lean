import BlockSketch.Proofs.Block

/-!
# Records by themselves

What it takes for a single record to be read, and what a list of records is read as. The links of a
record play no part here.
-/

namespace BlockSketch.Document

theorem find?_ok {entries : List Entry} (hn : (entries.map Entry.id).Nodup) :
    find? entries block = some e ↔ e ∈ entries ∧ e.id = block := by
  constructor
  · intro h
    exact ⟨List.mem_of_find?_eq_some h, by simpa using List.find?_some h⟩
  · rintro ⟨he, rfl⟩
    induction entries with
    | nil => simp at he
    | cons e' entries ih =>
      obtain ⟨hnew, hrest⟩ := List.nodup_cons.mp hn
      rcases List.mem_cons.mp he with rfl | he
      · simp [find?]
      · have hne : e'.id ≠ e.id := by
          intro h
          exact hnew (h ▸ List.mem_map_of_mem he)
        simpa [find?, hne] using ih hrest he

theorem eq_of_id {entries : List Entry} (hn : (entries.map Entry.id).Nodup) (he : e ∈ entries)
    (he' : e' ∈ entries) (h : e.id = e'.id) : e = e' := by
  have hfind := (find?_ok hn).mpr ⟨he, h⟩
  rw [(find?_ok hn).mpr ⟨he', rfl⟩] at hfind
  exact (Option.some.inj hfind).symm

-- ---------------------------------------------------------------------------
-- One record
-- ---------------------------------------------------------------------------

theorem readId_ok : readId v = .ok block ↔ v = .text block ∧ block ≠ "" := by
  unfold readId
  split
  · rename_i s
    split
    · rename_i hs
      simp only [String.isEmpty_iff] at hs
      subst hs
      simp +contextual
    · rename_i hs
      simp only [String.isEmpty_iff] at hs
      simp only [Except.ok.injEq, Value.text.injEq]
      exact ⟨fun h => ⟨h, h ▸ hs⟩, fun h => h.1⟩
  · rename_i hv
    simp only [fail_ok, false_iff, not_and]
    rintro rfl
    exact (hv block rfl).elim

theorem readType_ok : readType registry block v = .ok t ↔
    ∃ type, v = .text type ∧ registry.find? (.text type) = some t := by
  unfold readType
  split
  · rename_i type
    split
    · rename_i u hu
      simp [hu]
    · rename_i hu
      simp [hu]
  · rename_i hv
    simp only [failAt_ok, false_iff, not_exists, not_and]
    intro type h
    exact (hv type h).elim

theorem readDeletable_ok : readDeletable block t given = .ok v ↔
    given = none ∧ v = t.deletable ∨
      ∃ b, given = some (.bool b) ∧ (b = true → t.isDeletable = true) ∧ v = .bool b := by
  unfold readDeletable
  split
  · simp only [Except.ok.injEq, true_and, reduceCtorEq, false_and, exists_false, or_false]
    exact eq_comm
  · rename_i b
    split
    · rename_i hb
      simp only [Bool.and_eq_true, Bool.not_eq_true'] at hb
      simp [hb.1, hb.2]
    · rename_i hb
      simp only [Bool.and_eq_true, Bool.not_eq_true', not_and, Bool.not_eq_false] at hb
      simp only [Except.ok.injEq, reduceCtorEq, false_and, Option.some.injEq, Value.bool.injEq,
        false_or]
      constructor
      · rintro rfl
        exact ⟨b, rfl, hb, rfl⟩
      · rintro ⟨_, rfl, -, rfl⟩
        rfl
  · rename_i hv
    simp only [failAt_ok, reduceCtorEq, false_and, Option.some.injEq, false_or, false_iff]
    rintro ⟨b, rfl, -⟩
    exact hv b rfl

theorem checkVariables_ok {fields : Assoc Value} : checkVariables block t names fields = .ok u ↔
    ∀ field ∈ t.variableFields, ∃ name ∈ names, fields.find? field = some (.text name) := by
  simp only [checkVariables, forM_ok, require_ok]
  refine forall_congr' fun field => imp_congr_right fun _ => ?_
  cases hv : fields.find? field with
  | none => simp [Value.text?]
  | some v => cases v <;> simp [Value.text?]

structure Reads (registry : Registry) (names : List String) (draft : Draft) (e : Entry) :
    Prop where
  id : draft.id = .text e.id
  named : e.id ≠ ""
  type : ∃ type, draft.type = .text type ∧ registry.find? (.text type) = some e.type
  fields : ∃ given, draft.fields = .object given ∧
    e.type.validateFields given false = .ok e.fields ∧
    ∀ field ∈ e.type.variableFields, ∃ name ∈ names, Assoc.find? given field = some (.text name)
  inputs : draft.inputs = some e.inputs
  next : draft.next = e.next
  deletable : draft.deletable = none ∧ e.deletable = e.type.deletable ∨
    ∃ b, draft.deletable = some (.bool b) ∧ (b = true → e.type.isDeletable = true) ∧
      e.deletable = .bool b

theorem object?_ok {v : Value} : v.object? = some members ↔ v = .object members := by
  cases v <;> simp [Value.object?]

theorem readRecord_ok : readRecord registry names draft = .ok e ↔
    ∃ d, draft = some d ∧ Reads registry names d e := by
  simp only [readRecord, bind_ok, orElse_ok, readId_ok, readType_ok, mapError_ok, checkVariables_ok,
    readDeletable_ok, object?_ok, Except.ok.injEq]
  constructor
  · rintro ⟨d, rfl, id, ⟨hid, hne⟩, t, ht, given, hg, fields, hf, _, hv, inputs, hi, del, hd, rfl⟩
    exact ⟨d, rfl, hid, hne, ht, ⟨given, hg, hf, hv⟩, hi, rfl, hd⟩
  · rintro ⟨d, rfl, hid, hne, ht, ⟨given, hg, hf, hv⟩, hi, hnext, hd⟩
    refine ⟨d, rfl, e.id, ⟨hid, hne⟩, e.type, ht, given, hg, e.fields, hf, (), hv, e.inputs, hi,
      e.deletable, hd, ?_⟩
    simp [hnext]

-- ---------------------------------------------------------------------------
-- All records
-- ---------------------------------------------------------------------------

theorem exists_mem_left {R : α → β → Prop} (h : List.Forall₂ R l l') (hb : b ∈ l') :
    ∃ a ∈ l, R a b := by
  induction h with
  | nil => simp at hb
  | cons hab _ ih =>
    rcases List.mem_cons.mp hb with rfl | hb
    · exact ⟨_, by simp, hab⟩
    · obtain ⟨a, ha, hab⟩ := ih hb
      exact ⟨a, by simp [ha], hab⟩

theorem exists_mem_right {R : α → β → Prop} (h : List.Forall₂ R l l') (ha : a ∈ l) :
    ∃ b ∈ l', R a b :=
  exists_mem_left h.flip ha

theorem nodup_ids_concat {before : List Entry} : ((before ++ [e]).map Entry.id).Nodup ↔
    (before.map Entry.id).Nodup ∧ before.any (·.id == e.id) = false := by
  simp [List.map_append, List.nodup_append, List.any_eq_false]

theorem readRecords_ok {before : List Entry} (hn : (before.map Entry.id).Nodup) :
    readRecords registry names before drafts = .ok entries ↔
      ∃ es, entries = before ++ es ∧ ((before ++ es).map Entry.id).Nodup ∧
        List.Forall₂ (fun draft e => readRecord registry names draft = .ok e) drafts es := by
  induction drafts generalizing before with
  | nil =>
    simp only [readRecords, Except.ok.injEq, List.forall₂_nil_left_iff]
    constructor
    · rintro rfl
      exact ⟨[], by simp, by simpa using hn, rfl⟩
    · rintro ⟨es, rfl, -, rfl⟩
      simp
  | cons draft drafts ih =>
    simp only [readRecords, bind_ok, require_ok, Bool.not_eq_true', List.forall₂_cons_left_iff]
    constructor
    · rintro ⟨e, he, _, hnew, h⟩
      obtain ⟨es, rfl, hnodup, hes⟩ := (ih (nodup_ids_concat.mpr ⟨hn, hnew⟩)).mp h
      exact ⟨e :: es, by simp, by simpa using hnodup, e, es, he, hes, rfl⟩
    · rintro ⟨_, rfl, hnodup, e, es, he, hes, rfl⟩
      have hsplit : before ++ e :: es = (before ++ [e]) ++ es := by simp
      rw [hsplit] at hnodup
      have hne : ((before ++ [e]).map Entry.id).Nodup := by
        rw [List.map_append] at hnodup
        exact (List.nodup_append.mp hnodup).1
      exact ⟨e, he, (), (nodup_ids_concat.mp hne).2, (ih hne).mpr ⟨es, hsplit, hnodup, hes⟩⟩

/-- The first record that is refused decides. -/
theorem readRecords_error {before : List Entry}
    (hread : List.Forall₂ (fun draft e => readRecord registry names draft = .ok e) drafts es)
    (hn : ((before ++ es).map Entry.id).Nodup)
    (hbad : readRecord registry names draft = .error error) :
    readRecords registry names before (drafts ++ draft :: rest) = .error error := by
  induction hread generalizing before with
  | nil =>
    simp only [List.nil_append, readRecords, hbad]
    rfl
  | @cons _ e _ es he _ ih =>
    have hsplit : before ++ e :: es = (before ++ [e]) ++ es := by simp
    rw [hsplit] at hn
    have hfirst : ((before ++ [e]).map Entry.id).Nodup := by
      rw [List.map_append] at hn
      exact (List.nodup_append.mp hn).1
    have hnew : require (!before.any (·.id == e.id)) ⟨.duplicateId, some e.id⟩ = .ok () :=
      require_ok.mpr (by simp only [(nodup_ids_concat.mp hfirst).2, Bool.not_false])
    simp only [List.cons_append, readRecords, he, bind, Except.bind, hnew]
    exact ih hn

end BlockSketch.Document
