import BlockSketch.Block.Catalog
import BlockSketch.Proofs.Block

/-!
# The built-in blocks are regular

What the theorems about documents and workspaces ask of a registry holds of the built-in one.
-/

namespace BlockSketch.Catalog

theorem registry_types : registry.types = blockTypes.map fun t => (t.typeId, t) := by
  rfl

/-- The registry without its registrations, which take long to evaluate. -/
theorem registry_eq : registry = { types := blockTypes.map fun t => (t.typeId, t) } := by
  have htypes := registry_types
  generalize registry = r at htypes ⊢
  rw [← htypes]

/-- The registry finds what is in the list of its types, where a lookup is quickly evaluated. -/
theorem registry_find? (v : Value) :
    registry.find? v = Table.find? (blockTypes.map fun t => (t.typeId, t)) v := by
  rw [Registry.find?, registry_types]

theorem registry_null : registry.find? .null = none := by
  rw [registry_find?]
  rfl

theorem typeId_text : ∀ t ∈ blockTypes, ∃ s, t.typeId = .text s := by
  simp only [blockTypes, List.forall_mem_cons]
  simp

theorem find?_registry (h : registry.find? v = some t) : t ∈ blockTypes ∧ v = t.typeId := by
  simp only [Registry.find?, Table.find?, registry_types, Option.map_eq_some_iff] at h
  obtain ⟨⟨k, _⟩, hfind, rfl⟩ := h
  obtain ⟨t, ht, heq⟩ := List.mem_map.mp (List.mem_of_find?_eq_some hfind)
  obtain ⟨rfl, rfl⟩ := Prod.mk.inj heq
  obtain ⟨s, hs⟩ := typeId_text t ht
  have hk := List.find?_some hfind
  simp only [hs, Value.text_coincides] at hk
  exact ⟨ht, hk.trans hs.symm⟩

-- ---------------------------------------------------------------------------
-- Fields
-- ---------------------------------------------------------------------------

theorem labelled_wellTyped (choices : List (String × String)) : (labelled choices).WellTyped := by
  refine ⟨?_, .inl rfl, .inl rfl⟩
  simp only [labelled, List.mem_map]
  rintro _ ⟨⟨label, s⟩, -, rfl⟩
  exact ⟨_, s, rfl⟩

theorem number_wellTyped (initial : Int) (minimum maximum : Option Int) :
    (number initial minimum maximum).WellTyped := by
  refine ⟨by simp [number], ?_, ?_⟩
  · cases minimum with
    | none => exact .inl rfl
    | some n => exact .inr ⟨_, rfl⟩
  · cases maximum with
    | none => exact .inl rfl
    | some n => exact .inr ⟨_, rfl⟩

theorem plain_wellTyped (kind : FieldKind) (initial : Value) :
    Field.WellTyped { kind, initial } :=
  ⟨by simp, .inl rfl, .inl rfl⟩

theorem registry_wellTyped : registry.WellTyped := by
  intro v t h
  have hall : ∀ t ∈ blockTypes, ∀ nf ∈ t.fields, nf.2.WellTyped := by
    simp only [blockTypes, List.forall_mem_cons]
    simp [choice, pin, variableField, labelled_wellTyped, number_wellTyped, plain_wellTyped]
  exact hall t (find?_registry h).1

theorem choiceValues_labelled (choices : List (String × String)) :
    (labelled choices).choiceValues = .ok (choices.map fun c => .text c.2) := by
  simp only [Field.choiceValues, labelled]
  induction choices with
  | nil => rfl
  | cons c choices ih =>
    simp only [List.map_cons, List.mapM_cons, ih]
    rfl

theorem labelled_validate {choices : List (String × String)} :
    (labelled choices).validate v = .ok v' ↔ v' = v ∧ ∃ c ∈ choices, v = .text c.2 := by
  have hkind : (labelled choices).kind = .dropdown := rfl
  have hin : v.isIn (choices.map fun c => .text c.2) = true ↔ ∃ c ∈ choices, v = .text c.2 := by
    simp [Value.isIn]
  simp only [Field.validate, hkind, Field.validateChoice, choiceValues_labelled, bind_ok,
    Except.ok.injEq, exists_eq_left', ← hin]
  cases v.isIn (choices.map fun c => .text c.2) <;> simp [eq_comm]

theorem labelled_stores (c : String × String) (cs : List (String × String)) :
    (labelled (c :: cs)).Stores (labelled (c :: cs)).initial :=
  labelled_validate.mpr ⟨rfl, c, by simp, rfl⟩

theorem number_validate {minimum maximum : Option Int}
    (h : (number initial minimum maximum).validate v = .ok v') :
    ∃ n, v' = .number n ∧ n.isFinite = true ∧ ∀ m ∈ minimum, n.less (.int m) = false := by
  have hkind : (number initial minimum maximum).kind = .number := rfl
  simp only [Field.validate, hkind, map_ok, Field.validateNumber, bind_ok] at h
  obtain ⟨n, ⟨_, -, h⟩, rfl⟩ := h
  split at h
  · cases h
  · rename_i hfinite
    simp only [bind_ok] at h
    obtain ⟨⟨⟩, hmin, ⟨⟩, -, h⟩ := h
    obtain rfl := Except.ok.inj h
    refine ⟨_, rfl, by simpa using hfinite, ?_⟩
    rintro m rfl
    rw [← Bool.not_eq_true]
    intro hless
    simp [Field.checkMinimum, Field.readBound, number, Value.ofOption, Value.number?, bind_ok,
      hless] at hmin

theorem number_stores {minimum maximum : Option Int} (hmin : ∀ m ∈ minimum, m ≤ initial)
    (hmax : ∀ m ∈ maximum, initial ≤ m) :
    (number initial minimum maximum).Stores (number initial minimum maximum).initial := by
  have hlow : (number initial minimum maximum).checkMinimum (.int initial) = .ok () := by
    cases minimum with
    | none => rfl
    | some m =>
      have hle := hmin m rfl
      simp [Field.checkMinimum, Field.readBound, number, Value.ofOption, Value.number?, bind_ok,
        Number.less_int, hle]
  have hhigh : (number initial minimum maximum).checkMaximum (.int initial) = .ok () := by
    cases maximum with
    | none => rfl
    | some m =>
      have hle := hmax m rfl
      simp [Field.checkMaximum, Field.readBound, number, Value.ofOption, Value.number?, bind_ok,
        Number.less_int, hle]
  simp only [Field.Stores, Field.validate, number, Field.validateNumber]
  simp only [number] at hlow hhigh
  simp [Field.readNumber, Number.isFinite, hlow, hhigh, map_ok, bind_ok]

theorem initial_stored : ∀ t ∈ blockTypes, ∀ nf ∈ t.fields, nf.2.Stores nf.2.initial := by
  have htext : Field.Stores { kind := .text, initial := .text "" } (.text "") := rfl
  have hvariable : Field.Stores { kind := .variable, initial := .text "item" } (.text "item") := rfl
  simp only [blockTypes, List.forall_mem_cons]
  simp [choice, pin, variableField, labelled_stores, number_stores, htext, hvariable]

-- ---------------------------------------------------------------------------
-- Types
-- ---------------------------------------------------------------------------

theorem names_distinct : ∀ t ∈ blockTypes, (∀ socket ∈ t.sockets, ∃ s, socket.name = .text s) ∧
    (t.sockets.map Socket.name).Nodup ∧ t.fields.names.Nodup := by
  simp only [blockTypes, List.forall_mem_cons]
  simp [Socket.name, Assoc.names]

/-- The expressions that sockets are filled with are plain values of an accepted output. -/
theorem literal_text : ∀ t ∈ blockTypes, ∀ s, Socket.value s ∈ t.sockets →
    ∃ code, s.literal = .text code := by
  simp only [blockTypes, List.forall_mem_cons]
  simp

theorem shadow_fits : ∀ t ∈ blockTypes, ∀ socket, Socket.value socket ∈ t.sockets →
    ∀ given, socket.shadow = some given → ∃ u, registry.find? given.type = some u ∧
      (Socket.value socket).Fits u ∧ u.variableFields = [] ∧ u.isBase = true := by
  have htext : ∃ u, registry.find? (.text "text") = some u ∧ u.isStatement = false ∧
      u.output = .text "String" ∧ u.variableFields = [] ∧ u.isBase = true := by
    rw [registry_find?]
    exact ⟨_, rfl, rfl, rfl, rfl, rfl⟩
  have hnumber : ∃ u, registry.find? (.text "math_number") = some u ∧ u.isStatement = false ∧
      u.output = .text "Number" ∧ u.variableFields = [] ∧ u.isBase = true := by
    rw [registry_find?]
    exact ⟨_, rfl, rfl, rfl, rfl, rfl⟩
  obtain ⟨u, hu, hustatement, huoutput, hufields, hubase⟩ := htext
  obtain ⟨n, hn, hnstatement, hnoutput, hnfields, hnbase⟩ := hnumber
  simp only [blockTypes, List.forall_mem_cons]
  simp [hu, hn, Socket.Fits, ValueSocket.accepts, hustatement, huoutput, hufields, hubase,
    hnstatement, hnoutput, hnfields, hnbase]

theorem registry_regular : registry.Regular where
  typeId h := by
    obtain ⟨ht, rfl⟩ := find?_registry h
    exact ⟨rfl, typeId_text _ ht⟩
  socketNames h := by
    obtain ⟨htexts, hnodup, -⟩ := names_distinct _ (find?_registry h).1
    exact ⟨htexts, hnodup⟩
  fieldNames h := (names_distinct _ (find?_registry h).1).2.2
  initial h := initial_stored _ (find?_registry h).1
  shadow h hsocket hgiven hu := by
    obtain ⟨u', hu', hfits, hfields, -⟩ := shadow_fits _ (find?_registry h).1 _ hsocket _ hgiven
    obtain rfl := Option.some.inj (hu.symm.trans hu')
    exact ⟨hfits, hfields⟩
  entry h := by
    have hentry : ∃ t, registry.find? (.text entryType) = some t ∧ t.isStatement = true ∧
        t.isLink = false ∧ t.isDeletable = false := by
      rw [registry_find?]
      exact ⟨_, rfl, rfl, rfl, rfl⟩
    obtain ⟨t, ht, hfacts⟩ := hentry
    obtain rfl := Option.some.inj (h.symm.trans ht)
    exact hfacts

theorem registry_declared : registry.Declared := by
  refine Registry.ofTypes_declared fun t ht => ⟨(names_distinct t ht).2.2, ?_⟩
  have hall : ∀ t ∈ blockTypes, ∃ b, t.deletable = .bool b := by
    simp only [blockTypes, List.forall_mem_cons]
    simp
  exact hall t ht

end BlockSketch.Catalog
