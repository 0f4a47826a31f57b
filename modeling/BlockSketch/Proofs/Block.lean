import BlockSketch.Proofs.Value
import Mathlib.Data.List.Forall2

/-!
# Fields and sockets

When a value lies in the domain of a field, when values complete the fields of a type, and when a
block fits into a socket. `validateFields_ok` says exactly when values are taken and what is stored of
them, and `validateFields_refusal` that fields that are well typed are never at fault.
-/

namespace BlockSketch

-- ---------------------------------------------------------------------------
-- One field
-- ---------------------------------------------------------------------------

namespace Field

def Admits (field : Field) (v : Value) : Prop :=
  ∃ stored, field.validate v = .ok stored

def Stores (field : Field) (v : Value) : Prop :=
  field.validate v = .ok v

theorem validateNumber_stored (h : validateNumber field v = .ok n) :
    validateNumber field (.number n) = .ok n := by
  simp only [validateNumber, bind_ok] at h ⊢
  obtain ⟨m, -, h⟩ := h
  refine ⟨n, rfl, ?_⟩
  split at h
  · cases h
  · rename_i hf
    simp only [bind_ok, Except.ok.injEq] at h
    obtain ⟨_, hmin, _, hmax, rfl⟩ := h
    rw [if_neg hf]
    simp only [bind_ok]
    exact ⟨_, hmin, _, hmax, trivial⟩

theorem stores_of_validate (h : validate field v = .ok stored) : field.Stores stored := by
  unfold Stores
  cases hk : field.kind with
  | number =>
    simp only [validate, hk] at h ⊢
    obtain ⟨n, hn, rfl⟩ := map_ok.mp h
    simp only [validateNumber_stored hn, Except.map]
  | dropdown =>
    simp only [validate, hk] at h ⊢
    have heq : v = stored := by
      simp only [validateChoice, bind_ok] at h
      obtain ⟨values, -, h⟩ := h
      split at h
      · exact Except.ok.inj h
      · cases h
    exact heq ▸ h
  | text =>
    simp only [validate, hk] at h ⊢
    split at h <;> cases h
    rfl
  | _ =>
    simp only [validate, hk] at h ⊢
    split at h
    · split at h
      · cases h
      · rename_i s hs
        cases h
        simp [hs]
    · cases h

/-- Choices that are pairs of a label and a text, and bounds that are numbers. -/
def WellTyped (field : Field) : Prop :=
  (∀ choice ∈ field.choices, ∃ label s, choice = [label, .text s]) ∧
    (field.minimum = .null ∨ ∃ n, field.minimum = .number n) ∧
    (field.maximum = .null ∨ ∃ n, field.maximum = .number n)

end Field

/-- A value is refused, not the field that refuses it. -/
def FieldError.IsRefusal (e : FieldError) : Prop :=
  (∀ cause, e ≠ .illDeclared cause) ∧ ∀ size, e ≠ .unpaired size

namespace Field

theorem readNumber_refusal (h : readNumber v = .error e) : e.IsRefusal := by
  unfold readNumber at h
  split at h
  · cases h
  · split at h
    · cases h; exact ⟨by simp, by simp⟩
    · split at h <;> cases h
  · cases h; exact ⟨by simp, by simp⟩

theorem readBound_wellTyped (sign : String) (n : Number)
    (h : bound = .null ∨ ∃ m, bound = .number m) : ∃ o, readBound sign n bound = .ok o := by
  rcases h with rfl | ⟨m, rfl⟩
  · exact ⟨none, rfl⟩
  · exact ⟨some m, rfl⟩

theorem checkMinimum_refusal {field : Field} (hw : field.WellTyped)
    (h : field.checkMinimum n = .error e) : e.IsRefusal := by
  obtain ⟨o, ho⟩ := readBound_wellTyped "<" n hw.2.1
  simp only [checkMinimum, ho, bind_error, reduceCtorEq, Except.ok.injEq, false_or] at h
  obtain ⟨_, -, h⟩ := h
  split at h <;> cases h
  exact ⟨by simp, by simp⟩

theorem checkMaximum_refusal {field : Field} (hw : field.WellTyped)
    (h : field.checkMaximum n = .error e) : e.IsRefusal := by
  obtain ⟨o, ho⟩ := readBound_wellTyped ">" n hw.2.2
  simp only [checkMaximum, ho, bind_error, reduceCtorEq, Except.ok.injEq, false_or] at h
  obtain ⟨_, -, h⟩ := h
  split at h <;> cases h
  exact ⟨by simp, by simp⟩

theorem validateNumber_refusal {field : Field} (hw : field.WellTyped)
    (h : field.validateNumber v = .error e) : e.IsRefusal := by
  simp only [validateNumber, bind_error] at h
  rcases h with h | ⟨n, -, h⟩
  · exact readNumber_refusal h
  · split at h
    · cases h; exact ⟨by simp, by simp⟩
    · simp only [bind_error, reduceCtorEq, and_false, exists_false, or_false] at h
      rcases h with h | ⟨_, -, h⟩
      · exact checkMinimum_refusal hw h
      · exact checkMaximum_refusal hw h

theorem choiceValues_wellTyped {field : Field} (h : field.WellTyped) :
    ∃ names : List String, field.choiceValues = .ok (names.map .text) := by
  unfold choiceValues
  obtain ⟨hc, -⟩ := h
  generalize field.choices = choices at hc
  induction choices with
  | nil => exact ⟨[], rfl⟩
  | cons choice choices ih =>
    obtain ⟨label, s, rfl⟩ := hc choice (by simp)
    obtain ⟨names, hn⟩ := ih fun c hm => hc c (by simp [hm])
    refine ⟨s :: names, ?_⟩
    rw [List.mapM_cons, hn]
    rfl

theorem joinable_texts (position : Nat) (names : List String) :
    Value.joinable position (names.map .text) = .ok names := by
  induction names generalizing position with
  | nil => rfl
  | cons s names ih => simp [Value.joinable, ih, Except.map]

theorem validateChoice_refusal {field : Field} (hw : field.WellTyped)
    (h : field.validateChoice v = .error e) : e.IsRefusal := by
  obtain ⟨names, hn⟩ := choiceValues_wellTyped hw
  simp only [validateChoice, hn, bind_error, reduceCtorEq, Except.ok.injEq, false_or] at h
  obtain ⟨values, rfl, h⟩ := h
  split at h
  · cases h
  · simp only [refuseChoice, joinable_texts, Except.error.injEq] at h
    subst h
    exact ⟨by simp, by simp⟩

theorem validate_refusal {field : Field} (hw : field.WellTyped)
    (h : field.validate v = .error e) : e.IsRefusal := by
  unfold validate at h
  split at h
  · cases hn : field.validateNumber v with
    | ok n => simp [hn, Except.map] at h
    | error e' =>
      simp only [hn, Except.map, Except.error.injEq] at h
      exact h ▸ validateNumber_refusal hw hn
  · exact validateChoice_refusal hw h
  · split at h <;> cases h
    exact ⟨by simp, by simp⟩
  · split at h
    · split at h <;> cases h
      exact ⟨by simp, by simp⟩
    · cases h; exact ⟨by simp, by simp⟩

end Field

-- ---------------------------------------------------------------------------
-- All fields of a type
-- ---------------------------------------------------------------------------

namespace BlockType

/-- What a field gets: the given value as it is stored, or else, if that is allowed, its initial
value. -/
def Filled (fill : Bool) (values : Assoc Value) (name : String) (field : Field) (v : Value) : Prop :=
  (∃ given, values.find? name = some given ∧ field.validate given = .ok v) ∨
    values.find? name = none ∧ fill = true ∧ v = field.initial

/-- Values for the fields of a type, one by one and in their order, each as it is stored. -/
def Stored (t : BlockType) (values : Assoc Value) : Prop :=
  List.Forall₂ (fun nf nv => nv.1 = nf.1 ∧ nf.2.Stores nv.2) t.fields values

theorem Stored.put {t : BlockType} {values : Assoc Value} (h : t.Stored values)
    (hfield : t.fields.find? name = some field) (hv : field.Stores v) :
    t.Stored (values.put name v) := by
  unfold Stored at h ⊢
  generalize t.fields = fields at h hfield
  induction h with
  | nil => simp [Assoc.find?] at hfield
  | @cons nf nv fields values hhead hrest ih =>
    obtain ⟨n, f⟩ := nf
    obtain ⟨m, x⟩ := nv
    obtain ⟨rfl, hx⟩ := hhead
    rw [Assoc.find?_cons] at hfield
    simp only [Assoc.put]
    by_cases hm : m = name
    · subst hm
      rw [if_pos rfl] at hfield ⊢
      cases hfield
      exact .cons ⟨rfl, hv⟩ hrest
    · rw [if_neg (Ne.symm hm)] at hfield
      rw [if_neg hm]
      exact .cons ⟨rfl, hx⟩ (ih hfield)

theorem mem_variableFields {t : BlockType} (hnodup : t.fields.names.Nodup) :
    name ∈ t.variableFields ↔ ∃ field, t.fields.find? name = some field ∧ field.kind = .variable := by
  simp only [variableFields, Assoc.names, List.mem_map, List.mem_filter, beq_iff_eq]
  constructor
  · rintro ⟨⟨n, field⟩, ⟨hmem, hkind⟩, rfl⟩
    exact ⟨field, Assoc.find?_of_mem hnodup hmem, hkind⟩
  · rintro ⟨field, hfind, hkind⟩
    exact ⟨(name, field), ⟨Assoc.find?_mem hfind, hkind⟩, rfl⟩

theorem completeFields_ok {fields : Assoc Field} :
    completeFields type fill values fields = .ok result ↔
      List.Forall₂ (fun nf nv => nv.1 = nf.1 ∧ Filled fill values nf.1 nf.2 nv.2)
        fields result := by
  induction fields generalizing result with
  | nil => simp [completeFields, eq_comm]
  | cons nf fields ih =>
    obtain ⟨name, field⟩ := nf
    have hcons : completeFields type fill values ((name, field) :: fields) = .ok result ↔
        ∃ v, Filled fill values name field v ∧
          ∃ vs, completeFields type fill values fields = .ok vs ∧ (name, v) :: vs = result := by
      cases hv : values.find? name with
      | some given => simp [completeFields, hv, bind_ok, mapError_ok, Filled]
      | none =>
        cases fill
        · simp [completeFields, hv, bind_ok, Filled]
        · simp [completeFields, hv, bind_ok, Filled]
    rw [hcons, List.forall₂_cons_left_iff]
    constructor
    · rintro ⟨v, hv, vs, hvs, rfl⟩
      exact ⟨(name, v), vs, ⟨rfl, hv⟩, ih.mp hvs, rfl⟩
    · rintro ⟨⟨n, v⟩, vs, ⟨rfl, hv⟩, hvs, rfl⟩
      exact ⟨v, hv, vs, ih.mpr hvs, rfl⟩

theorem sortedSet_eq_nil : Text.sortedSet names = [] ↔ names = [] := by
  constructor
  · intro h
    have hlen : (Text.sortedSet names).length = 0 := by simp [h]
    simp only [Text.sortedSet, Text.sorted, List.length_mergeSort, List.length_eq_zero_iff] at hlen
    cases names with
    | nil => rfl
    | cons n ns => simp [List.eraseDups_cons] at hlen
  · rintro rfl
    simp [Text.sortedSet, Text.sorted]

theorem unknownNames_eq_nil {t : BlockType} :
    t.unknownNames names = [] ↔ ∀ name ∈ names, t.fields.has name = true := by
  simp [unknownNames, sortedSet_eq_nil, List.filter_eq_nil_iff]

/-- Exactly when field values are taken, and what is stored of them. -/
theorem validateFields_ok {t : BlockType} :
    t.validateFields values fill = .ok result ↔
      (∀ name ∈ values.names, t.fields.has name = true) ∧
        List.Forall₂ (fun nf nv => nv.1 = nf.1 ∧ Filled fill values nf.1 nf.2 nv.2)
          t.fields result := by
  unfold validateFields
  split
  · rename_i h
    rw [completeFields_ok, ← unknownNames_eq_nil]
    exact ⟨fun hr => ⟨h, hr⟩, fun hr => hr.2⟩
  · rename_i h
    constructor
    · intro hr
      cases hr
    · intro hr
      exact (h (unknownNames_eq_nil.mpr hr.1)).elim

theorem stored_of_filled {t : BlockType}
    (hinitial : fill = true → ∀ nf ∈ t.fields, nf.2.Stores nf.2.initial)
    (h : List.Forall₂ (fun nf nv => nv.1 = nf.1 ∧ Filled fill values nf.1 nf.2 nv.2)
      t.fields result) : t.Stored result := by
  unfold Stored
  generalize t.fields = fields at h hinitial
  induction h with
  | nil => exact .nil
  | @cons nf nv fields result hhead _ ih =>
    refine .cons ⟨hhead.1, ?_⟩ (ih fun hfill nf' hnf' => hinitial hfill nf' (by simp [hnf']))
    rcases hhead.2 with ⟨given, -, hvalidate⟩ | ⟨-, hfill, hv⟩
    · exact Field.stores_of_validate hvalidate
    · rw [hv]
      exact hinitial hfill nf (by simp)

theorem Stored.validateFields {t : BlockType} {values : Assoc Value} (h : t.Stored values)
    (hnodup : t.fields.names.Nodup) (fill : Bool) : t.validateFields values fill = .ok values := by
  have hnames : values.names = t.fields.names :=
    (List.forall₂_eq_eq_eq ▸ List.forall₂_map_left_iff.mpr (List.forall₂_map_right_iff.mpr
      (h.flip.imp fun _ _ hnv => hnv.1)) : List.map Prod.fst values = List.map Prod.fst t.fields)
  obtain ⟨hlength, hzip⟩ := List.forall₂_iff_zip.mp h
  refine validateFields_ok.mpr ⟨fun name hname => ?_, List.forall₂_iff_zip.mpr ⟨hlength, ?_⟩⟩
  · rw [Assoc.has_iff, ← hnames]
    exact hname
  · intro nf nv hmem
    obtain ⟨hname, hstores⟩ := hzip hmem
    refine ⟨hname, .inl ⟨nv.2, ?_, hstores⟩⟩
    rw [← hname]
    exact Assoc.find?_of_mem (hnames ▸ hnodup) (List.of_mem_zip hmem).2

theorem refuseMentioned_ok {fields : Assoc Field}
    (h : refuseMentioned type fill mentions fields = .ok result) :
    result = fields.map fun nf => (nf.1, nf.2.initial) := by
  induction fields generalizing result with
  | nil =>
    cases h
    rfl
  | cons nf fields ih =>
    obtain ⟨name, field⟩ := nf
    simp only [refuseMentioned] at h
    split at h
    · cases h
    · split at h
      · simp only [bind_ok, Except.ok.injEq] at h
        obtain ⟨vs, hvs, rfl⟩ := h
        rw [ih hvs]
        rfl
      · cases h

theorem validateNames_ok {t : BlockType} (hinitial : ∀ nf ∈ t.fields, nf.2.Stores nf.2.initial)
    (h : t.validateNames names mentions fill = .ok result) : t.Stored result := by
  unfold validateNames at h
  split at h
  · rw [refuseMentioned_ok h]
    exact List.forall₂_map_right_iff.mpr
      (List.forall₂_same.mpr fun nf hnf => ⟨rfl, hinitial nf hnf⟩)
  · cases h

theorem validateInput_ok {t : BlockType} (hinitial : ∀ nf ∈ t.fields, nf.2.Stores nf.2.initial)
    (h : t.validateInput v fill = .ok result) : t.Stored result := by
  unfold validateInput at h
  split at h
  · exact stored_of_filled (fun _ => hinitial) (validateFields_ok.mp h).2
  · exact validateNames_ok hinitial h
  · split at h
    · exact validateNames_ok hinitial h
    · cases h
  · cases h

end BlockType

def FieldsError.IsRefusal (e : FieldsError) : Prop :=
  e ≠ .illTyped ∧ ∀ size, e ≠ .unpaired size

theorem FieldsError.ofField_refusal (h : FieldError.IsRefusal e) :
    (FieldsError.ofField type name e).IsRefusal := by
  cases e with
  | illDeclared cause => exact (h.1 cause rfl).elim
  | unpaired size => exact (h.2 size rfl).elim
  | _ => exact ⟨by simp [ofField], by simp [ofField]⟩

namespace BlockType

theorem completeFields_refusal {fields : Assoc Field} (hw : ∀ nf ∈ fields, nf.2.WellTyped)
    (h : completeFields type fill values fields = .error e) : e.IsRefusal := by
  induction fields with
  | nil => cases h
  | cons nf fields ih =>
    obtain ⟨name, field⟩ := nf
    have hrest : completeFields type fill values fields = .error e → e.IsRefusal :=
      ih fun nf hm => hw nf (by simp [hm])
    cases hv : values.find? name with
    | some given =>
      simp only [completeFields, hv, bind_error, mapError_error, reduceCtorEq, and_false,
        exists_false, or_false] at h
      rcases h with ⟨e', he, rfl⟩ | ⟨_, -, h⟩
      · exact FieldsError.ofField_refusal (Field.validate_refusal (hw (name, field) (by simp)) he)
      · exact hrest h
    | none =>
      cases fill
      · simp only [completeFields, hv, bind_error, Bool.false_eq_true, ↓reduceIte] at h
        rcases h with h | ⟨_, h, -⟩
        · cases h; exact ⟨by simp, by simp⟩
        · cases h
      · simp only [completeFields, hv, bind_error, ↓reduceIte, reduceCtorEq, and_false,
          exists_false, or_false, false_or] at h
        obtain ⟨_, -, h⟩ := h
        exact hrest h

theorem validateFields_refusal {t : BlockType} (hw : ∀ nf ∈ t.fields, nf.2.WellTyped)
    (h : t.validateFields values fill = .error e) : e.IsRefusal := by
  unfold validateFields at h
  split at h
  · exact completeFields_refusal hw h
  · cases h; exact ⟨by simp, by simp⟩

end BlockType

def Registry.WellTyped (registry : Registry) : Prop :=
  ∀ type t, registry.find? type = some t → ∀ nf ∈ t.fields, nf.2.WellTyped

-- ---------------------------------------------------------------------------
-- Sockets
-- ---------------------------------------------------------------------------

/-- Whether a block of a type can stand in a socket: a link of a chain in a statement socket, and an
expression of an accepted output in a value socket. -/
def Socket.Fits (t : BlockType) : Socket → Prop
  | .statement _ => t.isLink = true
  | .value s => t.isStatement = false ∧ s.accepts t.output = true

-- ---------------------------------------------------------------------------
-- Registries
-- ---------------------------------------------------------------------------

/-- A registry whose types are found under their own ids and are put together as they should be. -/
structure Registry.Regular (registry : Registry) : Prop where
  typeId : registry.find? v = some t → t.typeId = v ∧ ∃ s, v = .text s
  socketNames : registry.find? v = some t →
    (∀ socket ∈ t.sockets, ∃ s, socket.name = .text s) ∧ (t.sockets.map Socket.name).Nodup
  fieldNames : registry.find? v = some t → t.fields.names.Nodup
  initial : registry.find? v = some t → ∀ nf ∈ t.fields, nf.2.Stores nf.2.initial
  /-- The expression for a socket fits into it and names no variables. -/
  shadow : registry.find? v = some t → Socket.value socket ∈ t.sockets →
    socket.shadow = some given → registry.find? given.type = some u →
      (Socket.value socket).Fits u ∧ u.variableFields = []
  /-- The entry point is a statement outside all chains and cannot be deleted. -/
  entry : registry.find? (.text entryType) = some t →
    t.isStatement = true ∧ t.isLink = false ∧ t.isDeletable = false

theorem Registry.Regular.socket_text (h : Registry.Regular registry)
    (hfind : registry.find? v = some t) (hsocket : t.socket? name = some socket) :
    (∃ s, name = .text s) ∧ socket ∈ t.sockets ∧ socket.name = name := by
  have hmem := List.mem_of_find?_eq_some hsocket
  obtain ⟨s, hs⟩ := (h.socketNames hfind).1 socket hmem
  have hsame := List.find?_some hsocket
  simp only [hs, Value.text_same] at hsame
  exact ⟨⟨s, hsame⟩, hmem, hs.trans hsame.symm⟩

theorem Registry.Regular.socket?_mem (h : Registry.Regular registry)
    (hfind : registry.find? v = some t) (hmem : socket ∈ t.sockets) :
    t.socket? socket.name = some socket := by
  obtain ⟨htexts, hnodup⟩ := h.socketNames hfind
  obtain ⟨s, hs⟩ := htexts socket hmem
  cases hfound : t.socket? socket.name with
  | none =>
    have hother := List.find?_eq_none.mp hfound socket hmem
    exact (hother (by rw [hs, Value.text_same])).elim
  | some other =>
    have hname := (h.socket_text hfind hfound).2.2
    exact congrArg some
      (List.inj_on_of_nodup_map hnodup (List.mem_of_find?_eq_some hfound) hmem hname)

/-- A type has every field once and says by a truth value whether its blocks can be deleted. -/
structure BlockType.Declared (t : BlockType) : Prop where
  fieldNames : t.fields.names.Nodup
  deletable : ∃ b, t.deletable = .bool b

theorem BlockType.Declared.flag {t : BlockType} (h : t.Declared) :
    ∃ b, t.deletable = .bool b ∧ (b = true → t.isDeletable = true) := by
  obtain ⟨b, hb⟩ := h.deletable
  refine ⟨b, hb, ?_⟩
  rintro rfl
  rw [isDeletable, hb]
  rfl

def Registry.Declared (registry : Registry) : Prop :=
  ∀ s t, registry.find? (.text s) = some t → t.typeId = .text s ∧ t.Declared

/-- What is found under a text was put there, under that text, or was found before. -/
theorem Table.find?_of_put {entries : Table α}
    (h : (entries.put key a).find? (.text s) = some x) :
    key = .text s ∧ x = a ∨ entries.find? (.text s) = some x := by
  induction entries with
  | nil =>
    rw [put, find?_cons] at h
    split at h
    · rename_i heq
      exact .inl ⟨Value.coincides_text.mp heq, (Option.some.inj h).symm⟩
    · cases h
  | cons e entries ih =>
    obtain ⟨k, b⟩ := e
    rw [put] at h
    rw [find?_cons]
    split at h
    · rename_i hk
      rw [find?_cons] at h
      split at h
      · rename_i heq
        obtain rfl := Value.coincides_text.mp heq
        exact .inl ⟨Value.text_coincides.mp hk, (Option.some.inj h).symm⟩
      · rename_i hne
        rw [if_neg hne]
        exact .inr h
    · rw [find?_cons] at h
      split at h
      · rename_i heq
        rw [if_pos heq]
        exact .inr h
      · rename_i hne
        rw [if_neg hne]
        exact ih h

namespace Registry

theorem Declared.register {registry : Registry} (h : registry.Declared) (ht : t.Declared)
    (replace : Bool) : (registry.register t replace).2.Declared := by
  intro s u hu
  unfold Registry.register at hu
  split at hu
  · exact h s u hu
  · split at hu
    · exact h s u hu
    · rcases Table.find?_of_put hu with ⟨hid, rfl⟩ | hu
      · exact ⟨hid, ht⟩
      · exact h s u hu

theorem Declared.registerAll {registry : Registry} {types : List BlockType} (h : registry.Declared)
    (ht : ∀ t ∈ types, t.Declared) (replace : Bool) :
    (registry.registerAll replace types).2.Declared := by
  induction types generalizing registry with
  | nil => exact h
  | cons t types ih =>
    obtain ⟨hfirst, hrest⟩ := List.forall_mem_cons.mp ht
    have hregister := h.register hfirst replace
    unfold Registry.registerAll
    split <;> rename_i heq <;> rw [heq] at hregister
    · exact hregister
    · exact ih hregister hrest

theorem ofTypes_declared {types : List BlockType} (h : ∀ t ∈ types, t.Declared) :
    (ofTypes types).Declared := by
  have hempty : Declared {} := by
    intro s t hfind
    cases hfind
  exact hempty.registerAll h false

end Registry

end BlockSketch
