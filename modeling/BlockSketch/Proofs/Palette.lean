import BlockSketch.Palette
import BlockSketch.Proofs.Catalog
import BlockSketch.Proofs.Component
import BlockSketch.Proofs.FirstOccurrences

/-!
# What the palette offers

The categories of the palette are filled in three ways: sections with fixed types ask the registry,
components go through the registered types, and the presets of variables only ask whether their
types are allowed. All of them agree with the gate, whatever was registered and taken out before
(`Registry.Edited`): what is offered can be placed. In turn every type that a selected kind unlocks
is offered, under that kind, and so is every built-in type that is always available.
-/

namespace BlockSketch

-- ---------------------------------------------------------------------------
-- Edited registries
-- ---------------------------------------------------------------------------

namespace Registry

/-- What becomes of the built-in registry when types are added, replaced and taken out. -/
inductive Edited : Registry → Prop
  | builtIn : Edited Catalog.registry
  | register (h : Edited registry) (t : BlockType) (replace : Bool) :
      Edited (registry.register t replace).2
  | unregister (h : Edited registry) (type : Value) : Edited (registry.unregister type).2

variable {registry : Registry} {t : BlockType}

/-- The ids of types can be keys, and every type stands under one that coincides with its own: a
type that replaces another one takes over the key. -/
def Filed (registry : Registry) : Prop :=
  ∀ e ∈ registry.types, e.2.typeId.isContainer = false ∧ e.1.coincides e.2.typeId = true

theorem builtIn_filed : Catalog.registry.Filed := by
  intro e he
  rw [Catalog.registry_types] at he
  obtain ⟨t, ht, rfl⟩ := List.mem_map.mp he
  obtain ⟨s, hs⟩ := Catalog.typeId_text t ht
  have hkey : t.typeId.isContainer = false := by rw [hs]; rfl
  exact ⟨hkey, Value.coincides_self hkey⟩

theorem Filed.register (h : registry.Filed) (t : BlockType) (replace : Bool) :
    (registry.register t replace).2.Filed := by
  unfold Registry.register
  split
  · exact h
  · rename_i hkey
    rw [Bool.not_eq_true] at hkey
    split
    · exact h
    · intro e he
      rcases Table.mem_put_cases he with he | ⟨rfl, heq | hcoincides⟩
      · exact h e he
      · exact ⟨hkey, by rw [heq]; exact Value.coincides_self hkey⟩
      · exact ⟨hkey, hcoincides⟩

theorem Filed.unregister (h : registry.Filed) (type : Value) :
    (registry.unregister type).2.Filed :=
  fun e he => h e (List.mem_filter.mp he).1

theorem Edited.filed (h : registry.Edited) : registry.Filed := by
  induction h with
  | builtIn => exact builtIn_filed
  | register _ t replace ih => exact ih.register t replace
  | unregister _ type ih => exact ih.unregister type

theorem Filed.isKey (h : registry.Filed) (ht : t ∈ registry.all) :
    t.typeId.isContainer = false := by
  obtain ⟨e, he, rfl⟩ := List.mem_map.mp ht
  exact (h e he).1

theorem Filed.has (h : registry.Filed) (ht : t ∈ registry.all) : registry.has t.typeId = true := by
  obtain ⟨e, he, rfl⟩ := List.mem_map.mp ht
  rw [Registry.has, Table.has, Table.find?, Option.isSome_map, List.find?_isSome]
  exact ⟨e, he, (h e he).2⟩

end Registry

-- ---------------------------------------------------------------------------
-- The gate
-- ---------------------------------------------------------------------------

namespace Gate

variable {registry : Registry} {kinds : List ComponentKind} {p : BlockType → Bool}

theorem mem_typesWith (h : v ∈ typesWith registry p) :
    v = .text entryType ∨ ∃ t ∈ registry.all, p t = true ∧ t.typeId = v := by
  rcases List.mem_cons.mp (Value.mem_of_mem_distinct h) with rfl | h
  · exact .inl rfl
  · obtain ⟨t, ht, rfl⟩ := List.mem_map.mp h
    obtain ⟨ht, hp⟩ := List.mem_filter.mp ht
    exact .inr ⟨t, ht, hp, rfl⟩

theorem isIn_typesWith (h : registry.Filed) (ht : t ∈ registry.all) (hp : p t = true) :
    t.typeId.isIn (typesWith registry p) = true :=
  Value.isIn_distinct (h.isKey ht)
    (List.mem_cons_of_mem _ (List.mem_map_of_mem (List.mem_filter.mpr ⟨ht, hp⟩)))

theorem unlocked_isIn (h : registry.Filed) (hkind : kind ∈ kinds) (ht : t ∈ registry.all)
    (hin : Value.isIn (.text kind.name) t.capabilities = true) :
    t.typeId.isIn (allowedTypes registry kinds) = true := by
  refine isIn_typesWith h ht ?_
  rw [Bool.or_eq_true, unlocks, List.any_eq_true]
  exact .inr ⟨kind, hkind, hin⟩

theorem placeableType_ok (hkey : type.isContainer = false) (hknown : registry.has type = true)
    (hallowed : type.isIn (allowedTypes registry kinds) = true) :
    ∃ t, placeableType registry kinds type = .ok t := by
  obtain ⟨t, ht⟩ := Option.isSome_iff_exists.mp hknown
  have hfind : registry.find? type = some t := ht
  refine ⟨t, ?_⟩
  simp [placeableType, describe, isAllowed, hkey, hfind, hallowed, bind, Except.bind]

end Gate

-- ---------------------------------------------------------------------------
-- What is offered can be placed
-- ---------------------------------------------------------------------------

namespace Palette

variable {registry : Registry} {kinds : List ComponentKind} {allowed variableNames : List Value}

def Placeable (registry : Registry) (kinds : List ComponentKind) (category : PaletteCategory) :
    Prop :=
  ∀ entry ∈ category.entries, ∃ t, Gate.placeableType registry kinds entry.type = .ok t

theorem sectionCategory_placeable (s : Section) :
    Placeable registry kinds (sectionCategory registry (Gate.allowedTypes registry kinds) s) := by
  intro entry hentry
  obtain ⟨type, htype, rfl⟩ := List.mem_map.mp hentry
  obtain ⟨hallowed, hknown⟩ := Bool.and_eq_true_iff.mp (List.mem_filter.mp htype).2
  exact Gate.placeableType_ok rfl hknown hallowed

theorem componentCategory_placeable (h : registry.Filed) (kind : ComponentKind) :
    Placeable registry kinds
      (componentCategory registry (Gate.allowedTypes registry kinds) kind) := by
  intro entry hentry
  obtain ⟨t, ht, rfl⟩ := List.mem_map.mp hentry
  obtain ⟨ht, hoffered⟩ := List.mem_filter.mp ht
  exact Gate.placeableType_ok (h.isKey ht) (h.has ht) (Bool.and_eq_true_iff.mp hoffered).2

/-- The presets do not ask the registry, but nothing else than the entry point is allowed without
being registered. -/
theorem variablesCategory_placeable (h : registry.Filed) (variableNames : List Value) :
    Placeable registry kinds
      (variablesCategory (Gate.allowedTypes registry kinds) variableNames) := by
  intro entry hentry
  obtain ⟨name, -, hentry⟩ := List.mem_flatMap.mp hentry
  obtain ⟨type, htype, rfl⟩ := List.mem_map.mp hentry
  obtain ⟨hpreset, hallowed⟩ := List.mem_filter.mp htype
  obtain ⟨s, rfl, hs⟩ : ∃ s, type = .text s ∧ s ≠ entryType := by
    rcases List.mem_pair.mp hpreset with rfl | rfl
    · exact ⟨_, rfl, by decide⟩
    · exact ⟨_, rfl, by decide⟩
  rcases Gate.mem_typesWith (Value.text_isIn.mp hallowed) with heq | ⟨t, ht, -, heq⟩
  · exact absurd (Value.text.inj heq) hs
  · exact Gate.placeableType_ok rfl (heq ▸ h.has ht) hallowed

theorem mem_build : category ∈ build registry allowed kinds variableNames ↔
    category = sectionCategory registry allowed basics ∨
      (∃ kind ∈ kinds, componentCategory registry allowed kind = category) ∨
      (∃ s ∈ sections, sectionCategory registry allowed s = category) ∧ category.entries ≠ [] ∨
      category = variablesCategory allowed variableNames := by
  simp only [build, List.cons_append, List.mem_cons, List.mem_append, List.mem_map,
    List.mem_filter, List.mem_eraseDups, List.not_mem_nil, or_false, or_assoc, Bool.not_eq_true',
    List.isEmpty_eq_false_iff]

theorem build_placeable (h : registry.Filed)
    (hcategory : category ∈
      build registry (Gate.allowedTypes registry kinds) kinds variableNames) :
    Placeable registry kinds category := by
  rcases mem_build.mp hcategory with rfl | ⟨kind, -, rfl⟩ | ⟨⟨s, -, rfl⟩, -⟩ | rfl
  · exact sectionCategory_placeable basics
  · exact componentCategory_placeable h kind
  · exact sectionCategory_placeable s
  · exact variablesCategory_placeable h variableNames

-- ---------------------------------------------------------------------------
-- What is allowed is offered
-- ---------------------------------------------------------------------------

theorem section_offers {s : Section} (hs : s ∈ basics :: sections) (htype : type ∈ s.types)
    (hallowed : Value.isIn (.text type) allowed = true)
    (hknown : registry.has (.text type) = true) :
    ∃ category ∈ build registry allowed kinds variableNames,
      .text type ∈ category.entries.map PaletteEntry.type := by
  have hentry : ⟨.text type, presetFields type⟩ ∈ (sectionCategory registry allowed s).entries :=
    List.mem_map_of_mem (List.mem_filter.mpr ⟨htype, Bool.and_eq_true_iff.mpr ⟨hallowed, hknown⟩⟩)
  refine ⟨sectionCategory registry allowed s, mem_build.mpr ?_, List.mem_map_of_mem hentry⟩
  rcases List.mem_cons.mp hs with rfl | hs
  · exact .inl rfl
  · exact .inr (.inr (.inl ⟨⟨s, hs, rfl⟩, List.ne_nil_of_mem hentry⟩))

/-- The sections cover what is always available, apart from the blocks of variables. -/
theorem base_listed : ∀ t ∈ Catalog.blockTypes, t.isBase = true →
    t.typeId ≠ .text "variables_get" → t.typeId ≠ .text "variables_set" →
      ∃ s ∈ basics :: sections, ∃ type ∈ s.types, t.typeId = .text type := by
  simp only [Catalog.blockTypes, List.forall_mem_cons]
  simp [BlockType.isBase, baseCapability, Catalog.unlockedBy, ComponentKind.name, basics, sections]

theorem baseTypes_listed (hv : v ∈ Gate.baseTypes Catalog.registry)
    (hget : v ≠ .text "variables_get") (hset : v ≠ .text "variables_set") :
    ∃ s ∈ basics :: sections, ∃ type ∈ s.types, v = .text type := by
  rcases Gate.mem_typesWith hv with rfl | ⟨t, ht, hbase, rfl⟩
  · exact ⟨basics, List.mem_cons_self, entryType, List.mem_cons_self, rfl⟩
  · have hall : Catalog.registry.all = Catalog.blockTypes := by
      rw [Registry.all, Catalog.registry_types, List.map_map]
      exact List.map_id _
    exact base_listed t (hall ▸ ht) hbase hget hset

theorem componentCategory_types (h : registry.Filed) (hkind : kind ∈ kinds) :
    (componentCategory registry (Gate.allowedTypes registry kinds) kind).entries.map
        PaletteEntry.type =
      (registry.all.filter fun t => Value.isIn (.text kind.name) t.capabilities).map
        BlockType.typeId := by
  rw [componentCategory, List.map_map]
  refine congrArg _ (List.filter_congr fun t ht => ?_)
  cases hin : Value.isIn (.text kind.name) t.capabilities with
  | false => rfl
  | true => rw [Bool.true_and, Gate.unlocked_isIn h hkind ht hin]

-- ---------------------------------------------------------------------------
-- The categories of components
-- ---------------------------------------------------------------------------

def isComponent (category : PaletteCategory) : Bool :=
  ComponentKind.all.any (·.title == category.name)

theorem componentCategory_isComponent (kind : ComponentKind) :
    isComponent (componentCategory registry allowed kind) = true := by
  cases kind <;> rfl

theorem sectionCategory_isComponent {s : Section} (hs : s ∈ basics :: sections) :
    isComponent (sectionCategory registry allowed s) = false := by
  have hnames : ∀ s ∈ basics :: sections,
      ComponentKind.all.any (·.title == s.name) = false := by
    decide
  exact hnames s hs

theorem build_components (variableNames : List Value) :
    (build registry allowed kinds variableNames).filter isComponent =
      kinds.eraseDups.map (componentCategory registry allowed) := by
  have hcomponents : (kinds.eraseDups.map (componentCategory registry allowed)).filter isComponent =
      kinds.eraseDups.map (componentCategory registry allowed) := by
    refine List.filter_eq_self.mpr fun category hcategory => ?_
    obtain ⟨kind, -, rfl⟩ := List.mem_map.mp hcategory
    exact componentCategory_isComponent kind
  have hsections : ((sections.map (sectionCategory registry allowed)).filter
      (!·.entries.isEmpty)).filter isComponent = [] := by
    refine List.filter_eq_nil_iff.mpr fun category hcategory => ?_
    obtain ⟨s, hs, rfl⟩ := List.mem_map.mp (List.mem_filter.mp hcategory).1
    simp [sectionCategory_isComponent (List.mem_cons_of_mem _ hs)]
  have hbasics : isComponent (sectionCategory registry allowed basics) = false :=
    sectionCategory_isComponent List.mem_cons_self
  have hvariables : isComponent (variablesCategory allowed variableNames) = false := rfl
  simp [build, hcomponents, hsections, hbasics, hvariables]

/-- The palette and the gate agree. Whatever is offered can be placed. The categories named after
components belong one to one to the selected kinds, in the order in which each was first selected,
and list all the types that their kind unlocks. Of the types that are always available from the
start, those that are still registered and allowed are offered, apart from the blocks of variables,
which are offered for each variable. -/
theorem build_agrees_with_gate (h : registry.Edited) (kinds : List ComponentKind)
    (variableNames : List Value) :
    let allowed := Gate.allowedTypes registry kinds
    let categories := build registry allowed kinds variableNames
    (∀ category ∈ categories, ∀ entry ∈ category.entries,
      ∃ t, Gate.placeableType registry kinds entry.type = .ok t) ∧
    (∃ order : List ComponentKind, (∀ kind, kind ∈ order ↔ kind ∈ kinds) ∧
      order.Pairwise (fun a b => kinds.idxOf a < kinds.idxOf b) ∧
      List.Forall₂ (fun kind category => category.name = kind.title ∧
          category.entries.map PaletteEntry.type =
            (registry.all.filter fun t => Value.isIn (.text kind.name) t.capabilities).map
              BlockType.typeId)
        order (categories.filter isComponent)) ∧
    (∀ v ∈ Gate.baseTypes Catalog.registry, v ≠ .text "variables_get" →
      v ≠ .text "variables_set" → registry.has v = true → v.isIn allowed = true →
        ∃ category ∈ categories, v ∈ category.entries.map PaletteEntry.type) := by
  intro allowed categories
  have hfiled := h.filed
  refine ⟨fun category hcategory => build_placeable hfiled hcategory,
    ⟨kinds.eraseDups, fun kind => List.mem_eraseDups, eraseDups_inOrder kinds, ?_⟩, ?_⟩
  · rw [build_components, List.forall₂_map_right_iff, List.forall₂_same]
    exact fun kind hkind => ⟨rfl, componentCategory_types hfiled (List.mem_eraseDups.mp hkind)⟩
  · intro v hv hget hset hknown hallowed
    obtain ⟨s, hs, type, htype, rfl⟩ := baseTypes_listed hv hget hset
    exact section_offers hs htype hallowed hknown

/-- The built-in registry without delays, with a buzzer that comes with an LED, and with texts that
a button has to unlock. -/
def reworked : Registry :=
  let withoutDelay := (Catalog.registry.unregister (.text "arduino_delay")).2
  let withBuzzer := (withoutDelay.register
    { typeId := .text "buzzer", shape := .statement, capabilities := [.text "led"] } false).2
  (withBuzzer.register
    { typeId := .text "text", shape := .expression, capabilities := [.text "button"] } true).2

theorem reworked_offers :
    let kinds : List ComponentKind := [.button, .led, .button]
    let categories := build reworked (Gate.allowedTypes reworked kinds) kinds [.text "count"]
    reworked.Edited ∧
    (∀ category ∈ categories, ∀ entry ∈ category.entries,
      ∃ t, Gate.placeableType reworked kinds entry.type = .ok t) ∧
    (categories.filter isComponent).map PaletteCategory.name = ["Button", "LED"] ∧
    ∃ category ∈ categories, .text "text" ∈ category.entries.map PaletteEntry.type := by
  have hedited : reworked.Edited :=
    ((Registry.Edited.builtIn.unregister _).register _ _).register _ _
  obtain ⟨hplaceable, -, hbase⟩ :=
    build_agrees_with_gate hedited [.button, .led, .button] [.text "count"]
  have htext : .text "text" ∈ Gate.baseTypes Catalog.registry := Value.text_isIn.mp rfl
  exact ⟨hedited, hplaceable, rfl, hbase _ htext (by simp) (by simp) rfl rfl⟩

end Palette

end BlockSketch
