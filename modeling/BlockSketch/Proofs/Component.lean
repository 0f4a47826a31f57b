import BlockSketch.Component.Gate
import BlockSketch.Proofs.Value

/-!
# Selections and the gate

A sound selection has no exclusive kind and no id twice. Adding components, one or a list of them,
and taking one out keep it sound, if the ids that are drawn are new. The allowed types follow from
the kinds that are selected, in whatever order and number; where types are known by texts, two sets
of them are compared member by member.
-/

namespace BlockSketch

-- ---------------------------------------------------------------------------
-- Sets of texts
-- ---------------------------------------------------------------------------

namespace Value

variable {items xs ys : List Value}

def AllTexts (items : List Value) : Prop :=
  ∀ v ∈ items, ∃ s, v = .text s

theorem AllTexts.isIn_iff (h : AllTexts xs) (hv : v ∈ xs) : v.isIn items = true ↔ v ∈ items := by
  obtain ⟨s, rfl⟩ := h v hv
  exact text_isIn

theorem mem_distinct_from
    (h : v ∈ items.foldl (fun found v => if v.isIn found then found else found ++ [v]) found) :
    v ∈ found ∨ v ∈ items := by
  induction items generalizing found with
  | nil => exact .inl h
  | cons w items ih =>
    rw [List.foldl_cons] at h
    rcases ih h with hfound | hitems
    · split at hfound
      · exact .inl hfound
      · rcases List.mem_append.mp hfound with hfound | hw
        · exact .inl hfound
        · exact .inr (List.mem_singleton.mp hw ▸ List.mem_cons_self)
    · exact .inr (List.mem_cons_of_mem _ hitems)

theorem isIn_distinct_from (hv : v.isContainer = false)
    (h : v.isIn found = true ∨ v ∈ items) :
    v.isIn (items.foldl (fun found v => if v.isIn found then found else found ++ [v]) found) =
      true := by
  induction items generalizing found with
  | nil => exact h.resolve_right List.not_mem_nil
  | cons w items ih =>
    rw [List.foldl_cons]
    refine ih ?_
    rcases h with hfound | hmem
    · left
      split
      · exact hfound
      · rw [isIn, List.any_append, Bool.or_eq_true]
        exact .inl hfound
    · rcases List.mem_cons.mp hmem with rfl | hmem
      · left
        split
        · assumption
        · simp [isIn, coincides_self hv]
      · exact .inr hmem

theorem mem_of_mem_distinct (h : v ∈ distinct items) : v ∈ items :=
  (mem_distinct_from h).resolve_left List.not_mem_nil

theorem isIn_distinct (hv : v.isContainer = false) (h : v ∈ items) :
    v.isIn (distinct items) = true :=
  isIn_distinct_from hv (.inr h)

theorem mem_distinct (h : AllTexts items) : v ∈ distinct items ↔ v ∈ items := by
  refine ⟨mem_of_mem_distinct, fun hv => ?_⟩
  obtain ⟨s, rfl⟩ := h v hv
  exact text_isIn.mp (isIn_distinct rfl hv)

theorem sameSet_iff (hx : AllTexts xs) (hy : AllTexts ys) :
    sameSet xs ys = true ↔ ∀ v, v ∈ xs ↔ v ∈ ys := by
  simp only [sameSet, Bool.and_eq_true, List.all_eq_true]
  constructor
  · rintro ⟨hxy, hyx⟩ v
    exact ⟨fun hv => (hx.isIn_iff hv).mp (hxy v hv), fun hv => (hy.isIn_iff hv).mp (hyx v hv)⟩
  · intro h
    exact ⟨fun v hv => (hx.isIn_iff hv).mpr ((h v).mp hv),
      fun v hv => (hy.isIn_iff hv).mpr ((h v).mpr hv)⟩

theorem AllTexts.mapM_text? (h : AllTexts items) : ∃ names, items.mapM text? = some names := by
  refine ⟨items.filterMap text?, Value.mapM_text?.mpr ?_⟩
  induction items with
  | nil => rfl
  | cons v items ih =>
    obtain ⟨⟨s, rfl⟩, hitems⟩ := List.forall_mem_cons.mp h
    exact congrArg _ (ih hitems)

theorem AllTexts.sorted?_isSome (h : AllTexts items) : ∃ sorted, sorted? items = some sorted := by
  obtain ⟨names, hmapM⟩ := h.mapM_text?
  unfold sorted?
  split
  · exact ⟨_, rfl⟩
  · exact ⟨_, rfl⟩
  · rw [hmapM]
    exact ⟨_, rfl⟩

end Value

-- ---------------------------------------------------------------------------
-- The gate
-- ---------------------------------------------------------------------------

def Registry.NamesTypes (registry : Registry) : Prop :=
  ∀ t ∈ registry.all, ∃ s, t.typeId = .text s

namespace Gate

variable {registry : Registry} {kinds kinds' : List ComponentKind}

def SameTypes (xs ys : List Value) : Prop :=
  ∀ v, v ∈ xs ↔ v ∈ ys

theorem unlocks_congr (h : ∀ kind, kind ∈ kinds ↔ kind ∈ kinds') :
    unlocks kinds = unlocks kinds' := by
  funext t
  rw [Bool.eq_iff_iff]
  simp only [unlocks, List.any_eq_true, h]

theorem mem_allowedTypes (h : registry.NamesTypes) : v ∈ allowedTypes registry kinds ↔
    v = .text entryType ∨ ∃ t ∈ registry.all, (t.isBase || unlocks kinds t) = true ∧ t.typeId = v := by
  have htexts : Value.AllTexts (.text entryType ::
      (registry.all.filter fun t => t.isBase || unlocks kinds t).map BlockType.typeId) := by
    refine List.forall_mem_cons.mpr ⟨⟨_, rfl⟩, fun v hv => ?_⟩
    obtain ⟨t, ht, rfl⟩ := List.mem_map.mp hv
    exact h t (List.mem_filter.mp ht).1
  rw [allowedTypes, typesWith, Value.mem_distinct htexts]
  simp only [List.mem_cons, List.mem_map, List.mem_filter, and_assoc]

theorem allowedTypes_texts (h : registry.NamesTypes) (kinds : List ComponentKind) :
    Value.AllTexts (allowedTypes registry kinds) := by
  intro v hv
  rcases (mem_allowedTypes h).mp hv with rfl | ⟨t, ht, -, rfl⟩
  · exact ⟨_, rfl⟩
  · exact h t ht

theorem sameSet_allowedTypes (h : registry.NamesTypes) :
    Value.sameSet (allowedTypes registry kinds) (allowedTypes registry kinds') = true ↔
      SameTypes (allowedTypes registry kinds') (allowedTypes registry kinds) := by
  rw [Value.sameSet_iff (allowedTypes_texts h kinds) (allowedTypes_texts h kinds'), SameTypes]
  exact forall_congr' fun v => Iff.comm

theorem inOrder_allowedTypes (h : registry.NamesTypes) (kinds : List ComponentKind) :
    ∃ types, inOrder (allowedTypes registry kinds) = .ok types := by
  obtain ⟨types, htypes⟩ := (allowedTypes_texts h kinds).sorted?_isSome
  exact ⟨types, by rw [inOrder, htypes, Option.elim_some]⟩

theorem allowedTypes_mono (h : registry.NamesTypes) (hkinds : kinds ⊆ kinds') :
    allowedTypes registry kinds ⊆ allowedTypes registry kinds' := by
  intro v hv
  rw [mem_allowedTypes h] at hv ⊢
  refine hv.imp_right ?_
  rintro ⟨t, ht, hfree, rfl⟩
  refine ⟨t, ht, ?_, rfl⟩
  simp only [unlocks, Bool.or_eq_true, List.any_eq_true] at hfree ⊢
  refine hfree.imp_right ?_
  rintro ⟨kind, hkind, hin⟩
  exact ⟨kind, hkinds hkind, hin⟩

/-- Only which kinds are selected decides over the allowed types. -/
theorem allowedTypes_congr (registry : Registry) (h : ∀ kind, kind ∈ kinds ↔ kind ∈ kinds') :
    allowedTypes registry kinds = allowedTypes registry kinds' := by
  rw [allowedTypes, unlocks_congr h, ← allowedTypes]

-- ---------------------------------------------------------------------------
-- Violations
-- ---------------------------------------------------------------------------

def lockedBy (registry : Registry) (kinds : List ComponentKind) (b : Block) : Option Violation :=
  match placeableType registry kinds b.type with
  | .error (.locked v) => some { v with block := some b.id }
  | _ => none

/-- Placed blocks are checked as those that are asked for. -/
theorem violationBy_ok (b : Block) (found : Option Violation) :
    violationBy registry (allowedTypes registry kinds) b = .ok found ↔
      placeableType registry kinds b.type ≠ .error .illTyped ∧ found = lockedBy registry kinds b := by
  unfold lockedBy violationBy placeableType describe isAllowed
  split
  · exact ⟨fun h => (by cases h), fun h => (h.1 rfl).elim⟩
  · cases hfind : registry.find? b.type with
    | none => split <;> simp [bind, Except.bind, eq_comm]
    | some t =>
      by_cases hin : b.type.isIn (allowedTypes registry kinds) = true
      · simp [hin, bind, Except.bind, eq_comm]
      · cases hviolation : violation t b.type with
        | error e =>
          obtain rfl : e = .illTyped := by
            unfold violation at hviolation
            split at hviolation <;> cases hviolation
            rfl
          simp [hin, hviolation, bind, Except.bind]
        | ok v => simp [hin, hviolation, bind, Except.bind, eq_comm]

theorem violations_ok {w : Workspace} : violations registry kinds w = .ok found ↔
    (∀ r ∈ w.allBlocks, placeableType registry kinds (w.block r).type ≠ .error .illTyped) ∧
      found = w.allBlocks.filterMap fun r => lockedBy registry kinds (w.block r) := by
  simp only [violations, bind_ok, Except.ok.injEq,
    mapM_ok fun r found => violationBy_ok (w.block r) found]
  constructor
  · rintro ⟨_, ⟨htyped, rfl⟩, rfl⟩
    exact ⟨htyped, List.filterMap_map⟩
  · rintro ⟨htyped, rfl⟩
    exact ⟨_, ⟨htyped, rfl⟩, List.filterMap_map⟩

end Gate

-- ---------------------------------------------------------------------------
-- Selections
-- ---------------------------------------------------------------------------

namespace Selection

variable {selection selection' : Selection} {request component : Component}
variable {supply supply' : Supply}

theorem mem_kinds {kind : ComponentKind} :
    kind ∈ selection.kinds ↔ ∃ component ∈ selection, component.kind = kind := by
  rw [kinds, List.mem_eraseDups, List.mem_map]

/-- No exclusive kind is selected twice, and no two components go by one id. -/
structure Sound (selection : Selection) : Prop where
  exclusive : ∀ kind, kind.isExclusive = true → (selection.ofKind kind).length ≤ 1
  distinct : selection.Pairwise fun a b => a.id.same b.id = false

theorem sound_nil : Sound [] where
  exclusive _ _ := Nat.zero_le 1
  distinct := .nil

theorem Sound.sublist (h : Sound selection) (hsub : selection'.Sublist selection) :
    Sound selection' where
  exclusive kind hkind := Nat.le_trans (hsub.filter _).length_le (h.exclusive kind hkind)
  distinct := h.distinct.sublist hsub

theorem Sound.remove (h : Sound selection) (id : Value) : Sound (selection.remove id) :=
  h.sublist List.eraseP_sublist

/-- The id that is drawn for a component, if one is drawn, is not that of another one. -/
def DrawsNew (selection : Selection) (supply : Supply) (request : Component) : Prop :=
  request.id.isEmpty = true →
    selection.find? (.text (supply.drawComponentId request.kind).1) = none

def DrawsAllNew (selection : Selection) (supply : Supply) : List Component → Prop
  | [] => True
  | request :: rest => selection.DrawsNew supply request ∧
    ∀ component selection' supply',
      selection.admitComponent request supply = (.ok (component, selection'), supply') →
        DrawsAllNew selection' supply' rest

/-- A component that is admitted was there, or is added under an id of its own. -/
theorem admitComponent_ok
    (h : selection.admitComponent request supply = (.ok (component, selection'), supply')) :
    selection' = selection ∨ selection' = selection ++ [component] ∧
      selection.find? request.id = none ∧
      (request.kind.isExclusive = true → selection.ofKind request.kind = []) ∧
      component.kind = request.kind ∧
      component.id = (chooseId request.kind request.id supply).1 := by
  unfold admitComponent at h
  split at h
  · cases h
    exact .inl rfl
  · rename_i hfind
    split at h
    · cases h
    · rename_i hkind
      cases h
      refine .inr ⟨rfl, hfind, fun hexclusive => ?_, rfl, rfl⟩
      rw [if_pos hexclusive] at hkind
      exact List.head?_eq_none_iff.mp hkind

theorem Sound.add (h : Sound selection) (hfind : selection.find? component.id = none)
    (hkind : component.kind.isExclusive = true → selection.ofKind component.kind = []) :
    Sound (selection ++ [component]) where
  exclusive kind hexclusive := by
    rw [ofKind, List.filter_append, List.length_append]
    by_cases hsame : component.kind = kind
    · subst hsame
      have hnone := hkind hexclusive
      rw [ofKind] at hnone
      rw [hnone]
      simp
    · have hold := h.exclusive kind hexclusive
      rw [ofKind] at hold
      simpa [hsame] using hold
  distinct := by
    refine List.pairwise_append.mpr ⟨h.distinct, List.pairwise_singleton _ _, fun a ha b hb => ?_⟩
    obtain rfl := List.mem_singleton.mp hb
    exact Bool.not_eq_true _ ▸ List.find?_eq_none.mp hfind a ha

theorem Sound.admitComponent (h : Sound selection) (hnew : selection.DrawsNew supply request)
    (hadded : selection.admitComponent request supply = (.ok (component, selection'), supply')) :
    Sound selection' := by
  rcases admitComponent_ok hadded with rfl | ⟨rfl, hfind, hexclusive, hkind, hid⟩
  · exact h
  · refine h.add ?_ (by rwa [hkind])
    rw [hid, chooseId]
    split
    · rename_i hempty
      exact hnew hempty
    · exact hfind

theorem Sound.build (h : Sound selection) (hnew : selection.DrawsAllNew supply requests)
    (hbuild : selection.build supply requests = (.ok selection', supply')) : Sound selection' := by
  induction requests generalizing selection supply with
  | nil =>
    cases hbuild
    exact h
  | cons request requests ih =>
    unfold Selection.build at hbuild
    split at hbuild
    · cases hbuild
    · rename_i hadded
      exact ih (h.admitComponent hnew.1 hadded) (hnew.2 _ _ _ hadded) hbuild

end Selection

end BlockSketch
