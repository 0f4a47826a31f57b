import BlockSketch.Proofs.Sketch.Failures
import BlockSketch.Proofs.Workspace.Invariant

/-!
# The walk through a forest

In a workspace that keeps the invariant, the walk of a run meets every live block once, each where a
block of its type may stand. So the only faults that are left are about the names of variables, and
about blocks that are nested too deep.
-/

namespace BlockSketch

theorem BlockType.Stored.find? {t : BlockType} {values : Assoc Value} (h : t.Stored values)
    (hf : t.fields.find? name = some f) : ∃ v, values.find? name = some v ∧ f.Stores v := by
  unfold BlockType.Stored at h
  generalize t.fields = fields at h hf
  induction h with
  | nil => cases hf
  | @cons nf nv fields values hhead hrest ih =>
    obtain ⟨_, field⟩ := nf
    obtain ⟨n, v⟩ := nv
    obtain ⟨rfl, hv⟩ := hhead
    rw [Assoc.find?_cons] at hf ⊢
    by_cases hname : name = n
    · rw [if_pos hname] at hf ⊢
      obtain rfl := Option.some.inj hf
      exact ⟨v, rfl, hv⟩
    · rw [if_neg hname] at hf ⊢
      exact ih hf

namespace Sketch

open Workspace (Invariant TypeIs)

seal Catalog.registry

variable {w : Workspace}

-- ---------------------------------------------------------------------------
-- Nesting
-- ---------------------------------------------------------------------------

/-- How many calls deep a block is asked for. A successor is asked for where its chain is. -/
inductive AskedAt (w : Workspace) : Ref → Nat → Prop
  | root (hr : w.Holds .root r) : AskedAt w r 0
  | next (hr : AskedAt w r n) (hc : w.Holds (.next r) c) : AskedAt w c n
  | input (hr : AskedAt w r n) (ht : TypeIs Catalog.registry w r t) (hc : w.Holds (.input r k) c) :
      AskedAt w c (n + callsFor t)

/-- There is room for the calls of all blocks. -/
def Fits (room : Option Nat) (w : Workspace) : Prop :=
  ∀ r n t, AskedAt w r n → TypeIs Catalog.registry w r t → ∀ limit ∈ room, n + callsFor t ≤ limit

theorem fits_unlimited (w : Workspace) : Fits none w :=
  fun _ _ _ _ _ _ hlimit => by cases hlimit

theorem any_lt_eq_false {room : Option Nat} :
    room.any (· < n) = false ↔ ∀ limit ∈ room, n ≤ limit := by
  cases room <;> simp

theorem AskedAt.live (h : AskedAt w r n) : w.Live r := by
  induction h with
  | root hr => exact .root hr
  | next _ hc ih => exact ih.child ⟨_, rfl, hc⟩
  | input _ _ hc ih => exact ih.child ⟨_, rfl, hc⟩

/-- A block is in one slot only, so that it is asked for at one depth. -/
theorem AskedAt.unique (h : Slot.IsForest w.Holds) (hn : AskedAt w r n) (hm : AskedAt w r m) :
    n = m := by
  induction hn generalizing m with
  | root hr =>
    cases hm with
    | root => rfl
    | next _ hc => cases h.unique hr hc
    | input _ _ hc => cases h.unique hr hc
  | next _ hc ih =>
    cases hm with
    | root hr => cases h.unique hr hc
    | next hr' hc' =>
      cases h.unique hc hc'
      exact ih hr'
    | input _ _ hc' => cases h.unique hc hc'
  | input _ ht hc ih =>
    cases hm with
    | root hr => cases h.unique hr hc
    | next _ hc' => cases h.unique hc hc'
    | input hr' ht' hc' =>
      cases h.unique hc hc'
      rw [ih hr', ht.unique ht']

-- ---------------------------------------------------------------------------
-- What is below a block
-- ---------------------------------------------------------------------------

/-- A step meets a block where a block of its type may stand and where it is asked for, or looks at
the names for a live entry point. -/
def Step.Sound (w : Workspace) : Step → Prop
  | .block position r =>
    AskedAt w r position.start ∧ ∃ t, TypeIs Catalog.registry w r t ∧ position.fits t = true
  | .names r => w.Live r ∧ w.isEntry r = true

theorem input?_eq_some {b : Block} (hkeys : Table.TextKeys b.inputs) :
    b.input? (.text k) = some c ↔ (.text k, some c) ∈ b.inputs := by
  rw [Block.input?, Option.join_eq_some_iff, Table.find?_text hkeys]

section
variable (h : Invariant Catalog.registry w) (ht : TypeIs Catalog.registry w r t)
include h ht

theorem held_of_socket (hs : s ∈ t.sockets) :
    (w.block r).input? s.name = some c ↔ w.Holds (.input r s.name) c := by
  obtain ⟨k, hk⟩ := (Catalog.registry_regular.socketNames ht).1 s hs
  rw [hk]
  exact input?_eq_some (h.forest.keys r)

theorem sound_in_socket {position : Position} (hasked : AskedAt w r position.start)
    (hs : s ∈ t.sockets) (hc : (w.block r).input? s.name = some c) :
    (Step.block (.ofSocket ⟨r, position.depth t⟩ s) c).Sound w := by
  have hheld := (held_of_socket h ht hs).mp hc
  have hstart : (Position.ofSocket ⟨r, position.depth t⟩ s).start = position.start + callsFor t := by
    cases s <;> rfl
  refine ⟨hstart ▸ hasked.input ht hheld, ?_⟩
  obtain ⟨t', u, socket, ht', hu, hsocket, hfits⟩ := h.linked.fits hheld
  obtain rfl := ht.unique ht'
  obtain rfl := Option.some.inj
    ((Catalog.registry_regular.socket?_mem ht hs).symm.trans hsocket)
  refine ⟨u, hu, ?_⟩
  cases s with
  | value socket => simp [Position.ofSocket, Position.fits, hfits.1]
  | statement name =>
    have hlink : u.isLink = true := hfits
    rw [BlockType.isLink, Bool.and_eq_true] at hlink
    exact hlink.1

theorem sound_next {position : Position} (hasked : AskedAt w r position.start)
    (hc : (w.block r).next = some c) :
    t.isStatement = true ∧ (Step.block (.statement position.asker?) c).Sound w := by
  have hheld : w.Holds (.next r) c := hc
  obtain ⟨t', u, ht', hu, hlink, hlink'⟩ := h.linked.fits hheld
  obtain rfl := ht.unique ht'
  rw [BlockType.isLink, Bool.and_eq_true] at hlink hlink'
  exact ⟨hlink.1, hasked.next hheld, u, hu, hlink'.1⟩

theorem sockets_perm : (t.sockets.flatMap fun s => ((w.block r).input? s.name).toList).Perm
    ((w.block r).inputs.filterMap Prod.snd) := by
  have hheld : ∀ {s c}, s ∈ t.sockets → c ∈ ((w.block r).input? s.name).toList →
      w.Holds (.input r s.name) c := fun hs hc =>
    (held_of_socket h ht hs).mp (Option.mem_toList.mp hc)
  refine (List.perm_ext_iff_of_nodup ?_ ?_).mpr fun c => ?_
  · have hnames := (Catalog.registry_regular.socketNames ht).2
    rw [List.Nodup, List.pairwise_map] at hnames
    refine List.nodup_flatMap.mpr ⟨fun s _ => ?_, hnames.imp_of_mem fun hs hs' hne c hc hc' => ?_⟩
    · cases (w.block r).input? s.name <;> simp
    · have hslot := h.forest.slots.unique (hheld hs hc) (hheld hs' hc')
      exact hne (by simpa using hslot)
  · exact (List.nodup_append.mp (h.forest.children_nodup r)).1
  · rw [List.mem_flatMap, List.mem_filterMap]
    constructor
    · rintro ⟨s, hs, hc⟩
      exact ⟨(s.name, some c), hheld hs hc, rfl⟩
    · rintro ⟨⟨k, _⟩, hmem, rfl⟩
      obtain ⟨t', socket, ht', hsocket⟩ := h.linked.sockets (Table.mem_keys.mpr ⟨_, hmem⟩)
      obtain rfl := ht.unique ht'
      obtain ⟨-, hs, rfl⟩ := Catalog.registry_regular.socket_text ht hsocket
      exact ⟨socket, hs, Option.mem_toList.mpr ((held_of_socket h ht hs).mpr hmem)⟩

end

-- ---------------------------------------------------------------------------
-- What is met
-- ---------------------------------------------------------------------------

theorem met_flatMap (l : List α) (f : α → List Step) :
    met (l.flatMap f) = l.flatMap fun a => met (f a) :=
  List.filterMap_flatMap ..

theorem met_walk_succ (ht : TypeIs Catalog.registry w r t) (depth : Nat) (position : Position) :
    met (walk w (depth + 1) position r) =
      r :: ((t.sockets.flatMap fun s => ((w.block r).input? s.name).toList.flatMap fun c =>
          met (walk w depth (.ofSocket ⟨r, position.depth t⟩ s) c)) ++
        if position.chains t then (w.block r).next.toList.flatMap fun c =>
          met (walk w depth (.statement position.asker?) c)
        else []) := by
  have hnames : met (if w.isEntry r then [.names r] else []) = [] := by
    split <;> rfl
  have hfind : Catalog.registry.find? (w.block r).type = some t := ht
  rw [walk_succ, hfind]
  show r :: met _ = _
  simp only [met_append, hnames, met_flatMap, List.append_nil, inSocket]
  congr 2
  split
  · exact met_flatMap ..
  · rfl

/-- A walk meets the blocks of a subtree, each once. -/
theorem met_walk_perm (h : Invariant Catalog.registry w)
    (hsound : (Step.block position r).Sound w) (hdepth : w.rank r < depth) :
    (met (walk w depth position r)).Perm (w.subtree r) := by
  induction depth generalizing position r with
  | zero => omega
  | succ depth ih =>
    obtain ⟨hasked, t, ht, hfits⟩ := hsound
    -- The position of a child depends on its socket, but what is met below it does not.
    have hchild : ∀ {position c}, w.Link r c → (Step.block position c).Sound w →
        (met (walk w depth position c)).Perm (w.subtree c) := by
      intro position c hlink hsound
      have hrank := h.forest.rank_lt hlink
      exact ih hsound (by omega)
    have hinputs : (t.sockets.flatMap fun s => ((w.block r).input? s.name).toList.flatMap fun c =>
        met (walk w depth (.ofSocket ⟨r, position.depth t⟩ s) c)).Perm
        (((w.block r).inputs.filterMap Prod.snd).flatMap w.subtree) := by
      refine .trans ?_ ((sockets_perm h ht).flatMap_right w.subtree)
      rw [List.flatMap_assoc]
      refine .flatMap_left _ fun s hs => .flatMap_left _ fun c hc => ?_
      have hc := Option.mem_toList.mp hc
      exact hchild ⟨_, rfl, (held_of_socket h ht hs).mp hc⟩ (sound_in_socket h ht hasked hs hc)
    have hnext : (if position.chains t then (w.block r).next.toList.flatMap fun c =>
          met (walk w depth (.statement position.asker?) c) else []).Perm
        ((w.block r).next.toList.flatMap w.subtree) := by
      cases hsome : (w.block r).next with
      | none => simp
      | some c =>
        obtain ⟨hstatement, hsound⟩ := sound_next h ht hasked hsome
        rw [Position.chains_eq hfits, hstatement]
        simpa using hchild ⟨.next r, rfl, hsome⟩ hsound
    rw [met_walk_succ ht, h.forest.subtree_eq, Workspace.children, List.flatMap_append]
    exact (hinputs.append hnext).cons r

theorem walk_sound (h : Invariant Catalog.registry w) (hsound : (Step.block position r).Sound w) :
    ∀ s ∈ walk w depth position r, s.Sound w := by
  induction depth generalizing position r with
  | zero => exact fun _ hs => (List.not_mem_nil hs).elim
  | succ depth ih =>
    obtain ⟨hasked, t, ht, -⟩ := id hsound
    have hfind : Catalog.registry.find? (w.block r).type = some t := ht
    rw [walk_succ, hfind]
    simp only [List.forall_mem_cons, List.forall_mem_append]
    refine ⟨hsound, ⟨fun s hs => ?_, fun s hs => ?_⟩, fun s hs => ?_⟩
    · obtain ⟨socket, hsocket, hs⟩ := List.mem_flatMap.mp hs
      obtain ⟨c, hc, hs⟩ := List.mem_flatMap.mp hs
      exact ih (sound_in_socket h ht hasked hsocket (Option.mem_toList.mp hc)) s hs
    · split at hs
      · rename_i hentry
        obtain rfl := List.mem_singleton.mp hs
        exact ⟨hasked.live, hentry⟩
      · exact (List.not_mem_nil hs).elim
    · split at hs
      · obtain ⟨c, hc, hs⟩ := List.mem_flatMap.mp hs
        exact ih (sound_next h ht hasked (Option.mem_toList.mp hc)).2 s hs
      · exact (List.not_mem_nil hs).elim

-- ---------------------------------------------------------------------------
-- The whole walk
-- ---------------------------------------------------------------------------

theorem rootOrder_perm (h : w.roots.Nodup) : (rootOrder w).Perm w.roots := by
  unfold rootOrder
  split
  · exact .refl _
  · rename_i entry hentry
    have hmem := List.mem_of_find?_eq_some hentry
    have hfilter : w.roots.filter (· ≠ entry) = w.roots.erase entry := by
      rw [h.erase_eq_filter]
      exact List.filter_congr fun r _ => Bool.eq_iff_iff.mpr (by simp)
    rw [hfilter]
    exact (List.perm_cons_erase hmem).symm

section
variable (h : Invariant Catalog.registry w)
include h

theorem sound_root (hr : r ∈ w.roots) : (Step.block .root r).Sound w := by
  obtain ⟨t, ht⟩ := h.linked.known (h.forest.live_lt (.root hr))
  exact ⟨.root hr, t, ht, rfl⟩

theorem steps_sound : ∀ s ∈ steps w depth, s.Sound w := by
  intro s hs
  obtain ⟨r, hr, hs⟩ := List.mem_flatMap.mp hs
  exact walk_sound h (sound_root h ((rootOrder_perm h.forest.nodup).mem_iff.mp hr)) s hs

theorem sound_of_split (hsplit : steps w depth = before ++ s :: after) : s.Sound w :=
  steps_sound h s (by rw [hsplit]; simp)

theorem met_steps_perm (hdepth : w.blocks.size < depth) :
    (met (steps w depth)).Perm w.allBlocks := by
  have hroots := rootOrder_perm h.forest.nodup
  rw [steps, met_flatMap, Workspace.allBlocks_eq]
  refine .trans (.flatMap_left _ fun r hr => ?_) (hroots.flatMap_right w.subtree)
  exact met_walk_perm h (sound_root h (hroots.mem_iff.mp hr))
    (Nat.lt_of_le_of_lt (w.rank_le r) hdepth)

theorem names_mem_steps (hentry : w.entry? = some entry) (hdepth : 0 < depth) :
    .names entry ∈ steps w depth := by
  have hr := List.mem_of_find?_eq_some hentry
  obtain ⟨-, t, ht, -⟩ := sound_root h hr
  have hfind : Catalog.registry.find? (w.block entry).type = some t := ht
  obtain ⟨depth, rfl⟩ := Nat.exists_eq_succ_of_ne_zero hdepth.ne'
  refine List.mem_flatMap.mpr ⟨entry, (rootOrder_perm h.forest.nodup).mem_iff.mpr hr, ?_⟩
  rw [walk_succ, hfind, List.find?_some hentry]
  simp

theorem entry?_isSome (hlive : w.Live r) (hentry : w.isEntry r = true) :
    w.entry?.isSome = true := by
  have htype : (w.block r).type = .text entryType := by simpa [Workspace.isEntry] using hentry
  have hroot : r ∈ w.roots := h.entry_root Catalog.registry_regular hlive htype
  exact List.find?_isSome.mpr ⟨r, hroot, hentry⟩

/-- No block is met again, so that a block is at fault only for where it is and what it holds. -/
theorem finding_block (hdepth : w.blocks.size < depth)
    (hsplit : steps w depth = before ++ .block position r :: after)
    (ht : TypeIs Catalog.registry w r t) : finding room w before (.block position r) =
      if room.any (· < position.depth t) then some .tooDeep
      else (complaint t (w.block r) w.variableNames (checks t)).map .complaint := by
  have hfind : Catalog.registry.find? (w.block r).type = some t := ht
  obtain ⟨-, t', ht', hfits⟩ := sound_of_split h hsplit
  obtain rfl := ht.unique ht'
  have hnew : r ∉ met before := by
    have hnodup := (met_steps_perm h hdepth).nodup_iff.mpr h.forest.allBlocks_nodup
    rw [hsplit, met_append] at hnodup
    exact fun hr => (List.disjoint_of_nodup_append hnodup) hr List.mem_cons_self
  simp only [finding, hfind, hfits, Bool.not_true, Bool.false_eq_true, if_false, if_neg hnew]

theorem met_of_live (hdepth : w.blocks.size < depth) (hlive : w.Live r) :
    ∃ before position after, steps w depth = before ++ .block position r :: after := by
  have hmet := (met_steps_perm h hdepth).mem_iff.mpr (h.forest.mem_allBlocks.mpr hlive)
  obtain ⟨s, hs, hr⟩ := List.mem_filterMap.mp hmet
  obtain ⟨before, after, hsplit⟩ := List.append_of_mem hs
  cases s with
  | block position r' =>
    obtain rfl := Option.some.inj hr
    exact ⟨before, position, after, hsplit⟩
  | names r' => cases hr

theorem finding_live (hdepth : w.blocks.size < depth)
    (hnone : firstFault room w [] (steps w depth) = none) (hasked : AskedAt w r n)
    (ht : TypeIs Catalog.registry w r t) : (∀ limit ∈ room, n + callsFor t ≤ limit) ∧
      complaint t (w.block r) w.variableNames (checks t) = none := by
  obtain ⟨before, position, after, hsplit⟩ := met_of_live h hdepth hasked.live
  have hfinding := finding_of_firstFault_none hnone hsplit
  rw [List.nil_append, finding_block h hdepth hsplit ht] at hfinding
  obtain ⟨hstart, -⟩ := sound_of_split h hsplit
  obtain rfl := hasked.unique h.forest.slots hstart
  split at hfinding
  · cases hfinding
  · rename_i hroom
    exact ⟨any_lt_eq_false.mp (Bool.not_eq_true _ ▸ hroom), Option.map_eq_none_iff.mp hfinding⟩

theorem firstFault_eq_none_iff (hdepth : w.blocks.size < depth) :
    firstFault room w [] (steps w depth) = none ↔ Fits room w ∧
      (∀ r t, w.Live r → TypeIs Catalog.registry w r t →
        complaint t (w.block r) w.variableNames (checks t) = none) ∧
      (w.entry?.isSome = true → nameComplaint w.variableNames = none) := by
  constructor
  · intro hnone
    refine ⟨fun r n t hasked ht => (finding_live h hdepth hnone hasked ht).1,
      fun r t hlive ht => ?_, fun hentry => ?_⟩
    · obtain ⟨before, position, after, hsplit⟩ := met_of_live h hdepth hlive
      obtain ⟨hasked, -⟩ := sound_of_split h hsplit
      exact (finding_live h hdepth hnone hasked ht).2
    · obtain ⟨entry, hentry⟩ := Option.isSome_iff_exists.mp hentry
      obtain ⟨before, after, hsplit⟩ :=
        List.append_of_mem (names_mem_steps h hentry (Nat.zero_lt_of_lt hdepth))
      exact Option.map_eq_none_iff.mp (finding_of_firstFault_none hnone hsplit)
  · rintro ⟨hfits, hblocks, hnames⟩
    refine Faultless.firstFault fun before s after hsplit => ?_
    have hsound := sound_of_split h (s := s) hsplit
    cases s with
    | block position r =>
      obtain ⟨hasked, t, ht, -⟩ := hsound
      have hroom : room.any (· < position.depth t) = false :=
        any_lt_eq_false.mpr (hfits r _ t hasked ht)
      rw [finding_block h hdepth hsplit ht, hroom, hblocks r t hasked.live ht]
      rfl
    | names r =>
      rw [finding, hnames (entry?_isSome h hsound.1 hsound.2)]
      rfl

end

-- ---------------------------------------------------------------------------
-- Names
-- ---------------------------------------------------------------------------

theorem variable_types : ∀ t ∈ Catalog.blockTypes,
    (t.fields.has "VAR" = true ↔
      t.typeId = .text "variables_get" ∨ t.typeId = .text "variables_set") ∧
      ∀ f, t.fields.find? "VAR" = some f → f.kind = .variable := by
  have hnone : ∀ name, Assoc.find? ([] : Assoc Field) name = none := fun _ => rfl
  simp only [Catalog.blockTypes, List.forall_mem_cons]
  simp [Assoc.has, Assoc.find?_cons, hnone, Catalog.variableField, entryType]

theorem nameComplaint_eq_none {names : List Value} :
    nameComplaint names = none ↔ ∀ v ∈ names, v.text?.any isVariableName = true := by
  simp [nameComplaint]

theorem has_variable_iff (ht : TypeIs Catalog.registry w r t) : t.fields.has "VAR" = true ↔
    (w.block r).type = .text "variables_get" ∨ (w.block r).type = .text "variables_set" := by
  obtain ⟨hmem, hid⟩ := Catalog.find?_registry ht
  rw [hid]
  exact (variable_types t hmem).1

/-- A name is declared that cannot be that of a variable. -/
def DeclaresInvalid (w : Workspace) : Prop :=
  ∃ name, .text name ∈ w.variableNames ∧ isVariableName name = false

/-- A placed block names a variable by a name that cannot be that of one. -/
def UsesInvalid (w : Workspace) : Prop :=
  ∃ r ∈ w.allBlocks,
    ((w.block r).type = .text "variables_get" ∨ (w.block r).type = .text "variables_set") ∧
    ∃ name, (w.block r).fields.find? "VAR" = some (.text name) ∧ isVariableName name = false

section
variable (h : Invariant Catalog.registry w)
include h

section
variable (hlive : w.Live r) (ht : TypeIs Catalog.registry w r t)
include hlive ht

theorem fieldValue_live (hf : t.fields.find? name = some f) :
    ∃ v, (w.block r).fields.find? name = some v ∧ fieldValue t (w.block r) name = .ok v := by
  obtain ⟨v, hv, hstores⟩ := (h.stored (h.forest.live_lt hlive) ht).find? hf
  exact ⟨v, hv, fieldValue_ok.mpr ⟨f, hf, by rw [hv]; exact hstores⟩⟩

theorem variable_live (hvar : t.fields.has "VAR" = true) :
    ∃ name, (w.block r).fields.find? "VAR" = some (.text name) ∧ .text name ∈ w.variableNames ∧
      fieldValue t (w.block r) "VAR" = .ok (.text name) := by
  obtain ⟨f, hf⟩ := Option.isSome_iff_exists.mp hvar
  obtain ⟨v, hfind, hv⟩ := fieldValue_live h hlive ht hf
  have hkind := (variable_types t (Catalog.find?_registry ht).1).2 f hf
  have hfield := (BlockType.mem_variableFields (Catalog.registry_regular.fieldNames ht)).mpr
    ⟨f, hf, hkind⟩
  obtain ⟨v', hdeclared, hfind'⟩ := h.declared hlive ht "VAR" hfield
  obtain rfl := Option.some.inj (hfind.symm.trans hfind')
  obtain ⟨name, rfl⟩ := h.names v hdeclared
  exact ⟨name, hfind, hdeclared, hv⟩

/-- The fields of a live block are in order, so that only the name of its variable can be at
fault. -/
theorem complaint_eq_none : complaint t (w.block r) w.variableNames (checks t) = none ↔
    (t.fields.has "VAR" = true → ∀ name, (w.block r).fields.find? "VAR" = some (.text name) →
      isVariableName name = true) := by
  have hfields : ∀ name ∈ t.fields.names,
      Check.complaint t (w.block r) w.variableNames (.field name) = none := by
    intro name hname
    obtain ⟨f, hf⟩ := Option.isSome_iff_exists.mp (Assoc.find?_isSome.mpr hname)
    obtain ⟨v, -, hv⟩ := fieldValue_live h hlive ht hf
    simp only [Check.complaint, hv]
  have hall : complaint t (w.block r) w.variableNames (checks t) = none ↔
      (t.fields.has "VAR" = true →
        Check.complaint t (w.block r) w.variableNames .variable = none) := by
    rw [complaint, List.findSome?_eq_none_iff, checks, List.forall_mem_append, List.forall_mem_map]
    refine (and_iff_right hfields).trans ?_
    cases t.fields.has "VAR" <;> simp
  rw [hall]
  refine forall_congr' fun hvar => ?_
  obtain ⟨name, hfind, hdeclared, hv⟩ := variable_live h hlive ht hvar
  have hin : (Value.text name).isIn w.variableNames = true := Value.text_isIn.mpr hdeclared
  simp only [Check.complaint, hv, hin, hfind]
  cases hname : isVariableName name <;> simp [Value.text?, hname]

end

theorem nameComplaint_eq_none_iff : nameComplaint w.variableNames = none ↔ ¬DeclaresInvalid w := by
  rw [nameComplaint_eq_none]
  constructor
  · rintro hall ⟨name, hname, hinvalid⟩
    simpa [Value.text?, hinvalid] using hall _ hname
  · intro hnone v hv
    obtain ⟨name, rfl⟩ := h.names v hv
    by_contra hinvalid
    exact hnone ⟨name, hv, by simpa [Value.text?] using hinvalid⟩

theorem complaints_eq_none_iff :
    (∀ r t, w.Live r → TypeIs Catalog.registry w r t →
      complaint t (w.block r) w.variableNames (checks t) = none) ↔ ¬UsesInvalid w := by
  constructor
  · rintro hall ⟨r, hr, htype, name, hfind, hinvalid⟩
    have hlive := h.forest.mem_allBlocks.mp hr
    obtain ⟨t, ht⟩ := h.linked.known (h.forest.live_lt hlive)
    have hvalid := (complaint_eq_none h hlive ht).mp (hall r t hlive ht)
      ((has_variable_iff ht).mpr htype) name hfind
    rw [hinvalid] at hvalid
    cases hvalid
  · intro hnone r t hlive ht
    refine (complaint_eq_none h hlive ht).mpr fun hvar name hfind => ?_
    by_contra hinvalid
    exact hnone ⟨r, h.forest.mem_allBlocks.mpr hlive, (has_variable_iff ht).mp hvar, name, hfind,
      by simpa using hinvalid⟩

/-- A workspace that keeps the invariant is at fault only for its nesting, or for a name. -/
theorem firstFault_eq_none_iff_named (hdepth : w.blocks.size < depth) :
    firstFault room w [] (steps w depth) = none ↔
      Fits room w ∧ ¬(w.entry?.isSome = true ∧ DeclaresInvalid w ∨ UsesInvalid w) := by
  rw [firstFault_eq_none_iff h hdepth, nameComplaint_eq_none_iff h, complaints_eq_none_iff h, not_or,
    not_and, and_comm (b := _ → _)]

theorem UsesInvalid.declares (huses : UsesInvalid w) : DeclaresInvalid w := by
  obtain ⟨r, hr, htype, name, hfind, hinvalid⟩ := huses
  have hlive := h.forest.mem_allBlocks.mp hr
  obtain ⟨t, ht⟩ := h.linked.known (h.forest.live_lt hlive)
  obtain ⟨_, hfind', hdeclared, -⟩ := variable_live h hlive ht ((has_variable_iff ht).mpr htype)
  obtain rfl := Value.text.inj (Option.some.inj (hfind.symm.trans hfind'))
  exact ⟨name, hdeclared, hinvalid⟩

end

end Sketch

end BlockSketch
