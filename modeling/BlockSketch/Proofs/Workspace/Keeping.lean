import BlockSketch.Proofs.Workspace.Placing

/-!
# What edits leave in place

Edits other than deletions lose no block: a block that is moved, or displaced by another one, gets a
place again. None of them changes what a block is, and the blocks that they add are as their types
ask.
-/

namespace BlockSketch

open Ancestry
open Relation (ReflTransGen TransGen)

theorem Slot.Live.mono {H H' : Slot → Ref → Prop} (hsub : ∀ s c, H s c → H' s c)
    (h : Live H r) : Live H' r := by
  obtain ⟨root, hroot, hpath⟩ := h
  exact ⟨root, hsub _ _ hroot, path_mono hsub hpath⟩

namespace Workspace

variable {w w' : Workspace} {registry : Registry} {given : Value}

/-- Blocks each of which is a root or stands in another one of them are live: going up from block to
block ends. -/
theorem Forest.live_of_held (h : Forest w) {S : Ref → Prop}
    (hS : ∀ x, S x → w.Holds .root x ∨ ∃ p, S p ∧ w.Link p x) (hx : S x) : w.Live x := by
  have hlt : ∀ y, S y → y ∈ List.range w.blocks.size := by
    intro y hy
    rw [List.mem_range]
    rcases hS y hy with hroot | ⟨p, -, s, -, hs⟩
    · exact h.bounded hroot
    · exact h.bounded hs
  suffices hall : ∀ y : { y // y ∈ List.range w.blocks.size }, S y → w.Live y from
    hall ⟨x, hlt x hx⟩ hx
  intro y
  induction y using (h.slots.acyclic.wellFounded _).induction with
  | h y ih =>
    intro hy
    rcases hS y hy with hroot | ⟨p, hp, hlink⟩
    · exact .root hroot
    · exact (ih ⟨p, hlt p hp⟩ (.single hlink) hp).child hlink

-- ---------------------------------------------------------------------------
-- What blocks are
-- ---------------------------------------------------------------------------

/-- A new block: its type says whether it can be deleted, and its id is empty only if that was
given. -/
structure IsNew (registry : Registry) (given : Value) (w : Workspace) (r : Ref) : Prop where
  flag : ∃ t, TypeIs registry w r t ∧ (w.block r).deletable = t.deletable
  named : (w.block r).id = .text "" → given = .text ""

/-- Every block is what it was or new, and no variable without a name is new. -/
structure Carries (registry : Registry) (given : Value) (w w' : Workspace) : Prop where
  size : w.blocks.size ≤ w'.blocks.size
  type : r < w.blocks.size → (w'.block r).type = (w.block r).type
  id : r < w.blocks.size → (w'.block r).id = (w.block r).id
  deletable : r < w.blocks.size → (w'.block r).deletable = (w.block r).deletable
  new : w.blocks.size ≤ r → r < w'.blocks.size → IsNew registry given w' r
  names : .text "" ∈ w'.variableNames → .text "" ∈ w.variableNames

theorem Carries.isNew (h : Carries registry given w w') (hr : r < w.blocks.size)
    (hnew : IsNew registry given w r) : IsNew registry given w' r := by
  obtain ⟨⟨t, ht, hflag⟩, hnamed⟩ := hnew
  refine ⟨⟨t, ?_, (h.deletable hr).trans hflag⟩, fun hid => hnamed ((h.id hr).symm.trans hid)⟩
  rw [TypeIs, h.type hr]
  exact ht

theorem Carries.trans (h : Carries registry given w w') (h' : Carries registry given w' w'') :
    Carries registry given w w'' where
  size := Nat.le_trans h.size h'.size
  type hr := (h'.type (Nat.lt_of_lt_of_le hr h.size)).trans (h.type hr)
  id hr := (h'.id (Nat.lt_of_lt_of_le hr h.size)).trans (h.id hr)
  deletable hr := (h'.deletable (Nat.lt_of_lt_of_le hr h.size)).trans (h.deletable hr)
  new {r} hle hr := by
    by_cases hlt : r < w'.blocks.size
    · exact h'.isNew hlt (h.new hle hlt)
    · exact h'.new (Nat.le_of_not_lt hlt) hr
  names hv := h.names (h'.names hv)

theorem SameContent.carries (h : SameContent w w') : Carries registry given w w' where
  size := Nat.le_of_eq h.size.symm
  type _ := h.type
  id _ := h.id
  deletable _ := h.deletable
  new hle hr := (Nat.not_lt_of_le hle (h.size ▸ hr)).elim
  names hv := h.names ▸ hv

theorem SameLinks.carries (h : SameLinks w w')
    (hnames : .text "" ∈ w'.variableNames → .text "" ∈ w.variableNames) :
    Carries registry given w w' where
  size := Nat.le_of_eq h.size.symm
  type _ := h.type _
  id _ := h.id _
  deletable _ := h.deletable _
  new hle hr := (Nat.not_lt_of_le hle (h.size ▸ hr)).elim
  names := hnames

theorem alloc_carries (hbare : IsBare registry b t) (hid : b.id = .text "" → given = .text "")
    (w : Workspace) : Carries registry given w (w.alloc b).2 where
  size := by
    rw [alloc_size]
    exact Nat.le_succ _
  type hr := by rw [block_alloc_of_lt hr]
  id hr := by rw [block_alloc_of_lt hr]
  deletable hr := by rw [block_alloc_of_lt hr]
  new {r} hle hr := by
    rw [alloc_size] at hr
    obtain rfl : r = w.blocks.size := Nat.le_antisymm (Nat.le_of_lt_succ hr) hle
    have hblock : (w.alloc b).2.block w.blocks.size = b := by rw [block_alloc, if_pos rfl]
    refine ⟨⟨t, typeIs_alloc hbare, ?_⟩, ?_⟩ <;> rw [hblock]
    · exact hbare.flag
    · exact hid
  names hv := hv

/-- An edit that loses no block and changes none. -/
structure Retains (registry : Registry) (given : Value) (w w' : Workspace) : Prop where
  carries : Carries registry given w w'
  live : w.Live x → w'.Live x

theorem Retains.refl (w : Workspace) : Retains registry given w w :=
  ⟨(SameContent.refl w).carries, fun hx => hx⟩

theorem Retains.trans (h : Retains registry given w w') (h' : Retains registry given w' w'') :
    Retains registry given w w'' :=
  ⟨h.carries.trans h'.carries, fun hx => h'.live (h.live hx)⟩

theorem SameLinks.retains (h : SameLinks w w')
    (hnames : .text "" ∈ w'.variableNames → .text "" ∈ w.variableNames) :
    Retains registry given w w' :=
  ⟨h.carries hnames, h.live.mpr⟩

-- ---------------------------------------------------------------------------
-- Moving blocks
-- ---------------------------------------------------------------------------

/-- A live block other than one that was cut out is a root or stands in a live block. -/
theorem live_cutOut (h : Forest w) (hr : w.Live r) (hx : w.Live x) (hne : x ≠ r) :
    (w.cutOut r).Holds .root x ∨ ∃ p s, w.Live p ∧ s.parent? = some p ∧ (w.cutOut r).Holds s x := by
  rcases hx.cases with hroot | ⟨p, hp, s, hs, hc⟩
  · exact .inl ((holds_cutOut h hr).mpr ⟨hroot, hne⟩)
  · exact .inr ⟨p, s, hp, hs, (holds_cutOut h hr).mpr ⟨hc, hne⟩⟩

theorem detach_retains (h : Invariant registry w) (hregular : registry.Regular)
    (hdetach : w.detach v = .ok (moved, w')) : Retains registry given w w' := by
  simp only [Workspace.detach, bind_ok, locate_ok, h.findBlock?_ok, Except.ok.injEq] at hdetach
  obtain ⟨r, ⟨hr, -⟩, heq⟩ := hdetach
  split at heq
  · cases heq
    exact .refl w
  · rename_i hroot
    cases heq
    have hrewires := Rewires.detach h hregular hr (isRoot_iff.not.mp hroot)
    refine ⟨hrewires.content.carries, hrewires.linked.forest.live_of_held fun x hx => ?_⟩
    by_cases hne : x = r
    · exact .inl (holds_addRoot.mpr (.inr ⟨rfl, hne⟩))
    · rcases live_cutOut h.forest hr hx hne with hroot | ⟨p, s, hp, hs, hc⟩
      · exact .inl (holds_addRoot.mpr (.inl hroot))
      · exact .inr ⟨p, hp, s, hs, holds_addRoot.mpr (.inl hc)⟩

section

variable {place : Option Value} (h : Linked registry w) (henter : CanEnter registry w r p place)
include h henter

theorem enter_here : (w.fill p place (some r)).Holds (slotAt p place) r :=
  (holds_enter h henter _ _).mpr (.inl ⟨rfl, rfl⟩)

theorem enter_kept (hc : w.Holds s c) :
    (w.fill p place (some r)).Holds s c ∨ w.Holds (slotAt p place) c := by
  by_cases hs : s = slotAt p place
  · exact .inr (hs ▸ hc)
  · exact .inl ((holds_enter h henter s c).mpr (.inr ⟨hs, hc⟩))

theorem enter_path (hpath : ReflTransGen (w.fill p place (some r)).Link r x) :
    ReflTransGen w.Link r x := by
  rcases Relation.reflTransGen_iff_eq_or_transGen.mp hpath with rfl | hpath
  · exact .refl
  · have hlink : ∀ a b, (w.fill p place (some r)).Link a b → w.Link a b ∨ a = p ∧ b = r := by
      rintro a b ⟨s, hs, hb⟩
      rcases (holds_enter h henter s b).mp hb with ⟨rfl, rfl⟩ | ⟨-, hb⟩
      · exact .inr ⟨Option.some.inj (hs.symm.trans (slotAt_parent p place)), rfl⟩
      · exact .inl ⟨s, hs, hb⟩
    rcases path_of_extra hlink hpath with hpath | ⟨-, hpath⟩
    · exact hpath.to_reflTransGen
    · exact hpath

end

/-- What was in a slot when blocks were put into it has another place: among the roots, or behind a
block that went in. -/
structure Rehoused (w w' : Workspace) (r p : Ref) (place : Option Value) : Prop where
  here : w'.Holds (slotAt p place) r
  kept : w.Holds s c → w'.Holds s c ∨ w'.Holds .root c ∨
    ∃ e, w'.Holds (.next e) c ∧ ReflTransGen w.Link r e

theorem chainIn_rehoused {place : Option Value} (h : Linked registry w)
    (henter : CanEnter registry w r p place)
    (hr : TypeIs registry w r t) (ht : t.isLink = true) :
    Rehoused w (w.chainIn r p place) r p place := by
  have h' := h.enter henter
  have hcontent := fun d => contentAt_eq_some (d := d) (h.forest.keys p) henter.socket.named
  obtain ⟨hend, hpath, hlt, -⟩ := chainEnd_enter h henter hr ht
  have hlt' := (fill_size w p place (some r)).symm ▸ hlt
  -- Nothing stood behind the end of the chain.
  have hnext : ∀ {s c}, (w.fill p place (some r)).Holds s c →
      s ≠ .next ((w.fill p place (some r)).chainEnd r) := by
    rintro s c hc rfl
    exact nomatch hend.symm.trans hc
  have hholds := fun s c => holds_fill (s := s) (c := c) hlt' (h'.forest.keys _)
    (placeOf_next registry w p).named (w.contentAt p place)
  have hsame : ∀ {s c}, (w.fill p place (some r)).Holds s c → (w.chainIn r p place).Holds s c :=
    fun hc => (hholds _ _).mpr (.inr ⟨hnext hc, hc⟩)
  refine ⟨hsame (enter_here h henter), fun {s c} hc => ?_⟩
  rcases enter_kept h henter hc with hc | hc
  · exact .inl (hsame hc)
  · refine .inr (.inr ⟨_, (hholds _ _).mpr (.inl ⟨rfl, (hcontent c).mpr hc⟩), ?_⟩)
    exact enter_path h henter hpath

theorem operandIn_rehoused (h : Linked registry w)
    (henter : CanEnter registry w r p (some socket)) :
    Rehoused w (w.attach r p (.operand socket)) r p (some socket) := by
  have hcontent := fun d => contentAt_eq_some (d := d) (h.forest.keys p) henter.socket.named
  rw [attach_operand]
  cases hd : w.contentAt p (some socket) with
  | none =>
    refine ⟨enter_here h henter, fun {s c} hc => ?_⟩
    rcases enter_kept h henter hc with hc | hc
    · exact .inl hc
    · rw [(hcontent c).mpr hc] at hd
      cases hd
  | some d =>
    refine ⟨holds_addRoot.mpr (.inl (enter_here h henter)), fun {s c} hc => ?_⟩
    rcases enter_kept h henter hc with hc | hc
    · exact .inl (holds_addRoot.mpr (.inl hc))
    · obtain rfl := Option.some.inj (((hcontent c).mpr hc).symm.trans hd)
      exact .inr (.inl (holds_addRoot.mpr (.inr ⟨rfl, rfl⟩)))

section

variable (h : Invariant registry w) (hregular : registry.Regular) (hr : w.Live r) (hp : w.Live p)
  (hup : ¬ReflTransGen w.Link r p) (ht : TypeIs registry w r t) (hu : TypeIs registry w p u)
  (htarget : TargetFits t u socket target)
include h hregular hr hp hup ht hu htarget

theorem attach_rehoused :
    Rehoused (w.cutOut r) ((w.cutOut r).attach r p target) r p target.place := by
  have h' := h.linked.cutOut hr
  have hsame := cutOut_content h.linked hr
  have henter := canEnter_cutOut h hregular hr hp hup ht hu htarget
  cases target with
  | next =>
    rw [attach_next]
    exact chainIn_rehoused h' henter (hsame.typeIs.mpr ht) htarget.2
  | body name =>
    rw [attach_body]
    exact chainIn_rehoused h' henter (hsame.typeIs.mpr ht) htarget.2.1
  | operand name => exact operandIn_rehoused h' henter

theorem attach_retains : Retains registry given w ((w.cutOut r).attach r p target) := by
  have hrewires := Rewires.connect h hregular hr hp hup ht hu htarget
  have hhoused := attach_rehoused h hregular hr hp hup ht hu htarget
  have hback : ∀ s c, (w.cutOut r).Holds s c → w.Holds s c := fun _ _ hc =>
    ((holds_cutOut h.forest hr).mp hc).1
  refine ⟨hrewires.content.carries, hrewires.linked.forest.live_of_held fun x hx => ?_⟩
  -- Whatever slot held `x` before, it has one that is a root or belongs to a block that was live.
  have hmoved : ∀ s, (w.cutOut r).Holds s x → (∀ q, s.parent? = some q → w.Live q) →
      Holds ((w.cutOut r).attach r p target) .root x ∨
        ∃ q, w.Live q ∧ Link ((w.cutOut r).attach r p target) q x := by
    intro s hs hparent
    rcases hhoused.kept hs with hs | hroot | ⟨e, he, hpath⟩
    · cases hq : s.parent? with
      | none =>
        cases s with
        | root => exact .inl hs
        | next q => cases hq
        | input q k => cases hq
      | some q => exact .inr ⟨q, hparent q hq, s, hq, hs⟩
    · exact .inl hroot
    · exact .inr ⟨e, hr.trans (Slot.path_mono hback hpath), .next e, rfl, he⟩
  by_cases hne : x = r
  · exact .inr ⟨p, hp, _, slotAt_parent p target.place, hne ▸ hhoused.here⟩
  · rcases live_cutOut h.forest hr hx hne with hroot | ⟨q, s, hq, hs, hc⟩
    · exact hmoved .root hroot fun _ hq => nomatch hq
    · refine hmoved s hc fun q' hq' => ?_
      rw [Option.some.inj (hq'.symm.trans hs)]
      exact hq

end

theorem connect_retains (h : Invariant registry w) (hregular : registry.Regular)
    (block parent socket : Value) :
    Retains registry given w (w.connect registry block parent socket).2 := by
  unfold Workspace.connect
  split
  · exact .refl w
  · rename_i r p target hplan
    obtain ⟨hr, hp, hup, t, u, ht, hu, htarget⟩ := planMove_ok h hregular hplan
    obtain ⟨hfits, -⟩ := findTarget_ok htarget
    rw [findTarget_key hregular hu htarget]
    exact attach_retains h hregular hr hp hup ht hu hfits

-- ---------------------------------------------------------------------------
-- Fields and variables
-- ---------------------------------------------------------------------------

theorem setField_retains (h : Invariant registry w)
    (hset : w.setField registry a name v = .ok (v', w')) : Retains registry given w w' := by
  simp only [Workspace.setField, bind_ok, locate_ok, h.findBlock?_ok, Prod.exists, Except.ok.injEq,
    Prod.mk.injEq] at hset
  obtain ⟨r, ⟨hr, -⟩, -, -, s, -, -, x, -, -, rfl⟩ := hset
  exact (SameLinks.modifyFields (h.forest.live_lt hr) fun b => b.fields.put s x).retains id

theorem addVariable_retains (w : Workspace) (hne : name ≠ "") :
    Retains registry given w (w.addVariable (.text name)).2 := by
  refine (SameLinks.addVariable w _).retains fun hv => ?_
  rcases addVariable_names w (.text name) with ⟨heq, -⟩ | ⟨heq, -⟩ <;> rw [heq] at hv
  · exact hv
  · rcases List.mem_append.mp hv with hv | hv
    · exact hv
    · exact (hne (Value.text.inj (List.mem_singleton.mp hv)).symm).elim

theorem createVariable_retains (hcreate : w.createVariable v = .ok (added, w')) :
    Retains registry given w w' := by
  simp only [Workspace.createVariable, bind_ok, Except.ok.injEq] at hcreate
  obtain ⟨name, hname, heq⟩ := hcreate
  have hadd : Retains registry given w _ := addVariable_retains w (readVariable_ok hname).2
  rw [heq] at hadd
  exact hadd

-- ---------------------------------------------------------------------------
-- New blocks
-- ---------------------------------------------------------------------------

theorem alloc_retains (hbare : IsBare registry b t) (hid : b.id = .text "" → given = .text "")
    (w : Workspace) : Retains registry given w (w.alloc b).2 :=
  ⟨alloc_carries hbare hid w, (live_alloc hbare).mpr⟩

theorem addRoot_block (w : Workspace) (r x : Ref) : (w.addRoot r).block x = w.block x := by
  unfold addRoot
  split <;> rfl

theorem addRoot_retains (w : Workspace) (r : Ref) : Retains registry given w (w.addRoot r) :=
  ⟨(addRoot_content w r).carries, Slot.Live.mono fun _ _ hc => holds_addRoot.mpr (.inl hc)⟩

theorem declareAll_retains {names : List String} (w : Workspace) (hempty : "" ∉ names) :
    Retains registry given w (w.declareAll names) := by
  induction names generalizing w with
  | nil => exact .refl w
  | cons name names ih =>
    rw [List.mem_cons, not_or] at hempty
    exact (addVariable_retains w (Ne.symm hempty.1)).trans (ih _ hempty.2)

/-- Only the sockets of the block into which another one goes have another content. -/
structure PutInto (registry : Registry) (given : Value) (p : Ref) (w w' : Workspace) : Prop where
  carries : Carries registry given w w'
  keys : (∀ r, Table.TextKeys (w.block r).inputs) → ∀ r, Table.TextKeys (w'.block r).inputs
  kept : s.parent? ≠ some p → w.Holds s c → w'.Holds s c

theorem plug_putInto (hkeys : ∀ r, Table.TextKeys (w.block r).inputs) (hlt : p < w.blocks.size)
    (hsuits : Suits registry t e) : PutInto registry given p w (w.plug p e) := by
  obtain ⟨k, b⟩ := e
  obtain ⟨⟨u, s, socket, hbare, -, rfl, -⟩, -, hid⟩ := hsuits
  have hlt' : p < (w.alloc b).2.blocks.size := by
    rw [alloc_size]
    exact Nat.lt_succ_of_lt hlt
  have hkeys' : ∀ r, Table.TextKeys ((w.alloc b).2.block r).inputs := by
    intro r
    rw [block_alloc]
    split
    · exact hbare.keys
    · exact hkeys r
  have hnamed : NamedPlace (some (.text s)) := by
    rintro _ ⟨⟩
    exact ⟨s, rfl⟩
  refine ⟨(alloc_carries hbare (fun heq => (hid heq).elim) w).trans
      (fill_content hlt' (some (.text s)) _).carries,
    fun _ r => (keys_fill hlt' hkeys' hnamed _ r).1, fun {s' c} hs' hc => ?_⟩
  refine (holds_fill hlt' (hkeys' p) hnamed _).mpr (.inr ⟨?_, holds_alloc hbare w ▸ hc⟩)
  rintro rfl
  exact hs' rfl

theorem plugAll_putInto {shadows : List (Value × Block)}
    (hkeys : ∀ r, Table.TextKeys (w.block r).inputs) (hlt : p < w.blocks.size)
    (hsuits : ∀ e ∈ shadows, Suits registry t e) :
    PutInto registry given p w (shadows.foldl (plug p) w) := by
  induction shadows generalizing w with
  | nil => exact ⟨(SameContent.refl w).carries, fun hkeys => hkeys, fun _ hc => hc⟩
  | cons e shadows ih =>
    obtain ⟨hfirst, hrest⟩ := List.forall_mem_cons.mp hsuits
    have hplug : PutInto registry given p w (w.plug p e) := plug_putInto hkeys hlt hfirst
    have ih := ih (hplug.keys hkeys) (Nat.lt_of_lt_of_le hlt hplug.carries.size) hrest
    exact ⟨hplug.carries.trans ih.carries, fun hkeys => ih.keys (hplug.keys hkeys),
      fun hs hc => ih.kept hs (hplug.kept hs hc)⟩

theorem addTree_retains {shadows : List (Value × Block)} (h : Forest w)
    (hbare : IsBare registry b t) (hid : b.id = .text "" → given = .text "")
    (hsuits : ∀ e ∈ shadows, Suits registry t e) :
    Retains registry given w (w.addTree b shadows) := by
  rw [addTree_eq]
  have hroot := (alloc_retains hbare hid w).trans (addRoot_retains _ w.blocks.size)
  have hcontent := addRoot_content (w.alloc b).2 w.blocks.size
  have hput : PutInto registry given w.blocks.size ((w.alloc b).2.addRoot w.blocks.size) _ :=
    plugAll_putInto (fun r => ?_) ?_ hsuits
  · refine ⟨hroot.carries.trans hput.carries, Slot.Live.mono fun s c hc => ?_⟩
    refine hput.kept (fun hs => Nat.lt_irrefl _ (holder_lt hc hs)) (holds_addRoot.mpr (.inl ?_))
    rw [holds_alloc hbare]
    exact hc
  · rw [addRoot_block, block_alloc]
    split
    · exact hbare.keys
    · exact h.keys r
  · rw [hcontent.size, alloc_size]
    exact Nat.lt_succ_self _

theorem place_retains (h : Invariant registry w) (hregular : registry.Regular)
    (hplace : place registry kinds w supply request = (.ok placed, supply')) :
    Retains registry request.id w placed.workspace := by
  obtain ⟨p, b, shadows, hplan, hbuild, hshadows, hw⟩ := place_ok h hregular hplace
  obtain ⟨hbare, -, hid⟩ := buildBlock_ok hregular hplan.type hplan.stored hbuild
  obtain ⟨hsuits, -⟩ := buildShadows_ok hregular hplan.type valueSockets_mem hshadows
  obtain ⟨hkeeps, -⟩ := h.declareAll p.variableNames
  rw [hw]
  refine (declareAll_retains w hplan.nonempty).trans (addTree_retains hkeeps.inv.forest hbare ?_ hsuits)
  rw [hid]
  split
  · exact fun heq => (supply.drawId_ne_empty (Value.text.inj heq)).elim
  · exact fun heq => heq

end Workspace

end BlockSketch
