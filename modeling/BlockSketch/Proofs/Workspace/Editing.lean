import BlockSketch.Proofs.Workspace.Invariant

/-!
# Edits keep the invariant

One lemma for each edit, whether it is carried out or refused.
-/

namespace BlockSketch.Workspace

open Ancestry
open Relation (ReflTransGen TransGen)

variable {w w' : Workspace} {registry : Registry}

-- ---------------------------------------------------------------------------
-- Detaching and connecting
-- ---------------------------------------------------------------------------

theorem holds_cutOut (h : Forest w) (hr : w.Live r) :
    (w.cutOut r).Holds s c ↔ w.Holds s c ∧ c ≠ r := by
  simp [cutOut_eq, holds_replaceAt h hr]

theorem Linked.cutOut (h : Linked registry w) (hr : w.Live r) : Linked registry (w.cutOut r) :=
  h.replaceAt hr fun _ hx => nomatch hx

theorem cutOut_content (h : Linked registry w) (hr : w.Live r) : SameContent w (w.cutOut r) :=
  (replaceAt_edited h hr none).content

theorem cutOut_free (h : Forest w) (hr : w.Live r) (s : Slot) : ¬(w.cutOut r).Holds s r :=
  fun hs => ((holds_cutOut h hr).mp hs).2 rfl

theorem Rewires.detach (h : Invariant registry w) (hregular : registry.Regular) (hr : w.Live r)
    (hroot : ¬w.Holds .root r) : Rewires registry w ((w.cutOut r).addRoot r) where
  linked := by
    refine (h.linked.cutOut hr).addRoot ?_ (cutOut_free h.forest hr)
    rw [(cutOut_content h.linked hr).size]
    exact h.forest.live_lt hr
  content := (cutOut_content h.linked hr).trans (addRoot_content _ _)
  moved hc := by
    rcases holds_addRoot.mp hc with hc | ⟨-, rfl⟩
    · exact .inl ((holds_cutOut h.forest hr).mp hc).1
    · exact .inr hr
  roots {c} hc := by
    rcases holds_addRoot.mp hc with hc | ⟨-, rfl⟩
    · exact .inl ((holds_cutOut h.forest hr).mp hc).1
    · refine .inr fun hentry => hroot (h.entry_root hregular hr hentry)

theorem Invariant.detach (h : Invariant registry w) (hregular : registry.Regular)
    (hdetach : w.detach v = .ok (moved, w')) : Keeps registry w w' := by
  simp only [Workspace.detach, bind_ok, locate_ok, h.findBlock?_ok, Except.ok.injEq] at hdetach
  obtain ⟨r, ⟨hr, -⟩, heq⟩ := hdetach
  split at heq
  · cases heq
    exact h.keeps
  · rename_i hroot
    cases heq
    exact (Rewires.detach h hregular hr (isRoot_iff.not.mp hroot)).keeps h

/-- What a target asks of the two types. -/
def TargetFits (t u : BlockType) (socket : Value) : Target → Prop
  | .next => u.isLink = true ∧ t.isLink = true
  | .body name => name = socket ∧ t.isLink = true ∧ ∃ s, u.socket? socket = some (.statement s)
  | .operand name => name = socket ∧ t.isStatement = false ∧
      ∃ s, u.socket? socket = some (.value s) ∧ s.accepts t.output = true

theorem findTarget_ok (h : findTarget t u socket = .ok target) :
    TargetFits t u socket target ∧ (socket = .null ∨ ∃ s, u.socket? socket = some s) := by
  unfold findTarget at h
  split at h
  · rename_i hnull
    unfold checkNext at h
    split at h
    · cases h
    · split at h
      · cases h
      · cases h
        simp_all [TargetFits, Value.isNull_iff]
  · split at h
    · rename_i s hs
      refine ⟨?_, .inr ⟨s, hs⟩⟩
      cases s with
      | statement name =>
        simp only [checkSocket] at h
        split at h <;> cases h
        exact ⟨rfl, by assumption, name, hs⟩
      | value vs =>
        simp only [checkSocket] at h
        split at h
        · cases h
        · split at h <;> cases h
          exact ⟨rfl, by simp_all, vs, hs, by assumption⟩
    · cases h

def Target.place : Target → Option Value
  | .next => none
  | .body name => some name
  | .operand name => some name

section

variable (h : Invariant registry w) (hregular : registry.Regular) (hr : w.Live r) (hp : w.Live p)
  (hup : ¬ReflTransGen w.Link r p) (ht : TypeIs registry w r t) (hu : TypeIs registry w p u)
  (htarget : TargetFits t u socket target)
include h hregular hr hp hup ht hu htarget

theorem canEnter_cutOut : CanEnter registry (w.cutOut r) r p target.place := by
  have hsame := cutOut_content h.linked hr
  refine ⟨?_, ?_, cutOut_free h.forest hr, fun hpath => hup ?_, fun k hk => ?_, ?_⟩
  · rw [hsame.size]
    exact h.forest.live_lt hr
  · rw [hsame.size]
    exact h.forest.live_lt hp
  · exact Slot.path_mono (fun _ _ hc => ((holds_cutOut h.forest hr).mp hc).1) hpath
  · have hsocket : ∃ s, u.socket? k = some s := by
      cases target with
      | next => cases hk
      | body name =>
        cases hk
        obtain ⟨rfl, -, s, hs⟩ := htarget
        exact ⟨_, hs⟩
      | operand name =>
        cases hk
        obtain ⟨rfl, -, s, hs, -⟩ := htarget
        exact ⟨_, hs⟩
    obtain ⟨s, hs⟩ := hsocket
    exact ⟨(hregular.socket_text hu hs).1, u, s, hsame.typeIs.mpr hu, hs⟩
  · rw [hsame.slotFits]
    cases target with
    | next => exact ⟨u, t, hu, ht, htarget.1, htarget.2⟩
    | body name =>
      obtain ⟨rfl, hlink, s, hs⟩ := htarget
      exact ⟨u, t, _, hu, ht, hs, hlink⟩
    | operand name =>
      obtain ⟨rfl, hexpression, s, hs, haccepts⟩ := htarget
      exact ⟨u, t, _, hu, ht, hs, hexpression, haccepts⟩

omit hregular hp hup ht in
/-- What stands where a chain goes is a link of a chain itself. -/
theorem displaced_link (hchain : ∀ name, target ≠ .operand name)
    (hd : (w.cutOut r).Holds (slotAt p target.place) d) :
    ∃ v, TypeIs registry (w.cutOut r) d v ∧ v.isLink = true := by
  have hsame := cutOut_content h.linked hr
  have hfits := (h.linked.cutOut hr).fits hd
  cases target with
  | next =>
    obtain ⟨_, v, -, hv, -, hlink⟩ := hfits
    exact ⟨v, hv, hlink⟩
  | body name =>
    obtain ⟨rfl, -, s, hs⟩ := htarget
    obtain ⟨u', v, s', hu', hv, hs', hfits⟩ := hfits
    obtain rfl := hu.unique (hsame.typeIs.mp hu')
    obtain rfl := Option.some.inj (hs.symm.trans hs')
    exact ⟨v, hv, hfits⟩
  | operand name => exact (hchain name rfl).elim

theorem attach_entered :
    Entered registry (w.cutOut r) ((w.cutOut r).attach r p target) r p target.place := by
  have h' := h.linked.cutOut hr
  have hsame := cutOut_content h.linked hr
  have henter := canEnter_cutOut h hregular hr hp hup ht hu htarget
  have hdisplaced := fun hchain d => displaced_link (d := d) h hr hu htarget hchain
  cases target with
  | next =>
    rw [attach_next]
    exact chainIn_entered h' henter (hsame.typeIs.mpr ht) htarget.2 (hdisplaced (by simp))
  | body name =>
    rw [attach_body]
    exact chainIn_entered h' henter (hsame.typeIs.mpr ht) htarget.2.1 (hdisplaced (by simp))
  | operand name => exact operandIn_entered h' henter

theorem Rewires.connect : Rewires registry w ((w.cutOut r).attach r p target) := by
  have hentered := attach_entered h hregular hr hp hup ht hu htarget
  have hsame := cutOut_content h.linked hr
  have hback : ∀ s c, (w.cutOut r).Holds s c → w.Holds s c := fun _ _ hc =>
    ((holds_cutOut h.forest hr).mp hc).1
  refine ⟨hentered.linked, hsame.trans hentered.content, fun {s c} hc => ?_, fun {c} hc => ?_⟩
  · rcases hentered.moved hc with hc | rfl | hc
    · exact .inl (hback _ _ hc)
    · exact .inr hr
    · exact .inr (hp.child ⟨_, slotAt_parent p target.place, hback _ _ hc⟩)
  · rcases hentered.roots hc with hc | hc
    · exact .inl (hback _ _ hc)
    · refine .inr (entry_of_fits hregular (h.linked.fits (hback _ _ hc)) ?_)
      cases target <;> simp [slotAt, Target.place]

end

theorem planMove_ok (h : Invariant registry w) (hregular : registry.Regular)
    (hplan : w.planMove registry a b socket = .ok ⟨r, p, target⟩) :
    w.Live r ∧ w.Live p ∧ ¬ReflTransGen w.Link r p ∧ ∃ t u, TypeIs registry w r t ∧
      TypeIs registry w p u ∧ findTarget t u socket = .ok target := by
  simp only [planMove, bind_ok, locate_ok, h.findBlock?_ok] at hplan
  obtain ⟨r', ⟨hr, -⟩, p', ⟨hp, -⟩, hplan⟩ := hplan
  split at hplan
  · cases hplan
  · rename_i hup
    simp only [bind_ok, typeOf_ok hregular, mapError_ok, Except.ok.injEq] at hplan
    obtain ⟨t, ht, u, hu, target', htarget, heq⟩ := hplan
    cases heq
    exact ⟨hr, hp, h.forest.reaches_iff.not.mp hup, t, u, ht, hu, htarget⟩

theorem findTarget_key (hregular : registry.Regular) (hu : TypeIs registry w p u)
    (h : findTarget t u socket = .ok target) : socket.isContainer = false := by
  rcases (findTarget_ok h).2 with rfl | ⟨s, hs⟩
  · rfl
  · obtain ⟨⟨name, rfl⟩, -⟩ := hregular.socket_text hu hs
    rfl

theorem Invariant.connect (h : Invariant registry w) (hregular : registry.Regular)
    (block parent socket : Value) :
    Keeps registry w (w.connect registry block parent socket).2 := by
  unfold Workspace.connect
  split
  · exact h.keeps
  · rename_i r p target hplan
    obtain ⟨hr, hp, hup, t, u, ht, hu, htarget⟩ := planMove_ok h hregular hplan
    obtain ⟨hfits, -⟩ := findTarget_ok htarget
    rw [findTarget_key hregular hu htarget]
    exact (Rewires.connect h hregular hr hp hup ht hu hfits).keeps h

-- ---------------------------------------------------------------------------
-- Deleting blocks
-- ---------------------------------------------------------------------------

section

variable (h : Invariant registry w) (hr : w.Live r)
include h hr

theorem canReplace_next (hx : (w.block r).next = some x) :
    CanReplace registry (w.setNext r none) r x := by
  have hlt := h.forest.live_lt hr
  have hsame : SameContent w (w.setNext r none) := fill_content hlt none none
  have hholds : ∀ s c, (w.setNext r none).Holds s c ↔ s ≠ .next r ∧ w.Holds s c := fun s c =>
    holds_clear h.linked hlt (placeOf_next registry w r)
  have hback : ∀ s c, (w.setNext r none).Holds s c → w.Holds s c := fun s c hc =>
    ((hholds s c).mp hc).2
  have hslot : w.Holds (.next r) x := hx
  obtain ⟨t, u, ht, hu, htlink, hulink⟩ := h.linked.fits hslot
  refine ⟨?_, fun s hs => ?_, fun p hp hpath => ?_, fun s hs => ?_⟩
  · rw [hsame.size]
    exact h.forest.bounded hslot
  · obtain ⟨hne, hs⟩ := (hholds s x).mp hs
    exact hne (h.forest.slots.unique hs hslot)
  · refine h.forest.slots.acyclic r (TransGen.head' ⟨_, rfl, hslot⟩ ?_)
    exact (Slot.path_mono hback hpath).tail (hp.mono hback)
  · rw [hsame.slotFits]
    have hfits := h.linked.fits (hback s r hs)
    cases s with
    | root => trivial
    | next p =>
      obtain ⟨v, -, hv, -, hvlink, -⟩ := hfits
      exact ⟨v, u, hv, hu, hvlink, hulink⟩
    | input p k =>
      obtain ⟨v, t', socket, hv, ht', hsocket, hfits⟩ := hfits
      obtain rfl := ht.unique ht'
      refine ⟨v, u, socket, hv, hu, hsocket, ?_⟩
      cases socket with
      | statement name => exact hulink
      | value vs =>
        -- A block with a successor is a statement, which stands in no value socket.
        simp [BlockType.isLink, hfits.1] at htlink

theorem holds_cutNext (s : Slot) (c : Ref) :
    (w.setNext r none).Holds s c ↔ s ≠ .next r ∧ w.Holds s c :=
  holds_clear h.linked (h.forest.live_lt hr) (placeOf_next registry w r)

theorem live_cutNext : (w.setNext r none).Live r :=
  hr.of_kept h.forest.slots.acyclic fun s c hc hs =>
    (holds_cutNext h hr s c).mpr ⟨fun heq => hs (by simp [heq, Slot.parent?]), hc⟩

/-- The successor of a deleted block stands where the block stood. -/
theorem holds_deleteRef (hdelete : w.deleteRef r = .ok (removed, w')) (s : Slot) (c : Ref) :
    w'.Holds s c ↔ s ≠ .next r ∧ (w.Holds s c ∧ c ≠ r ∨ w.Holds s r ∧ w.Holds (.next r) c) := by
  simp only [deleteRef] at hdelete
  split at hdelete
  · simp only [Except.ok.injEq, Prod.mk.injEq] at hdelete
    obtain ⟨-, rfl⟩ := hdelete
    have h₁ : Linked registry (w.setNext r none) :=
      h.linked.clear (h.forest.live_lt hr) (placeOf_next registry w r)
    have hnext : w.Holds (.next r) c ↔ (w.block r).next = some c := .rfl
    rw [holds_replaceAt h₁.forest (live_cutNext h hr), holds_cutNext h hr, holds_cutNext h hr, hnext]
    tauto
  · cases hdelete

theorem deleteRef_ok (hregular : registry.Regular) (hdelete : w.deleteRef r = .ok (removed, w')) :
    Rewires registry w w' ∧ ¬w'.Live r := by
  have hholds := holds_deleteRef h hr hdelete
  simp only [deleteRef] at hdelete
  split at hdelete
  · simp only [Except.ok.injEq, Prod.mk.injEq] at hdelete
    obtain ⟨-, rfl⟩ := hdelete
    have hlt := h.forest.live_lt hr
    have h₁ : Linked registry (w.setNext r none) := h.linked.clear hlt (placeOf_next registry w r)
    have hr₁ := live_cutNext h hr
    have hreplace := fun x => canReplace_next (x := x) h hr
    refine ⟨⟨h₁.replaceAt hr₁ hreplace, ?_, fun {s c} hc => ?_, fun {c} hc => ?_⟩, fun hlive => ?_⟩
    · exact (fill_content hlt none none).trans (replaceAt_edited h₁ hr₁ _).content
    · obtain ⟨-, ⟨hc, -⟩ | ⟨-, hc⟩⟩ := (hholds s c).mp hc
      · exact .inl hc
      · exact .inr (hr.child ⟨_, rfl, hc⟩)
    · obtain ⟨-, ⟨hc, -⟩ | ⟨-, hc⟩⟩ := (hholds _ c).mp hc
      · exact .inl hc
      · exact .inr (entry_of_fits hregular (h.linked.fits hc) (by simp))
    · obtain ⟨s, hs⟩ := hlive.held
      obtain ⟨-, ⟨-, hne⟩ | ⟨-, hself⟩⟩ := (hholds s r).mp hs
      · exact hne rfl
      · exact h.forest.slots.acyclic r (.single ⟨.next r, rfl, hself⟩)
  · cases hdelete

end

theorem Invariant.delete (h : Invariant registry w) (hregular : registry.Regular)
    (hdelete : w.delete v = .ok (removed, w')) : Keeps registry w w' := by
  simp only [Workspace.delete, bind_ok, locate_ok, h.findBlock?_ok] at hdelete
  obtain ⟨r, ⟨hr, -⟩, hdelete⟩ := hdelete
  exact (deleteRef_ok h hr hregular hdelete).1.keeps h

structure DeletedEach (registry : Registry) (w : Workspace) (refs : List Ref)
    (result : Except Error Unit) (w' : Workspace) : Prop where
  inv : Invariant registry w'
  content : SameContent w w'
  live : w'.Live r → w.Live r
  gone : result = .ok () → ∀ r ∈ refs, ¬w'.Live r

theorem DeletedEach.keeps (h : DeletedEach registry w refs result w') : Keeps registry w w' := by
  refine ⟨h.inv, ?_⟩
  rintro v ⟨r, hr, rfl⟩
  exact ⟨r, h.live hr, h.content.id.symm⟩

theorem deleteEach_spec (h : Invariant registry w) (hregular : registry.Regular) (refs : List Ref) :
    DeletedEach registry w refs (w.deleteEach refs).1 (w.deleteEach refs).2 := by
  induction refs generalizing w with
  | nil => exact ⟨h, .refl w, fun hr => hr, by simp⟩
  | cons r refs ih =>
    unfold deleteEach
    split
    · rename_i hfind
      obtain ⟨hr, -⟩ := h.findBlock?_ok.mp hfind
      split
      · rename_i removed w₁ hdelete
        obtain ⟨hrewires, hgone⟩ := deleteRef_ok h hr hregular hdelete
        have ih := ih (hrewires.invariant h)
        refine ⟨ih.inv, hrewires.content.trans ih.content, fun hx => hrewires.live (ih.live hx),
          fun hok x hx => ?_⟩
        rcases List.mem_cons.mp hx with rfl | hx
        · exact fun hlive => hgone (ih.live hlive)
        · exact ih.gone hok x hx
      · exact ⟨h, .refl w, fun hr => hr, by simp⟩
    · rename_i hfind
      have ih := ih h
      refine ⟨ih.inv, ih.content, ih.live, fun hok x hx => ?_⟩
      rcases List.mem_cons.mp hx with rfl | hx
      · exact fun hlive => hfind (h.findBlock?_ok.mpr ⟨ih.live hlive, rfl⟩)
      · exact ih.gone hok x hx

-- ---------------------------------------------------------------------------
-- Fields
-- ---------------------------------------------------------------------------

/-- Two workspaces that differ in fields and variables only. -/
structure SameLinks (w w' : Workspace) : Prop where
  size : w'.blocks.size = w.blocks.size
  roots : w'.roots = w.roots
  block : ∀ r, ∃ fields, w'.block r = { w.block r with fields }

namespace SameLinks

variable (hsame : SameLinks w w')
include hsame

theorem type (r : Ref) : (w'.block r).type = (w.block r).type := by
  obtain ⟨_, hb⟩ := hsame.block r
  rw [hb]

theorem id (r : Ref) : (w'.block r).id = (w.block r).id := by
  obtain ⟨_, hb⟩ := hsame.block r
  rw [hb]

theorem deletable (r : Ref) : (w'.block r).deletable = (w.block r).deletable := by
  obtain ⟨_, hb⟩ := hsame.block r
  rw [hb]

theorem inputs (r : Ref) : (w'.block r).inputs = (w.block r).inputs := by
  obtain ⟨_, hb⟩ := hsame.block r
  rw [hb]

theorem holds : w'.Holds = w.Holds := by
  funext s c
  cases s with
  | root => simp [Holds, hsame.roots]
  | next p =>
    obtain ⟨_, hb⟩ := hsame.block p
    simp [Holds, hb]
  | input p k => simp [Holds, hsame.inputs]

theorem live : w'.Live r ↔ w.Live r := by
  rw [Live, Live, hsame.holds]

theorem typeIs : TypeIs registry w' r t ↔ TypeIs registry w r t := by
  simp [TypeIs, hsame.type]

theorem slotFits : SlotFits registry w' s c ↔ SlotFits registry w s c := by
  cases s <;> simp only [SlotFits, hsame.typeIs]

theorem linked (h : Linked registry w) : Linked registry w' where
  forest :=
    { keys r := hsame.inputs r ▸ h.forest.keys r
      bounded hc := hsame.size ▸ h.forest.bounded (hsame.holds ▸ hc)
      nodup := hsame.roots ▸ h.forest.nodup
      slots := hsame.holds ▸ h.forest.slots }
  known hr := by
    obtain ⟨t, ht⟩ := h.known (hsame.size ▸ hr)
    exact ⟨t, hsame.typeIs.mpr ht⟩
  sockets hk := by
    obtain ⟨t, socket, ht, hsocket⟩ := h.sockets (hsame.inputs _ ▸ hk)
    exact ⟨t, socket, hsame.typeIs.mpr ht, hsocket⟩
  fits hc := hsame.slotFits.mpr (h.fits (hsame.holds ▸ hc))

theorem keeps (h : Invariant registry w)
    (hstored : ∀ r t, r < w.blocks.size → TypeIs registry w r t → t.Stored (w'.block r).fields)
    (hdeclared : ∀ r t, w.Live r → TypeIs registry w r t → ∀ field ∈ t.variableFields,
      ∃ v ∈ w'.variableNames, (w'.block r).fields.find? field = some v)
    (hnames : ∀ v ∈ w'.variableNames, ∃ s, v = .text s) (honce : w'.variableNames.Nodup) :
    Keeps registry w w' where
  inv :=
    { linked := hsame.linked h.linked
      stored hr ht := hstored _ _ (hsame.size ▸ hr) (hsame.typeIs.mp ht)
      ids hr := hsame.id _ ▸ h.ids (hsame.live.mp hr)
      distinct hr hr' hid := by
        rw [hsame.id, hsame.id] at hid
        exact h.distinct (hsame.live.mp hr) (hsame.live.mp hr') hid
      declared hr ht := hdeclared _ _ (hsame.live.mp hr) (hsame.typeIs.mp ht)
      names := hnames
      namesOnce := honce
      entryOnce hr hr' ht ht' := by
        rw [hsame.type] at ht ht'
        exact h.entryOnce (hsame.holds ▸ hr) (hsame.holds ▸ hr') ht ht'
      entryKept hr ht := by
        rw [Block.isDeletable, hsame.deletable]
        exact h.entryKept (hsame.size ▸ hr) (hsame.type _ ▸ ht) }
  ids := by
    rintro v ⟨r, hr, rfl⟩
    exact ⟨r, hsame.live.mp hr, (hsame.id r).symm⟩

end SameLinks

theorem SameLinks.modifyFields (hr : r < w.blocks.size) (f : Block → Assoc Value) :
    SameLinks w (w.modify r fun b => { b with fields := f b }) := by
  refine ⟨by simp [modify], rfl, fun y => ?_⟩
  rw [block_modify hr]
  split
  · rename_i hy
    exact ⟨_, by rw [hy]⟩
  · exact ⟨_, rfl⟩

theorem Invariant.declares_iff (h : Invariant registry w) :
    w.declares v = true ↔ v ∈ w.variableNames := by
  simp only [declares, Value.isIn, List.any_eq_true]
  constructor
  · rintro ⟨x, hx, hsame⟩
    obtain ⟨s, rfl⟩ := h.names x hx
    rw [Value.text_coincides] at hsame
    exact hsame ▸ hx
  · intro hv
    obtain ⟨s, rfl⟩ := h.names v hv
    exact ⟨_, hv, Value.text_coincides.mpr rfl⟩

theorem fieldOf_ok (h : fieldOf t type name = .ok (s, field)) : t.fields.find? s = some field := by
  unfold fieldOf at h
  split at h
  · cases h
  · split at h
    · rename_i found hfound
      cases h
      obtain ⟨x, -, hmap⟩ := Option.bind_eq_some_iff.mp hfound
      obtain ⟨f, hf, heq⟩ := Option.map_eq_some_iff.mp hmap
      cases heq
      exact hf
    · cases h

theorem checkValue_ok (h : w.checkValue field v = .ok v') :
    field.Stores v' ∧ (field.kind = .variable → w.declares v' = true) := by
  simp only [checkValue, bind_ok, mapError_ok] at h
  obtain ⟨stored, hstored, h⟩ := h
  split at h
  · cases h
  · rename_i hdeclares
    cases h
    refine ⟨Field.stores_of_validate hstored, fun hkind => ?_⟩
    simpa [hkind] using hdeclares

theorem Invariant.setField (h : Invariant registry w) (hregular : registry.Regular)
    (hset : w.setField registry a name v = .ok (v', w')) : Keeps registry w w' := by
  simp only [Workspace.setField, bind_ok, locate_ok, h.findBlock?_ok, typeOf_ok hregular,
    Prod.exists, Except.ok.injEq, Prod.mk.injEq] at hset
  obtain ⟨r, ⟨hr, -⟩, t, ht, s, field, hfield, x, hvalue, -, rfl⟩ := hset
  replace hfield := fieldOf_ok hfield
  obtain ⟨hstores, hdeclares⟩ := checkValue_ok hvalue
  have hblock := block_modify (h.forest.live_lt hr) fun b => { b with fields := b.fields.put s x }
  have hsame := SameLinks.modifyFields (h.forest.live_lt hr) fun b => b.fields.put s x
  refine hsame.keeps h (fun y u hy hu => ?_) (fun y u hy hu f hf => ?_) h.names h.namesOnce
  · rw [hblock]
    split
    · rename_i heq
      subst heq
      obtain rfl := ht.unique hu
      exact (h.stored hy ht).put hfield hstores
    · exact h.stored hy hu
  · obtain ⟨old, hold, hfind⟩ := h.declared hy hu f hf
    rw [hblock]
    split
    · rename_i heq
      subst heq
      obtain rfl := ht.unique hu
      rw [Assoc.find?_put]
      split
      · rename_i hfs
        subst hfs
        obtain ⟨field', hfield', hkind⟩ :=
          (BlockType.mem_variableFields (hregular.fieldNames ht)).mp hf
        obtain rfl := Option.some.inj (hfield.symm.trans hfield')
        exact ⟨x, h.declares_iff.mp (hdeclares hkind), rfl⟩
      · exact ⟨old, hold, hfind⟩
    · exact ⟨old, hold, hfind⟩

-- ---------------------------------------------------------------------------
-- Variables
-- ---------------------------------------------------------------------------

theorem SameLinks.setNames (w : Workspace) (names : List Value) :
    SameLinks w { w with variableNames := names } :=
  ⟨rfl, rfl, fun _ => ⟨_, rfl⟩⟩

theorem addVariable_names (w : Workspace) (name : Value) :
    (w.addVariable name).2.variableNames = w.variableNames ∧ w.declares name = true ∨
      (w.addVariable name).2.variableNames = w.variableNames ++ [name] ∧
        w.declares name = false := by
  unfold addVariable
  cases h : w.declares name
  · exact .inr ⟨rfl, rfl⟩
  · exact .inl ⟨rfl, rfl⟩

theorem SameLinks.addVariable (w : Workspace) (name : Value) :
    SameLinks w (w.addVariable name).2 := by
  unfold Workspace.addVariable
  split
  · exact .setNames w _
  · exact .setNames w _

theorem addVariable_fields (w : Workspace) (name : Value) (r : Ref) :
    ((w.addVariable name).2.block r).fields = (w.block r).fields := by
  unfold addVariable
  split <;> rfl

theorem addVariable_sub (w : Workspace) (name : Value) :
    w.variableNames ⊆ (w.addVariable name).2.variableNames := by
  intro v hv
  rcases addVariable_names w name with ⟨heq, -⟩ | ⟨heq, -⟩ <;> simp [heq, hv]

theorem Invariant.addVariable (h : Invariant registry w) (name : String) :
    Keeps registry w (w.addVariable (.text name)).2 := by
  refine (SameLinks.addVariable w _).keeps h (fun r t hr ht => ?_) (fun r t hr ht field hf => ?_)
    (fun v hv => ?_) ?_
  · rw [addVariable_fields]
    exact h.stored hr ht
  · obtain ⟨v, hv, hfind⟩ := h.declared hr ht field hf
    exact ⟨v, addVariable_sub w _ hv, by rw [addVariable_fields, hfind]⟩
  · rcases addVariable_names w (.text name) with ⟨heq, -⟩ | ⟨heq, -⟩
    · exact h.names v (heq ▸ hv)
    · rw [heq] at hv
      rcases List.mem_append.mp hv with hv | hv
      · exact h.names v hv
      · exact ⟨name, List.mem_singleton.mp hv⟩
  · rcases addVariable_names w (.text name) with ⟨heq, -⟩ | ⟨heq, hnew⟩
    · exact heq ▸ h.namesOnce
    · rw [← Bool.not_eq_true, h.declares_iff] at hnew
      rw [heq, List.nodup_append_comm]
      exact List.nodup_cons.mpr ⟨hnew, h.namesOnce⟩

theorem Invariant.createVariable (h : Invariant registry w)
    (hcreate : w.createVariable v = .ok (added, w')) : Keeps registry w w' := by
  simp only [Workspace.createVariable, bind_ok, Except.ok.injEq] at hcreate
  obtain ⟨name, -, heq⟩ := hcreate
  have hadded := h.addVariable name
  rw [heq] at hadded
  exact hadded

theorem Invariant.removeVariable (h : Invariant registry w)
    (hunused : ∀ r t, w.Live r → TypeIs registry w r t → ∀ field ∈ t.variableFields,
      (w.block r).fields.find? field ≠ some name) :
    Keeps registry w (w.removeVariable name).2 := by
  unfold Workspace.removeVariable
  split
  · rename_i hdeclares
    have hsub : (w.variableNames.eraseP (·.coincides name)).Sublist w.variableNames :=
      List.eraseP_sublist
    obtain ⟨s, rfl⟩ := h.names name (h.declares_iff.mp hdeclares)
    refine (SameLinks.setNames w _).keeps h (fun r t => h.stored) (fun r t hr ht field hf => ?_)
      (fun v hv => h.names v (hsub.subset hv)) (h.namesOnce.sublist hsub)
    obtain ⟨v, hv, hfind⟩ := h.declared hr ht field hf
    refine ⟨v, ?_, hfind⟩
    rw [List.mem_eraseP_of_neg]
    · exact hv
    · rw [Value.coincides_text]
      rintro rfl
      exact hunused r t hr ht field hf hfind
  · exact h.keeps

theorem usesVariable_of_find (ht : TypeIs registry w r t) (hf : field ∈ t.variableFields)
    (hfind : (w.block r).fields.find? field = some (.text s)) :
    usesVariable registry (.text s) (w.block r) = true := by
  rw [TypeIs] at ht
  simp only [usesVariable, ht, List.any_eq_true]
  exact ⟨field, hf, by simp [hfind]⟩

theorem usersOf_ok (h : w.usersOf registry name = .ok users) :
    users = w.allBlocks.filter fun r => usesVariable registry name (w.block r) := by
  simp only [usersOf] at h
  split at h
  · cases h
  · exact (Except.ok.inj h).symm

theorem Invariant.deleteVariable (h : Invariant registry w) (hregular : registry.Regular)
    (name : Value) : Keeps registry w (w.deleteVariable registry name).2 := by
  unfold Workspace.deleteVariable
  split
  · exact h.keeps
  · rename_i hdeclares
    simp only [Bool.not_eq_true', Bool.not_eq_false] at hdeclares
    obtain ⟨s, rfl⟩ := h.names name (h.declares_iff.mp hdeclares)
    split
    · exact h.keeps
    · rename_i users husers
      have hspec := deleteEach_spec h hregular users
      split
      · rename_i w' heq
        rw [heq] at hspec
        refine hspec.keeps.trans (hspec.inv.removeVariable fun r t hr ht field hf hfind => ?_)
        -- A live block that names the variable was a user, and all users are gone.
        refine hspec.gone rfl r ?_ hr
        rw [usersOf_ok husers, List.mem_filter]
        rw [hspec.content.fields] at hfind
        exact ⟨h.forest.mem_allBlocks.mpr (hspec.live hr),
          usesVariable_of_find (hspec.content.typeIs.mp ht) hf hfind⟩
      · rename_i e w' heq
        rw [heq] at hspec
        exact hspec.keeps

end BlockSketch.Workspace
