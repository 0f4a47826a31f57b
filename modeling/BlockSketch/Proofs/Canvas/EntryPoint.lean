import BlockSketch.Proofs.Canvas.Reloading

/-!
# The place of the entry point

The editor puts an entry point in front of all other roots, and no edit moves another block in front
of it: roots that are added come last, and what takes the place of a root is no entry point. A loaded
document keeps the order of its roots, wherever the entry point stands among them.
-/

namespace BlockSketch

open Relation (ReflTransGen)

namespace Workspace

variable {w w' w'' : Workspace} {registry : Registry}

def EntryAt (w : Workspace) (i : Nat) : Prop :=
  ∃ r, w.roots[i]? = some r ∧ w.isEntry r = true

/-- How many roots stand in front of the entry point. -/
def ahead (w : Workspace) : Nat :=
  (w.roots.findIdx? w.isEntry).getD 0

/-- No entry point has moved back, and none is new. -/
def Advances (w w' : Workspace) : Prop :=
  ∀ i, w'.EntryAt i → ∃ j, i ≤ j ∧ w.EntryAt j

theorem isEntry_iff : w.isEntry r = true ↔ (w.block r).type = .text entryType :=
  Value.same_text

theorem Advances.refl (w : Workspace) : Advances w w :=
  fun i hi => ⟨i, Nat.le_refl i, hi⟩

theorem Advances.trans (h : Advances w w') (h' : Advances w' w'') : Advances w w'' := by
  intro i hi
  obtain ⟨j, hij, hj⟩ := h' i hi
  obtain ⟨k, hjk, hk⟩ := h j hj
  exact ⟨k, Nat.le_trans hij hjk, hk⟩

-- ---------------------------------------------------------------------------
-- Steps of edits
-- ---------------------------------------------------------------------------

theorem Advances.of_roots (hroots : w'.roots = w.roots)
    (htype : ∀ r ∈ w.roots, w'.isEntry r = w.isEntry r) : Advances w w' := by
  rintro i ⟨r, hr, hentry⟩
  rw [hroots] at hr
  rw [htype r (List.mem_of_getElem? hr)] at hentry
  exact ⟨i, Nat.le_refl i, r, hr, hentry⟩

theorem isEntry_modify {f : Block → Block} (hf : ∀ b, (f b).type = b.type) (r x : Ref) :
    (w.modify r f).isEntry x = w.isEntry x := by
  have htype : ((w.modify r f).block x).type = (w.block x).type := by
    simp only [block, modify, Array.getElem?_modify]
    cases w.blocks[x]? with
    | none => simp
    | some b =>
      split
      · exact hf b
      · rfl
  rw [isEntry, isEntry, htype]

theorem isEntry_setNext (r : Ref) (next : Option Ref) (x : Ref) :
    (w.setNext r next).isEntry x = w.isEntry x :=
  isEntry_modify (f := fun b => { b with next }) (fun _ => rfl) r x

theorem isEntry_setInput (r : Ref) (socket : Value) (child : Option Ref) (x : Ref) :
    (w.setInput r socket child).isEntry x = w.isEntry x :=
  isEntry_modify (f := fun b => { b with inputs := b.inputs.put socket child }) (fun _ => rfl) r x

theorem Advances.setNext (r : Ref) (next : Option Ref) : Advances w (w.setNext r next) :=
  .of_roots rfl fun x _ => isEntry_setNext r next x

theorem Advances.setInput (r : Ref) (socket : Value) (child : Option Ref) :
    Advances w (w.setInput r socket child) :=
  .of_roots rfl fun x _ => isEntry_setInput r socket child x

theorem exists_getElem?_of_erase {roots : List Ref} {i : Nat} (h : (roots.erase r)[i]? = some x) :
    ∃ j, i ≤ j ∧ roots[j]? = some x := by
  induction roots generalizing i with
  | nil => simp at h
  | cons y roots ih =>
    rw [List.erase_cons] at h
    split at h
    · exact ⟨i + 1, Nat.le_succ i, h⟩
    · cases i with
      | zero => exact ⟨0, Nat.le_refl 0, h⟩
      | succ i =>
        obtain ⟨j, hij, hj⟩ := ih h
        exact ⟨j + 1, Nat.succ_le_succ hij, hj⟩

theorem Advances.removeRoot (r : Ref) : Advances w (w.removeRoot r) := by
  rintro i ⟨x, hx, hentry⟩
  obtain ⟨j, hij, hj⟩ := exists_getElem?_of_erase hx
  exact ⟨j, hij, x, hj, hentry⟩

theorem getElem?_replace {roots : List Ref} {i : Nat} (h : (roots.replace r s)[i]? = some x) :
    x = s ∨ roots[i]? = some x := by
  induction roots generalizing i with
  | nil => simp at h
  | cons y roots ih =>
    rw [List.replace_cons] at h
    split at h
    · cases i with
      | zero => exact .inl (Option.some.inj h).symm
      | succ i => exact .inr h
    · cases i with
      | zero => exact .inr h
      | succ i => exact ih h

theorem Advances.replaceAt (r : Ref) (hother : ∀ s, successor = some s → w.isEntry s = false) :
    Advances w (w.replaceAt r successor) := by
  unfold Workspace.replaceAt
  split
  · cases successor with
    | none => exact .removeRoot r
    | some s =>
      rintro i ⟨x, hx, hentry⟩
      rcases getElem?_replace hx with rfl | hx
      · exact absurd (hother x rfl) (ne_false_of_eq_true hentry)
      · exact ⟨i, Nat.le_refl i, x, hx, hentry⟩
  · split
    · exact .setNext _ _
    · exact .setInput _ _ _
    · exact .refl w

theorem Advances.cutOut (r : Ref) : Advances w (w.cutOut r) :=
  .replaceAt r fun _ hs => nomatch hs

theorem Advances.addRoot (h : w.isEntry r = false) : Advances w (w.addRoot r) := by
  have hroots : w.addRoot r = { w with roots := w.roots ++ [r] } := by
    rw [Workspace.addRoot, h]
    rfl
  rintro i ⟨x, hx, hentry⟩
  rw [hroots] at hx hentry
  rcases Nat.lt_or_ge i w.roots.length with hlt | hge
  · rw [List.getElem?_append_left hlt] at hx
    exact ⟨i, Nat.le_refl i, x, hx, hentry⟩
  · rw [List.getElem?_append_right hge] at hx
    obtain rfl := List.mem_singleton.mp (List.mem_of_getElem? hx)
    exact absurd h (ne_false_of_eq_true hentry)

/-- A new entry point is the first root if there was none before. -/
theorem entryAt_addRoot (h : ∀ i, ¬w.EntryAt i) (hi : (w.addRoot r).EntryAt i) : i = 0 := by
  cases hr : w.isEntry r with
  | false =>
    obtain ⟨j, -, hj⟩ := Advances.addRoot hr i hi
    exact (h j hj).elim
  | true =>
    obtain ⟨x, hx, hentry⟩ := hi
    simp only [Workspace.addRoot, hr, if_true] at hx hentry
    cases i with
    | zero => rfl
    | succ i => exact (h i ⟨x, hx, hentry⟩).elim

-- ---------------------------------------------------------------------------
-- Edits
-- ---------------------------------------------------------------------------

section

variable (h : Invariant registry w) (hregular : registry.Regular)
include h hregular

theorem Invariant.not_entry (hc : w.Holds s c) (hs : s ≠ .root) : w.isEntry c = false := by
  rw [← Bool.not_eq_true, isEntry_iff]
  exact entry_of_fits hregular (h.linked.fits hc) hs

theorem Advances.detach (hdetach : w.detach v = .ok (moved, w')) : Advances w w' := by
  simp only [Workspace.detach, bind_ok, locate_ok, h.findBlock?_ok, Except.ok.injEq] at hdetach
  obtain ⟨r, ⟨hr, -⟩, heq⟩ := hdetach
  split at heq
  · cases heq
    exact .refl w
  · rename_i hroot
    cases heq
    refine (Advances.cutOut r).trans (.addRoot ?_)
    rw [← Bool.not_eq_true, isEntry_iff, (cutOut_content h.linked hr).type]
    exact fun hentry => isRoot_iff.not.mp hroot (h.entry_root hregular hr hentry)

omit h hregular in
theorem Advances.chainIn (r p : Ref) (place : Option Value) : Advances w (w.chainIn r p place) := by
  have hfill : ∀ {u : Workspace} {q content} (place : Option Value),
      Advances u (u.fill q place content) := by
    intro u q content place
    cases place with
    | none => exact .setNext _ _
    | some socket => exact .setInput _ _ _
  exact (hfill place).trans (hfill none)

theorem Advances.attach (hr : w.Live r) (hp : w.Live p) (hup : ¬ReflTransGen w.Link r p)
    (ht : TypeIs registry w r t) (hu : TypeIs registry w p u)
    (htarget : TargetFits t u socket target) :
    Advances (w.cutOut r) ((w.cutOut r).attach r p target) := by
  cases target with
  | next => exact .chainIn r p none
  | body name => exact .chainIn r p (some name)
  | operand name =>
    have hcan := canEnter_cutOut h hregular hr hp hup ht hu htarget
    have hlinked := h.linked.cutOut hr
    have hattach : (w.cutOut r).attach r p (.operand name) =
        ((w.cutOut r).contentAt p (some name)).elim ((w.cutOut r).setInput p name (some r))
          ((w.cutOut r).setInput p name (some r)).addRoot := rfl
    rw [hattach]
    cases hd : (w.cutOut r).contentAt p (some name) with
    | none => exact .setInput _ _ _
    | some d =>
      have hslot := (contentAt_eq_some (hlinked.forest.keys p) hcan.socket.named).mp hd
      refine (Advances.setInput p name (some r)).trans (.addRoot ?_)
      rw [isEntry_setInput, ← Bool.not_eq_true, isEntry_iff]
      exact entry_of_fits hregular (hlinked.fits hslot) (by simp [slotAt, Target.place])

theorem Advances.connect (block parent socket : Value) :
    Advances w (w.connect registry block parent socket).2 := by
  unfold Workspace.connect
  split
  · exact .refl w
  · rename_i r p target hplan
    obtain ⟨hr, hp, hup, t, u, ht, hu, htarget⟩ := planMove_ok h hregular hplan
    split
    · exact .cutOut r
    · exact (Advances.cutOut r).trans
        (.attach h hregular hr hp hup ht hu (findTarget_ok htarget).1)

theorem Advances.deleteRef (hdelete : w.deleteRef r = .ok (removed, w')) : Advances w w' := by
  simp only [Workspace.deleteRef] at hdelete
  split at hdelete
  · obtain ⟨-, rfl⟩ := Prod.mk.inj (Except.ok.inj hdelete)
    refine (Advances.setNext r none).trans (.replaceAt r fun s hs => ?_)
    rw [isEntry_setNext]
    exact h.not_entry hregular (s := .next r) hs (by simp)
  · cases hdelete

theorem Advances.deleteEach (refs : List Ref) : Advances w (w.deleteEach refs).2 := by
  induction refs generalizing w with
  | nil => exact .refl w
  | cons r refs ih =>
    rw [Workspace.deleteEach]
    split
    · rename_i hfind
      obtain ⟨hr, -⟩ := h.findBlock?_ok.mp hfind
      split
      · rename_i hdelete
        have hinv := (deleteRef_ok h hr hregular hdelete).1.invariant h
        exact (Advances.deleteRef h hregular hdelete).trans (ih hinv)
      · exact .refl w
    · exact ih h

theorem Advances.deleteVariable (name : Value) :
    Advances w (w.deleteVariable registry name).2 := by
  unfold Workspace.deleteVariable
  split
  · exact .refl w
  · split
    · exact .refl w
    · rename_i users _
      have hdeletes := Advances.deleteEach h hregular users
      split <;> rename_i heq <;> rw [heq] at hdeletes
      · refine hdeletes.trans ?_
        unfold Workspace.removeVariable
        split <;> exact .of_roots rfl fun _ _ => rfl
      · exact hdeletes

end

theorem Advances.setField (hset : w.setField registry a name v = .ok (v', w')) : Advances w w' := by
  simp only [Workspace.setField, bind_ok, Except.ok.injEq, Prod.mk.injEq] at hset
  obtain ⟨r, -, t, -, p, -, x, -, -, rfl⟩ := hset
  exact .of_roots rfl fun y _ =>
    isEntry_modify (f := fun b => { b with fields := b.fields.put p.1 x }) (fun _ => rfl) r y

-- ---------------------------------------------------------------------------
-- New blocks
-- ---------------------------------------------------------------------------

structure Grows (w w' : Workspace) : Prop where
  size : w.blocks.size ≤ w'.blocks.size
  roots : w'.roots = w.roots
  entry : r < w.blocks.size → w'.isEntry r = w.isEntry r

theorem Grows.refl (w : Workspace) : Grows w w :=
  ⟨Nat.le_refl _, rfl, fun _ => rfl⟩

theorem Grows.trans (h : Grows w w') (h' : Grows w' w'') : Grows w w'' where
  size := Nat.le_trans h.size h'.size
  roots := h'.roots.trans h.roots
  entry hr := (h'.entry (Nat.lt_of_lt_of_le hr h.size)).trans (h.entry hr)

theorem Grows.advances (h : Grows w w') (hbounded : ∀ r ∈ w.roots, r < w.blocks.size) :
    Advances w w' :=
  .of_roots h.roots fun r hr => h.entry (hbounded r hr)

theorem Grows.alloc (w : Workspace) (b : Block) : Grows w (w.alloc b).2 where
  size := by simp [Workspace.alloc]
  roots := rfl
  entry hr := by
    simp [isEntry, block, Workspace.alloc, Array.getElem?_push, Nat.ne_of_lt hr]

theorem Grows.setInput (w : Workspace) (r : Ref) (socket : Value) (child : Option Ref) :
    Grows w (w.setInput r socket child) where
  size := by simp [Workspace.setInput, modify]
  roots := rfl
  entry _ := isEntry_setInput r socket child _

theorem Grows.addVariable (w : Workspace) (name : Value) : Grows w (w.addVariable name).2 := by
  unfold Workspace.addVariable
  split
  · exact .refl w
  · exact ⟨Nat.le_refl _, rfl, fun _ => rfl⟩

theorem Advances.createVariable (h : Invariant registry w)
    (hcreate : w.createVariable v = .ok (added, w')) : Advances w w' := by
  simp only [Workspace.createVariable, bind_ok, Except.ok.injEq] at hcreate
  obtain ⟨s, -, heq⟩ := hcreate
  have hgrows := Grows.addVariable w (.text s)
  rw [heq] at hgrows
  exact hgrows.advances fun r hr => h.forest.bounded (s := .root) hr

theorem Grows.foldl {f : Workspace → α → Workspace} (hstep : ∀ u a, Grows u (f u a))
    (w : Workspace) (items : List α) : Grows w (items.foldl f w) :=
  List.foldlRecOn items f (motive := Grows w) (.refl w) fun u hu a _ => hu.trans (hstep u a)

/-- A placed block is the last root, or the first one if it is an entry point: there is no other. -/
theorem entryAt_place (h : Invariant registry w) (hregular : registry.Regular)
    (hplace : place registry kinds w supply request = (.ok placed, supply'))
    (hi : placed.workspace.EntryAt i) : i = 0 ∨ ∃ j, i ≤ j ∧ w.EntryAt j := by
  obtain ⟨p, b, shadows, hplan, hbuild, -, hw⟩ := place_ok h hregular hplace
  obtain ⟨-, htype, -⟩ := buildBlock_ok hregular hplan.type hplan.stored hbuild
  have hdeclared : Grows w (w.declareAll p.variableNames) :=
    .foldl (fun u name => .addVariable u (.text name)) w p.variableNames
  rw [hw] at hi
  generalize w.declareAll p.variableNames = v at hdeclared hi
  have hshadows := Grows.foldl (fun u (shadow : Value × Block) =>
    (Grows.alloc u shadow.2).trans (.setInput _ v.blocks.size shadow.1 (some u.blocks.size)))
    (v.alloc b).2 shadows
  have hgrows := (hdeclared.trans (.alloc v b)).trans hshadows
  have hadvances := hgrows.advances fun r hr => h.forest.bounded (s := .root) hr
  have hentry := hshadows.entry (r := v.blocks.size) (by simp [Workspace.alloc])
  have hnew : (v.alloc b).2.isEntry v.blocks.size = b.type.same entryType := by
    simp [isEntry, block, Workspace.alloc]
  rw [hnew, htype] at hentry
  cases hrequest : request.type.same (.text entryType) with
  | false =>
    obtain ⟨j, hij, hj⟩ := Advances.addRoot (hentry.trans hrequest) i hi
    obtain ⟨k, hjk, hk⟩ := hadvances j hj
    exact .inr ⟨k, Nat.le_trans hij hjk, hk⟩
  | true =>
    refine .inl (entryAt_addRoot (fun j hj => ?_) hi)
    obtain ⟨k, -, r, hr, hr'⟩ := hadvances j hj
    have hnone := hplan.entry (Value.same_text.mp hrequest)
    exact List.find?_eq_none.mp hnone r (List.mem_of_getElem? hr) hr'

theorem Invariant.ahead_eq (h : Invariant registry w) (hi : w.EntryAt i) : w.ahead = i := by
  obtain ⟨r, hr, hentry⟩ := hi
  obtain ⟨hlt, hget⟩ := List.getElem?_eq_some_iff.mp hr
  cases hfind : w.roots.findIdx? w.isEntry with
  | none =>
    have hno := List.findIdx?_eq_none_iff.mp hfind r (List.mem_of_getElem? hr)
    exact absurd hno (ne_false_of_eq_true hentry)
  | some k =>
    obtain ⟨hk, hkentry, -⟩ := List.findIdx?_eq_some_iff_getElem.mp hfind
    have hsame : w.roots[k] = w.roots[i] := by
      refine h.entryOnce (List.getElem_mem hk) (List.getElem_mem hlt) (isEntry_iff.mp hkentry) ?_
      rw [hget]
      exact isEntry_iff.mp hentry
    rw [ahead, hfind]
    exact (h.forest.nodup.getElem_inj_iff).mp hsame

theorem Renames.entryAt (h : Renames f w w') (hi : w'.EntryAt i) : w.EntryAt i := by
  obtain ⟨r', hr', hentry⟩ := hi
  rw [h.roots, List.getElem?_map] at hr'
  obtain ⟨r, hr, rfl⟩ := Option.map_eq_some_iff.mp hr'
  refine ⟨r, hr, ?_⟩
  rw [isEntry_iff, h.block (.root (List.mem_of_getElem? hr))] at hentry
  exact isEntry_iff.mpr hentry

theorem entryAt_fresh {id : String} (hi : (fresh id).EntryAt i) : i = 0 := by
  obtain ⟨r, hr, -⟩ := hi
  obtain ⟨hlt, -⟩ := List.getElem?_eq_some_iff.mp hr
  exact Nat.lt_one_iff.mp hlt

end Workspace

-- ---------------------------------------------------------------------------
-- Operations
-- ---------------------------------------------------------------------------

def Operation.loads? : Operation → Option Workspace
  | .load document => (Document.read Catalog.registry document).toOption
  | .loadText text => (Document.readText Catalog.registry text).toOption
  | _ => none

/-- The most roots that can be in front of the entry point after an operation, if it was `n`
before. -/
def Operation.ahead (n : Nat) (op : Operation) : Nat :=
  match op with
  | .clear => 0
  | op => (op.loads?.map Workspace.ahead).getD n

namespace Canvas

open Workspace (Advances EntryAt Filed)

variable {c : Canvas}

theorem Good.entryAt_reread (h : Good c) (hfiled : Filed Catalog.registry c.workspace)
    (hread : Document.reread c.registry (Document.ofWorkspace c.workspace) = .ok w)
    (hi : w.EntryAt i) : c.workspace.EntryAt i := by
  rw [h.registry] at hread
  have hinv := h.registry ▸ h.inv
  have hregular := h.registry ▸ h.regular
  by_cases hid : c.workspace.HasId (.text "")
  · cases hread.symm.trans (Document.refused_of_unnamed hinv hregular hfiled hid).reread
  · obtain ⟨w', -, hw, f, hrenames⟩ := Document.survives_of_named hinv hregular hfiled hid
    obtain rfl := Except.ok.inj (hread.symm.trans hw)
    exact hrenames.entryAt hi

theorem Good.entryAt_read {op : Operation} (h : Good c)
    (hfiled : Filed Catalog.registry c.workspace) (hproper : op.Proper c.supply)
    (hn : ∀ i, c.workspace.EntryAt i → i ≤ n) (hread : op.reading? c = some (.ok w))
    (hi : w.EntryAt i) : i ≤ op.ahead n := by
  have hahead := (h.reads hproper hread).1.ahead_eq hi
  cases op with
  | load document =>
    have hw : Document.read Catalog.registry document = .ok w := h.registry ▸ Option.some.inj hread
    simp only [Operation.ahead, Operation.loads?, hw]
    exact Nat.le_of_eq hahead.symm
  | loadText text =>
    have hw : Document.readText Catalog.registry text = .ok w := h.registry ▸ Option.some.inj hread
    simp only [Operation.ahead, Operation.loads?, hw]
    exact Nat.le_of_eq hahead.symm
  | reload => exact hn i (h.entryAt_reread hfiled (Option.some.inj hread) hi)
  | _ => cases hread

theorem ahead_of_kept {op : Operation} (hregistry : c.registry = Catalog.registry)
    (h : op.installs? c = none) : op.ahead n = n := by
  cases op with
  | clear => cases h
  | load document =>
    have hnone : (Document.read c.registry document).toOption = none := h
    simp only [Operation.ahead, Operation.loads?, ← hregistry, hnone]
    rfl
  | loadText text =>
    have hnone : (Document.readText c.registry text).toOption = none := h
    simp only [Operation.ahead, Operation.loads?, ← hregistry, hnone]
    rfl
  | _ => rfl

/-- One operation. Only a load can bring a program in which the entry point is behind. -/
theorem Good.entryAt_apply (h : Good c) (hfiled : Filed Catalog.registry c.workspace)
    (hproper : op.Proper c.supply) (hn : ∀ i, c.workspace.EntryAt i → i ≤ n)
    (hi : (c.apply op).canvas.workspace.EntryAt i) : i ≤ op.ahead n := by
  obtain ⟨supply, hreworks⟩ := c.apply_reworks op
  generalize (c.apply op).canvas.workspace = w at hreworks hi
  have hadvanced (hadvances : Advances c.workspace w) : i ≤ n := by
    obtain ⟨j, hij, hj⟩ := hadvances i hi
    exact Nat.le_trans hij (hn j hj)
  cases hreworks with
  | kept hkept => exact (ahead_of_kept h.registry hkept).symm ▸ hn i hi
  | placed hplace =>
    rcases Workspace.entryAt_place h.inv h.regular hplace hi with rfl | ⟨j, hij, hj⟩
    · exact Nat.zero_le _
    · exact Nat.le_trans hij (hn j hj)
  | connected block parent socket =>
    exact hadvanced (.connect h.inv h.regular block parent socket)
  | detached hdetach => exact hadvanced (.detach h.inv h.regular hdetach)
  | deleted hdelete =>
    simp only [Workspace.delete, bind_ok] at hdelete
    obtain ⟨r, -, hdelete⟩ := hdelete
    exact hadvanced (.deleteRef h.inv h.regular hdelete)
  | changed hset => exact hadvanced (.setField hset)
  | declared hcreate => exact hadvanced (.createVariable h.inv hcreate)
  | undeclared name => exact hadvanced (.deleteVariable h.inv h.regular name)
  | cleared => exact Nat.le_of_eq (Workspace.entryAt_fresh hi)
  | loaded hread => exact h.entryAt_read hfiled hproper hn hread hi

-- ---------------------------------------------------------------------------
-- Runs
-- ---------------------------------------------------------------------------

theorem Good.entryAt_run (h : Good c) (hfiled : Filed Catalog.registry c.workspace)
    (hproper : c.ProperRun ops) (hn : ∀ i, c.workspace.EntryAt i → i ≤ n)
    (hi : (c.run ops).1.workspace.EntryAt i) : i ≤ ops.foldl Operation.ahead n := by
  induction ops generalizing c n with
  | nil => exact hn i hi
  | cons op ops ih =>
    obtain ⟨hfirst, hrest⟩ := hproper
    have hfiled' : Filed Catalog.registry (c.run [op]).1.workspace :=
      h.run_filed hfiled ⟨hfirst, trivial⟩
    exact ih (h.apply hfirst) hfiled' hrest (fun j => h.entryAt_apply hfiled hfirst hn) hi

theorem foldl_ahead_zero {ops : List Operation} (h : ∀ op ∈ ops, ∀ w, op.loads? = some w → w.ahead = 0) :
    ops.foldl Operation.ahead 0 = 0 := by
  induction ops with
  | nil => rfl
  | cons op ops ih =>
    obtain ⟨hop, hrest⟩ := List.forall_mem_cons.mp h
    have hzero : op.ahead 0 = 0 := by
      unfold Operation.ahead
      split
      · rfl
      · cases hw : op.loads? with
        | none => rfl
        | some w => exact hop w hw
    rw [List.foldl_cons, hzero]
    exact ih hrest

/-- The entry point of a program stands behind other roots only if it was loaded so. In front of it
are at most as many as in the document that was loaded last; it is first if it was so in all
documents that were loaded. -/
theorem entry_behind_only_if_loaded (settings : Settings) (c : Canvas) (ops : List Operation)
    (hstart : start settings limit = .ok c) (hproper : c.ProperRun ops) (r : Ref)
    (hr : r ∈ (c.run ops).1.workspace.allBlocks)
    (hentry : ((c.run ops).1.workspace.block r).type = .text entryType) :
    (c.run ops).1.workspace.roots[(c.run ops).1.workspace.ahead]? = some r ∧
      (c.run ops).1.workspace.ahead ≤ ops.foldl Operation.ahead 0 ∧
      ((∀ op ∈ ops, ∀ w, op.loads? = some w → w.ahead = 0) →
        (c.run ops).1.workspace.roots.head? = some r) := by
  have hstarted := good_start hstart
  have hgood := hstarted.run hproper
  have hroot := hgood.inv.entry_root hgood.regular (hgood.inv.forest.mem_allBlocks.mp hr) hentry
  obtain ⟨i, hi⟩ := List.getElem?_of_mem hroot
  have hat : (c.run ops).1.workspace.EntryAt i := ⟨r, hi, Workspace.isEntry_iff.mpr hentry⟩
  have hbound : i ≤ ops.foldl Operation.ahead 0 := by
    refine hstarted.entryAt_run (start_filed hstart).1 hproper (fun j hj => ?_) hat
    rw [(new_of_start hstart).workspace] at hj
    exact Nat.le_of_eq (Workspace.entryAt_fresh hj)
  rw [hgood.inv.ahead_eq hat]
  refine ⟨hi, hbound, fun hfirst => ?_⟩
  rw [foldl_ahead_zero hfirst, Nat.le_zero] at hbound
  rw [List.head?_eq_getElem?, ← hbound]
  exact hi

end Canvas

-- ---------------------------------------------------------------------------
-- A document with the entry point behind
-- ---------------------------------------------------------------------------

namespace Document

def behindRecords : List Value := [
  .object [("id", "a"), ("type", "arduino_imu_begin")],
  .object [("id", "s"), ("type", .text entryType)]]

def behindDocument : Value :=
  .object [("format", .text formatName), ("version", .int 1), ("blocks", .list behindRecords),
    ("top_blocks", .list ["a", "s"])]

def behindWorkspace : Workspace where
  blocks := #[{ type := "arduino_imu_begin", id := "a" },
    { type := .text entryType, id := "s", deletable := .bool false }]
  roots := [0, 1]

def behindEntries (t u : BlockType) : List Entry := [
  { id := "a", type := t, fields := [], inputs := [], next := .null, deletable := .bool true },
  { id := "s", type := u, fields := [], inputs := [], next := .null, deletable := .bool false }]

theorem behind_forest {t u : BlockType} (hid : t.typeId = .text "arduino_imu_begin") :
    Forest (behindEntries t u) ["a", "s"] := by
  have hlinks : (behindEntries t u).flatMap Entry.links = [] := rfl
  have hchild : ∀ x y, ¬Child (behindEntries t u) x y := by
    rintro x y ⟨e, he, -, hy⟩
    simp only [behindEntries, List.mem_cons, List.not_mem_nil, or_false] at he
    rcases he with rfl | rfl <;> cases hy
  have hsole : ∀ e ∈ behindEntries t u, e.IsEntryPoint → e.id = "s" := by
    simp [behindEntries, Entry.IsEntryPoint, hid, entryType]
  refine ⟨by simp [behindEntries], fun e he => ?_, by simp [hlinks], fun x hcycle => ?_, by simp,
    fun x => ?_, fun e he e' he' ht ht' => ?_, by simp [hlinks]⟩
  · simp only [behindEntries, List.mem_cons, List.not_mem_nil, or_false] at he
    rcases he with rfl | rfl <;> exact ⟨by simp, .inl rfl⟩
  · obtain ⟨_, hfirst, -⟩ := Relation.TransGen.head'_iff.mp hcycle
    exact hchild _ _ hfirst
  · rw [hlinks]
    simp [behindEntries]
  · have hs := (hsole e he ht).trans (hsole e' he' ht').symm
    simp only [behindEntries, List.mem_cons, List.not_mem_nil, or_false] at he he'
    rcases he with rfl | rfl <;> rcases he' with rfl | rfl
    · rfl
    · simp at hs
    · simp at hs
    · rfl

theorem read_behind : read Catalog.registry behindDocument = .ok behindWorkspace := by
  have hbegin : ∃ t, Catalog.registry.find? (.text "arduino_imu_begin") = some t ∧
      t.typeId = "arduino_imu_begin" ∧ t.fields = [] ∧ t.deletable = .bool true := by
    rw [Catalog.registry_find?]
    exact ⟨_, rfl, rfl, rfl, rfl⟩
  have hentry : ∃ t, Catalog.registry.find? (.text entryType) = some t ∧
      t.typeId = .text entryType ∧ t.fields = [] ∧ t.deletable = .bool false := by
    rw [Catalog.registry_find?]
    exact ⟨_, rfl, rfl, rfl, rfl⟩
  obtain ⟨t, ht, hid, hfields, hdel⟩ := hbegin
  obtain ⟨u, hu, huid, hufields, hudel⟩ := hentry
  have hnone : ∀ v : BlockType, v.fields = [] →
      v.validateFields [] false = .ok [] ∧ v.variableFields = [] := by
    intro v hv
    refine ⟨BlockType.validateFields_ok.mpr ⟨by simp [Assoc.names], hv ▸ .nil⟩, ?_⟩
    rw [BlockType.variableFields, hv]
    rfl
  have hreads : List.Forall₂ (fun draft e => readRecord Catalog.registry [] draft = .ok e)
      (behindRecords.map Draft.ofValue?) (behindEntries t u) := by
    refine .cons (readRecord_ok.mpr ⟨_, rfl, ?_⟩) (.cons (readRecord_ok.mpr ⟨_, rfl, ?_⟩) .nil)
    · exact ⟨rfl, by simp, ⟨_, rfl, ht⟩, ⟨_, rfl, (hnone t hfields).1, by simp [hnone t hfields]⟩, rfl,
        rfl, .inl ⟨rfl, hdel.symm⟩⟩
    · exact ⟨rfl, by simp, ⟨_, rfl, hu⟩, ⟨_, rfl, (hnone u hufields).1, by simp [hnone u hufields]⟩,
        rfl, rfl, .inl ⟨rfl, hudel.symm⟩⟩
  refine read_ok.mpr ⟨[], behindRecords, ["a", "s"],
    ⟨⟨_, rfl⟩, rfl, by decide, .inl ⟨rfl, rfl⟩, by simp, by simp, rfl, rfl⟩, assemble_ok.mpr ?_⟩
  refine ⟨behindEntries t u, ["a", "s"], hreads, rfl, behind_forest hid, ?_⟩
  have hbuild : build (behindEntries t u) ["a", "s"] [] =
      { behindWorkspace with
        blocks := #[{ type := t.typeId, id := "a" },
          { type := u.typeId, id := "s", deletable := .bool false }] } := rfl
  rw [hbuild, hid, huid]
  rfl

theorem behindDocument_wellKeyed : behindDocument.WellKeyed := by
  have hrecords : ∀ record ∈ behindRecords, record.WellKeyed := by
    simp only [behindRecords, List.forall_mem_cons, List.not_mem_nil, false_implies, implies_true,
      and_true]
    refine ⟨.object (by decide) ?_, .object (by decide) ?_⟩ <;>
      simp only [List.forall_mem_cons, List.not_mem_nil, false_implies, implies_true, and_true]
    · exact ⟨.scalar rfl, .scalar rfl⟩
    · exact ⟨.scalar rfl, .scalar rfl⟩
  refine .object (by decide) ?_
  simp only [List.forall_mem_cons, List.not_mem_nil, false_implies, implies_true, and_true]
  exact ⟨.scalar rfl, .scalar rfl, .list hrecords,
    .list (by simp only [List.forall_mem_cons, List.not_mem_nil, false_implies, implies_true,
      and_true]; exact ⟨.scalar rfl, .scalar rfl⟩)⟩

end Document

namespace Canvas

open Document (behindDocument behindWorkspace)

variable {c : Canvas}

theorem behind_proper (c : Canvas) : c.ProperRun [.load behindDocument] := by
  refine ⟨⟨Document.behindDocument_wellKeyed, ?_⟩, trivial⟩
  rintro records hrecords record hrecord s hs
  obtain rfl := Value.list.inj hrecords
  simp only [Document.behindRecords, List.mem_cons, List.not_mem_nil, or_false] at hrecord
  rcases hrecord with rfl | rfl <;> obtain rfl := Value.text.inj hs <;>
    exact Supply.past_of_head _ (by decide)

theorem behind_loaded (h : start settings limit = .ok c) :
    (c.run [.load behindDocument]).1.workspace = behindWorkspace := by
  have hregistry := (good_start h).registry
  show (c.install (Document.read c.registry behindDocument)).canvas.workspace = behindWorkspace
  rw [hregistry, Document.read_behind]
  rfl

theorem behind_entry (h : start settings limit = .ok c) :
    1 ∈ (c.run [.load behindDocument]).1.workspace.allBlocks := by
  have hgood := (good_start h).run (behind_proper c)
  refine hgood.inv.forest.mem_allBlocks.mpr (.root ?_)
  rw [behind_loaded h]
  exact List.mem_cons_of_mem _ List.mem_cons_self

theorem entry_behind_loaded : ∃ c, start {} = .ok c ∧ c.ProperRun [.load behindDocument] ∧
    1 ∈ (c.run [.load behindDocument]).1.workspace.allBlocks ∧
    ((c.run [.load behindDocument]).1.workspace.block 1).type = .text entryType ∧
    (c.run [.load behindDocument]).1.workspace.roots[behindWorkspace.ahead]? = some 1 := by
  obtain ⟨c, hstart⟩ := exists_start
  have htype : ((c.run [.load behindDocument]).1.workspace.block 1).type = .text entryType := by
    rw [behind_loaded hstart]
    rfl
  obtain ⟨hplace, -⟩ := entry_behind_only_if_loaded {} c _ hstart (behind_proper c) 1
    (behind_entry hstart) htype
  refine ⟨c, hstart, behind_proper c, behind_entry hstart, htype, ?_⟩
  rw [behind_loaded hstart] at hplace ⊢
  exact hplace

/-- The document is loaded with the start of the sensor as the first root. -/
theorem loaded_entry_second : ∃ c, start {} = .ok c ∧ c.ProperRun [.load behindDocument] ∧
    1 ∈ (c.run [.load behindDocument]).1.workspace.allBlocks ∧
    ((c.run [.load behindDocument]).1.workspace.block 1).type = .text entryType ∧
    (c.run [.load behindDocument]).1.workspace.roots = [0, 1] := by
  obtain ⟨c, hstart⟩ := exists_start
  refine ⟨c, hstart, behind_proper c, behind_entry hstart, ?_, ?_⟩
  · rw [behind_loaded hstart]
    rfl
  · rw [behind_loaded hstart]
    rfl

end Canvas

end BlockSketch
