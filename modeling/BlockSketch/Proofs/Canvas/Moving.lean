import BlockSketch.Proofs.Canvas.Protection

/-!
# Moving a chain

A connection takes a block with its successors out of its place and puts it into a place of another
block. What stood there follows the moved chain, or becomes the last root if it is an expression.
Every other place holds what it held: the blocks, and all that is known of them, are the same.
-/

namespace BlockSketch

open Relation (ReflTransGen)

namespace Workspace

variable {w w' : Workspace} {registry : Registry} {place : Option Value}

-- ---------------------------------------------------------------------------
-- Places
-- ---------------------------------------------------------------------------

/-- Inputs have texts for keys, so nothing stands in a place that is told by anything else. -/
theorem contentAt_iff (hkeys : Table.TextKeys (w.block p).inputs) :
    w.contentAt p place = some d ↔ w.Holds (slotAt p place) d := by
  by_cases hnamed : NamedPlace place
  · exact contentAt_eq_some hkeys hnamed
  · cases place with
    | none => exact (hnamed (placeOf_next { } w p).named).elim
    | some k =>
      have htext : ∀ s, k ≠ .text s := by
        rintro s rfl
        exact hnamed fun _ hk => ⟨s, (Option.some.inj hk).symm⟩
      refine iff_of_false (fun hd => ?_) fun hd => ?_
      · obtain ⟨x, hx, -⟩ := Option.map_eq_some_iff.mp (Option.join_eq_some_iff.mp hd)
        obtain ⟨s, hs⟩ := hkeys.1 x.1 (List.mem_map_of_mem (List.mem_of_find?_eq_some hx))
        have hsame := List.find?_some hx
        rw [hs, Value.text_coincides] at hsame
        exact htext s hsame
      · obtain ⟨s, hs⟩ := hkeys.1 k (Table.mem_keys.mpr ⟨_, hd⟩)
        exact htext s hs

theorem slotAt_inj : slotAt p place = slotAt q place' ↔ p = q ∧ place = place' := by
  cases place <;> cases place' <;> simp [slotAt]

section

variable (hp : p < w.blocks.size) (hkeys : ∀ r, Table.TextKeys (w.block r).inputs)
  (hplace : NamedPlace place) (content : Option Ref)
include hp hkeys hplace

theorem contentAt_fill_self : (w.fill p place content).contentAt p place = content := by
  refine Option.ext fun d => ?_
  rw [contentAt_iff (keys_fill hp hkeys hplace content p).1, holds_fill hp (hkeys p) hplace]
  simp

theorem contentAt_fill_other (hother : ¬(x = p ∧ q = place)) :
    (w.fill p place content).contentAt x q = w.contentAt x q := by
  refine Option.ext fun d => ?_
  rw [contentAt_iff (keys_fill hp hkeys hplace content x).1, contentAt_iff (hkeys x),
    holds_fill hp (hkeys p) hplace]
  simp [slotAt_inj, hother]

omit hkeys in
/-- A place that was not there before comes after the others. -/
theorem inputs_keys_fill (x : Ref) :
    ((w.fill p place content).block x).inputs.keys = (w.block x).inputs.keys ∨
      x = p ∧ ∃ k, place = some k ∧ k ∉ (w.block x).inputs.keys ∧
        ((w.fill p place content).block x).inputs.keys = (w.block x).inputs.keys ++ [k] := by
  cases place with
  | none =>
    simp only [fill, setNext, block_modify hp]
    split
    · rename_i hx
      exact .inl (by rw [hx])
    · exact .inl rfl
  | some k =>
    obtain ⟨s, rfl⟩ := hplace k rfl
    simp only [fill, setInput, block_modify hp]
    split
    · rename_i hx
      subst hx
      rcases Table.keys_put (w.block x).inputs s content with ⟨heq, -⟩ | ⟨heq, hnew⟩
      · exact .inl heq
      · exact .inr ⟨rfl, _, rfl, hnew, heq⟩
    · exact .inl rfl

end

-- ---------------------------------------------------------------------------
-- Cutting a chain out
-- ---------------------------------------------------------------------------

theorem contentAt_cutOut (h : Linked registry w) (hr : w.Live r) (x : Ref) (place : Option Value) :
    (w.cutOut r).contentAt x place = (w.contentAt x place).filter (· ≠ r) := by
  refine Option.ext fun d => ?_
  rw [contentAt_iff ((h.cutOut hr).forest.keys x), holds_cutOut h.forest hr, Option.filter_eq_some_iff,
    contentAt_iff (h.forest.keys x)]
  simp

theorem roots_cutOut (h : Forest w) (hr : w.Live r) : (w.cutOut r).roots = w.roots.erase r := by
  by_cases hroot : w.Holds .root r
  · rw [cutOut, if_pos (isRoot_iff.mpr hroot)]
    rfl
  · obtain ⟨p, place, hfind, -⟩ := h.findParent?_some hr hroot
    rw [cutOut_eq, replaceAt_slot hroot hfind, fill_roots, List.erase_of_not_mem hroot]

theorem inputs_keys_cutOut (h : Forest w) (hr : w.Live r) (x : Ref) :
    ((w.cutOut r).block x).inputs.keys = (w.block x).inputs.keys := by
  by_cases hroot : w.Holds .root r
  · rw [cutOut, if_pos (isRoot_iff.mpr hroot)]
    rfl
  · obtain ⟨p, place, hfind, hslot⟩ := h.findParent?_some hr hroot
    have hkeyed : ∀ k, place = some k → k ∈ (w.block p).inputs.keys := by
      rintro k rfl
      exact Table.mem_keys.mpr ⟨_, hslot⟩
    have hnamed : NamedPlace place := fun k hk => (h.keys p).1 k (hkeyed k hk)
    rw [cutOut_eq, replaceAt_slot hroot hfind]
    rcases inputs_keys_fill (parent_lt hslot) hnamed none x with heq | ⟨rfl, k, hk, hnew, -⟩
    · exact heq
    · exact (hnew (hkeyed k hk)).elim

-- ---------------------------------------------------------------------------
-- The end of a chain
-- ---------------------------------------------------------------------------

structure EndsAt (w : Workspace) (r e : Ref) : Prop where
  path : ReflTransGen w.Follows r e
  last : (w.block e).next = none

theorem Forest.endsAt_chainEnd (h : Forest w) (r : Ref) : w.EndsAt r (w.chainEnd r) := by
  obtain ⟨hlast, hpath⟩ := h.chainEnd_spec r
  exact ⟨hpath, hlast⟩

theorem EndsAt.unique (h : w.EndsAt r e) (h' : w.EndsAt r e') : e = e' := by
  have hone : Relator.RightUnique w.Follows := fun _ _ _ hb hc =>
    Option.some.inj (Eq.trans (Eq.symm hb) hc)
  have hstop : ∀ {a b}, (w.block a).next = none → ReflTransGen w.Follows a b → a = b := by
    intro a b hnone hpath
    rcases hpath.cases_head with heq | ⟨c, hc, -⟩
    · exact heq
    · cases hnone.symm.trans hc
  rcases ReflTransGen.total_of_right_unique hone h.path h'.path with hpath | hpath
  · exact hstop h.last hpath
  · exact (hstop h'.last hpath).symm

theorem EndsAt.of_next (h : w.EndsAt r e)
    (hnext : ∀ x, ReflTransGen w.Follows r x → (w'.block x).next = (w.block x).next) :
    w'.EndsAt r e := by
  have hpath : ∀ x, ReflTransGen w.Follows r x → ReflTransGen w'.Follows r x := by
    intro x hx
    induction hx with
    | refl => exact .refl
    | tail hx hxy ih => exact ih.tail ((hnext _ hx).trans hxy)
  exact ⟨hpath e h.path, (hnext e h.path).trans h.last⟩

-- ---------------------------------------------------------------------------
-- Putting a chain or an expression into a place
-- ---------------------------------------------------------------------------

theorem operandIn_block (w : Workspace) (r p : Ref) (name : Value) (x : Ref) :
    (w.attach r p (.operand name)).block x = (w.fill p (some name) (some r)).block x := by
  rw [attach_operand]
  cases w.contentAt p (some name) with
  | none => rfl
  | some d => exact addRoot_block _ d x

theorem contentAt_operandIn (w : Workspace) (r p : Ref) (name : Value) (x : Ref)
    (q : Option Value) : (w.attach r p (.operand name)).contentAt x q =
      (w.fill p (some name) (some r)).contentAt x q := by
  cases q <;> simp only [contentAt, operandIn_block]

section

variable (h : Linked registry w) (henter : CanEnter registry w r p place)
include h henter

theorem EndsAt.enter (he : w.EndsAt r e) : (w.fill p place (some r)).EndsAt r e := by
  refine he.of_next fun x hx => ?_
  have hne : x ≠ p := by
    rintro rfl
    exact henter.up (hx.lift (fun y => y) fun _ _ => Follows.link)
  exact contentAt_fill_other (q := none) henter.parent_lt h.forest.keys henter.socket.named _
    fun heq => hne heq.1

theorem endsAt_enter_iff : (w.fill p place (some r)).EndsAt r e ↔ w.EndsAt r e := by
  have hend := h.forest.endsAt_chainEnd r
  constructor
  · intro he
    rw [he.unique (hend.enter h henter)]
    exact hend
  · exact fun he => he.enter h henter

omit h in
theorem EndsAt.ne_parent (he : w.EndsAt r e) : e ≠ p := by
  rintro rfl
  exact henter.up (he.path.lift (fun y => y) fun _ _ => Follows.link)

theorem contentAt_chainIn (hr : TypeIs registry w r t) (ht : t.isLink = true) :
    (w.chainIn r p place).contentAt p place = some r ∧
    (∀ e, w.EndsAt r e → (w.chainIn r p place).contentAt e none = w.contentAt p place) ∧
    ∀ x q, ¬(x = p ∧ q = place) → ¬(w.EndsAt r x ∧ q = none) →
      (w.chainIn r p place).contentAt x q = w.contentAt x q := by
  have h' := h.enter henter
  have hlast := (endsAt_enter_iff h henter).mp (h'.forest.endsAt_chainEnd r)
  obtain ⟨-, -, hlt, -⟩ := chainEnd_enter h henter hr ht
  rw [← fill_size w p place (some r)] at hlt
  have hnamed := (placeOf_next registry w p).named
  have hself := contentAt_fill_self hlt h'.forest.keys hnamed (w.contentAt p place)
  have hother := fun x q => contentAt_fill_other (x := x) (q := q) hlt h'.forest.keys hnamed
    (w.contentAt p place)
  have henters := fun x q => contentAt_fill_other (x := x) (q := q) henter.parent_lt h.forest.keys
    henter.socket.named (some r)
  refine ⟨?_, fun e he => ?_, fun x q hplace hend => ?_⟩
  · refine (hother p place fun heq => hlast.ne_parent henter heq.1.symm).trans ?_
    exact contentAt_fill_self henter.parent_lt h.forest.keys henter.socket.named (some r)
  · rw [he.unique hlast]
    exact hself
  · refine (hother x q ?_).trans (henters x q hplace)
    rintro ⟨rfl, rfl⟩
    exact hend ⟨hlast, rfl⟩

theorem inputs_keys_chainIn (hr : TypeIs registry w r t) (ht : t.isLink = true) (x : Ref) :
    ((w.chainIn r p place).block x).inputs.keys = (w.block x).inputs.keys ∨
      x = p ∧ ∃ k, place = some k ∧ k ∉ (w.block x).inputs.keys ∧
        ((w.chainIn r p place).block x).inputs.keys = (w.block x).inputs.keys ++ [k] := by
  obtain ⟨-, -, hlt, -⟩ := chainEnd_enter h henter hr ht
  rw [← fill_size w p place (some r)] at hlt
  have hnamed := (placeOf_next registry w p).named
  have hnext : ((w.chainIn r p place).block x).inputs.keys =
      ((w.fill p place (some r)).block x).inputs.keys := by
    rcases inputs_keys_fill hlt hnamed (w.contentAt p place) x with heq | ⟨-, k, hk, -⟩
    · exact heq
    · cases hk
  rw [hnext]
  exact inputs_keys_fill henter.parent_lt henter.socket.named (some r) x

/-- What stood in a socket is no entry point, so it becomes the last root. -/
theorem operandIn_roots (hregular : registry.Regular) (hplace : place = some name) :
    (w.attach r p (.operand name)).roots = w.roots ++ (w.contentAt p (some name)).toList := by
  subst hplace
  rw [attach_operand]
  cases hd : w.contentAt p (some name) with
  | none => simp
  | some d =>
    have hslot := (contentAt_iff (h.forest.keys p)).mp hd
    have hentry := entry_of_fits hregular (h.fits hslot) (by simp [slotAt])
    have hnot : (w.fill p (some name) (some r)).isEntry d = false := by
      rw [isEntry, (enter_edited h henter).content.type, ← Bool.not_eq_true, Value.same_text]
      exact hentry
    simp [addRoot, hnot]

end

-- ---------------------------------------------------------------------------
-- Connecting
-- ---------------------------------------------------------------------------

section

variable (h : Linked registry w) (hr : w.Live r)
include h hr

theorem EndsAt.cutOut (he : w.EndsAt r e) : (w.cutOut r).EndsAt r e := by
  refine he.of_next fun x hx => (contentAt_cutOut h hr x none).trans (Option.ext fun y => ?_)
  rw [Option.filter_eq_some_iff]
  refine and_iff_left_of_imp fun hy => decide_eq_true ?_
  -- A block that is followed by the first one would close the chain to a cycle.
  rintro rfl
  have hpath : ReflTransGen w.Link y x := hx.lift (fun z => z) fun _ _ => Follows.link
  exact h.forest.slots.acyclic y (.tail' hpath ⟨.next x, rfl, hy⟩)

theorem endsAt_cutOut_iff : (w.cutOut r).EndsAt r e ↔ w.EndsAt r e := by
  have hend := h.forest.endsAt_chainEnd r
  constructor
  · intro he
    rw [he.unique (hend.cutOut h hr)]
    exact hend
  · exact fun he => he.cutOut h hr

end

/-- Whether what stood in a target follows the chain that is put there. -/
def Target.takesChain : Target → Bool
  | .next | .body _ => true
  | .operand _ => false

def displaced (w : Workspace) (r p : Ref) (place : Option Value) : Option Ref :=
  (w.contentAt p place).filter (· ≠ r)

/-- The chain from `r` on has moved to a target of `p`. It left the place that it had, and what it
displaced follows it or is the last root. All other places hold what they held, the other roots are
in the same order, and no block has become another one. -/
structure Moves (w w' : Workspace) (r p : Ref) (target : Target) : Prop where
  content : SameContent w w'
  blocks : w'.allBlocks.Perm w.allBlocks
  arrived : w'.contentAt p target.place = some r
  follows : target.takesChain = true → w.EndsAt r e →
    w'.contentAt e none = w.displaced r p target.place
  kept {x : Ref} {q : Option Value} : ¬(x = p ∧ q = target.place) →
    ¬(target.takesChain = true ∧ w.EndsAt r x ∧ q = none) →
    w'.contentAt x q = (w.contentAt x q).filter (· ≠ r)
  sockets : (w'.block x).inputs.keys = (w.block x).inputs.keys ∨
    x = p ∧ ∃ k, target.place = some k ∧ k ∉ (w.block x).inputs.keys ∧
      (w'.block x).inputs.keys = (w.block x).inputs.keys ++ [k]
  roots : w'.roots = w.roots.erase r ++
    if target.takesChain then [] else (w.displaced r p target.place).toList

section

variable (h : Invariant registry w) (hregular : registry.Regular) (hr : w.Live r) (hp : w.Live p)
  (hup : ¬ReflTransGen w.Link r p) (ht : TypeIs registry w r t) (hu : TypeIs registry w p u)
  (htarget : TargetFits t u socket target)
include h hregular hr hp hup ht hu htarget

theorem attach_blocks : ((w.cutOut r).attach r p target).allBlocks.Perm w.allBlocks := by
  have hrewires := Rewires.connect h hregular hr hp hup ht hu htarget
  have hretains : Retains registry .null w _ := attach_retains h hregular hr hp hup ht hu htarget
  refine (List.perm_ext_iff_of_nodup hrewires.linked.forest.allBlocks_nodup
    h.forest.allBlocks_nodup).mpr fun x => ?_
  rw [hrewires.linked.forest.mem_allBlocks, h.forest.mem_allBlocks]
  exact ⟨hrewires.live, hretains.live⟩

theorem chainIn_moves (hchain : target.takesChain = true) (hlink : t.isLink = true)
    (hattach : (w.cutOut r).attach r p target = (w.cutOut r).chainIn r p target.place) :
    Moves w ((w.cutOut r).attach r p target) r p target := by
  have hcut := h.linked.cutOut hr
  have hcontent := contentAt_cutOut h.linked hr
  have henter := canEnter_cutOut h hregular hr hp hup ht hu htarget
  have hr' := (cutOut_content h.linked hr).typeIs.mpr ht
  obtain ⟨harrived, hfollows, hkept⟩ := contentAt_chainIn hcut henter hr' hlink
  have hkeys := inputs_keys_chainIn hcut henter hr' hlink
  rw [← hattach] at harrived hfollows hkept hkeys
  refine ⟨(Rewires.connect h hregular hr hp hup ht hu htarget).content,
    attach_blocks h hregular hr hp hup ht hu htarget, harrived, fun {e} _ he => ?_,
    fun {x q} hplace hend => ?_, fun {x} => ?_, ?_⟩
  · exact (hfollows e ((endsAt_cutOut_iff h.linked hr).mpr he)).trans (hcontent p _)
  · refine (hkept x q hplace fun hx => ?_).trans (hcontent x q)
    exact hend ⟨hchain, (endsAt_cutOut_iff h.linked hr).mp hx.1, hx.2⟩
  · rw [← inputs_keys_cutOut h.forest hr x]
    exact hkeys x
  · rw [hattach, hchain, chainIn, fill_roots, fill_roots, roots_cutOut h.forest hr]
    simp

theorem operandIn_moves (hoperand : target = .operand name) :
    Moves w ((w.cutOut r).attach r p target) r p target := by
  subst hoperand
  have hcut := h.linked.cutOut hr
  have hcontent := contentAt_cutOut h.linked hr
  have henter : CanEnter registry (w.cutOut r) r p (some name) :=
    canEnter_cutOut h hregular hr hp hup ht hu htarget
  refine ⟨(Rewires.connect h hregular hr hp hup ht hu htarget).content,
    attach_blocks h hregular hr hp hup ht hu htarget, ?_, by simp [Target.takesChain],
    fun {x q} hplace _ => ?_, fun {x} => ?_, ?_⟩
  · rw [contentAt_operandIn]
    exact contentAt_fill_self henter.parent_lt hcut.forest.keys henter.socket.named (some r)
  · rw [contentAt_operandIn, ← hcontent]
    exact contentAt_fill_other henter.parent_lt hcut.forest.keys henter.socket.named (some r) hplace
  · rw [operandIn_block, ← inputs_keys_cutOut h.forest hr x]
    exact inputs_keys_fill henter.parent_lt henter.socket.named (some r) x
  · rw [operandIn_roots hcut henter hregular rfl, roots_cutOut h.forest hr, hcontent]
    rfl

theorem attach_moves : Moves w ((w.cutOut r).attach r p target) r p target := by
  cases target with
  | next => exact chainIn_moves h hregular hr hp hup ht hu htarget rfl htarget.2 rfl
  | body name => exact chainIn_moves h hregular hr hp hup ht hu htarget rfl htarget.2.1 rfl
  | operand name => exact operandIn_moves h hregular hr hp hup ht hu htarget rfl

end

-- ---------------------------------------------------------------------------
-- Connections that are made
-- ---------------------------------------------------------------------------

/-- A target is found exactly if the types fit there; null names the place after the parent. -/
theorem findTarget_ok_iff : findTarget t u socket = .ok target ↔
    TargetFits t u socket target ∧ (target = .next ↔ socket = .null) := by
  constructor
  · intro h
    refine ⟨(findTarget_ok h).1, ?_⟩
    unfold findTarget at h
    split at h
    · rename_i hnull
      unfold checkNext at h
      split at h
      · cases h
      · split at h
        · cases h
        · cases h
          exact iff_of_true rfl (Value.isNull_iff.mp hnull)
    · rename_i hnull
      refine iff_of_false ?_ fun heq => hnull (Value.isNull_iff.mpr heq)
      rintro rfl
      split at h
      · rename_i s _
        cases s with
        | statement name =>
          simp only [checkSocket] at h
          split at h <;> cases h
        | value s =>
          simp only [checkSocket] at h
          split at h
          · cases h
          · split at h <;> cases h
      · cases h
  · rintro ⟨hfits, hnext⟩
    cases target with
    | next =>
      obtain rfl := hnext.mp rfl
      simp [findTarget, Value.isNull, checkNext, hfits.1, hfits.2]
    | body name =>
      obtain ⟨rfl, hlink, s, hs⟩ := hfits
      have hnull : ¬name.isNull = true := fun heq => by
        simpa using hnext.mpr (Value.isNull_iff.mp heq)
      simp [findTarget, hnull, hs, checkSocket, hlink]
    | operand name =>
      obtain ⟨rfl, hexpression, s, hs, haccepts⟩ := hfits
      have hnull : ¬name.isNull = true := fun heq => by
        simpa using hnext.mpr (Value.isNull_iff.mp heq)
      simp [findTarget, hnull, hs, checkSocket, hexpression, haccepts]

/-- The ids are those of two blocks, the parent does not hang off the block, and the types of the two
fit together at the target that the socket names. -/
structure Connects (registry : Registry) (w : Workspace) (block parent socket : Value) (r p : Ref)
    (target : Target) : Prop where
  found : w.Live r ∧ (w.block r).id = block
  parent : w.Live p ∧ (w.block p).id = parent
  outside : ¬ReflTransGen w.Link r p
  fits : ∃ t u, registry.find? (w.block r).type = some t ∧
    registry.find? (w.block p).type = some u ∧ TargetFits t u socket target
  named : target = .next ↔ socket = .null

section

variable {block parent : Value}

theorem Connects.ofRoots (h : w.Forest) (hr : r ∈ w.roots) (hp : p ∈ w.roots) (hne : r ≠ p)
    (hblock : (w.block r).id = block) (hparent : (w.block p).id = parent)
    (hfits : ∃ t u, registry.find? (w.block r).type = some t ∧
      registry.find? (w.block p).type = some u ∧ TargetFits t u socket target)
    (hnamed : target = .next ↔ socket = .null) :
    Connects registry w block parent socket r p target where
  found := ⟨.root hr, hblock⟩
  parent := ⟨.root hp, hparent⟩
  outside := h.slots.not_above_root hp hne
  fits := hfits
  named := hnamed

theorem planMove_ok_iff (h : Invariant registry w) (hregular : registry.Regular) :
    w.planMove registry block parent socket = .ok ⟨r, p, target⟩ ↔
      Connects registry w block parent socket r p target := by
  simp only [planMove, bind_ok, locate_ok, h.findBlock?_ok]
  constructor
  · rintro ⟨r', hr, p', hp, hplan⟩
    split at hplan
    · cases hplan
    · rename_i hup
      simp only [bind_ok, typeOf_ok hregular, mapError_ok, Except.ok.injEq] at hplan
      obtain ⟨t, ht, u, hu, target', htarget, heq⟩ := hplan
      cases heq
      obtain ⟨hfits, hnamed⟩ := findTarget_ok_iff.mp htarget
      exact ⟨hr, hp, h.forest.reaches_iff.not.mp hup, ⟨t, u, ht, hu, hfits⟩, hnamed⟩
  · rintro ⟨hr, hp, hup, ⟨t, u, ht, hu, hfits⟩, hnamed⟩
    refine ⟨r, hr, p, hp, ?_⟩
    rw [if_neg (h.forest.reaches_iff.not.mpr hup)]
    simp only [bind_ok, typeOf_ok hregular, mapError_ok, Except.ok.injEq]
    exact ⟨t, ht, u, hu, target, findTarget_ok_iff.mpr ⟨hfits, hnamed⟩, rfl⟩

theorem connect_eq (h : Invariant registry w) (hregular : registry.Regular)
    (hconnects : Connects registry w block parent socket r p target) :
    w.connect registry block parent socket = (.ok (), (w.cutOut r).attach r p target) := by
  obtain ⟨t, u, -, hu, hfits⟩ := hconnects.fits
  have hkey := findTarget_key hregular hu (findTarget_ok_iff.mpr ⟨hfits, hconnects.named⟩)
  rw [connect, (planMove_ok_iff h hregular).mpr hconnects]
  simp [hkey]

theorem connect_ok_iff (h : Invariant registry w) (hregular : registry.Regular) :
    (w.connect registry block parent socket).1 = .ok () ↔
      ∃ r p target, Connects registry w block parent socket r p target := by
  constructor
  · intro hok
    unfold connect at hok
    split at hok
    · cases hok
    · rename_i r p target hplan
      exact ⟨r, p, target, (planMove_ok_iff h hregular).mp hplan⟩
  · rintro ⟨r, p, target, hconnects⟩
    rw [connect_eq h hregular hconnects]

end

end Workspace

namespace Canvas

open Workspace (Connects Moves)

variable {c : Canvas}

theorem connect_result (c : Canvas) (block parent socket : Value) :
    (c.connect block parent socket).result =
        (c.workspace.connect c.registry block parent socket).1 ∧
      (c.connect block parent socket).canvas.workspace =
        (c.workspace.connect c.registry block parent socket).2 := by
  unfold connect
  split <;> rename_i heq <;> rw [heq] <;> exact ⟨rfl, rfl⟩

/-- A connection is made exactly if both blocks are there, the parent is not below the block, and
the two fit together. Then one chain has moved, and nothing else. -/
theorem connect_moves_chain (settings : Settings) (c : Canvas) (ops : List Operation)
    (hstart : start settings limit = .ok c) (hproper : c.ProperRun ops) (block parent socket : Value) :
    (((c.run ops).1.connect block parent socket).result = .ok () ↔
      ∃ r p target,
        Connects Catalog.registry (c.run ops).1.workspace block parent socket r p target) ∧
    ∀ r p target,
      Connects Catalog.registry (c.run ops).1.workspace block parent socket r p target →
      Moves (c.run ops).1.workspace ((c.run ops).1.connect block parent socket).canvas.workspace
        r p target := by
  have hgood := (good_start hstart).run hproper
  obtain ⟨hresult, hworkspace⟩ := (c.run ops).1.connect_result block parent socket
  rw [hresult, hworkspace, ← hgood.registry]
  refine ⟨Workspace.connect_ok_iff hgood.inv hgood.regular, fun r p target hconnects => ?_⟩
  rw [Workspace.connect_eq hgood.inv hgood.regular hconnects]
  obtain ⟨t, u, ht, hu, hfits⟩ := hconnects.fits
  exact Workspace.attach_moves hgood.inv hgood.regular hconnects.found.1 hconnects.parent.1
    hconnects.outside ht hu hfits

theorem Good.connect (h : Good c) (hw : c.workspace = w)
    (hconnects : Connects Catalog.registry w block parent socket r p target)
    (hattach : (w.cutOut r).attach r p target = w') :
    Good (c.connect block parent socket).canvas ∧
      (c.connect block parent socket).canvas.workspace = w' := by
  subst hw hattach
  have hproper : (Operation.connect block parent socket).Proper c.supply := trivial
  refine ⟨h.apply hproper, ?_⟩
  rw [(c.connect_result block parent socket).2, h.registry,
    Workspace.connect_eq (h.registry ▸ h.inv) Catalog.registry_regular hconnects]

-- ---------------------------------------------------------------------------
-- A run that moves a chain of pauses
-- ---------------------------------------------------------------------------

def placePauses : List Operation :=
  [.createBlock { type := "arduino_delay" }, .createBlock { type := "arduino_delay" },
    .createBlock { type := "arduino_delay" }]

/-- The first pause is put into the entry point, and the third one behind the second. -/
def chainPauses : List Operation :=
  placePauses ++ [.connect "uuid-2" "uuid-1" "SETUP", .connect "uuid-4" "uuid-3" .null]

def pause (id : Value) (next : Option Ref) : Block :=
  { type := "arduino_delay", id, fields := [("TIME", .int 1000)], next }

/-- What the entry point holds, what comes after each pause, and the roots. -/
def pausesWorkspace (held next₁ next₂ next₃ : Option Ref) (roots : List Ref) : Workspace where
  blocks := #[
    { type := .text entryType, id := "uuid-1", inputs := [("SETUP", held), ("LOOP", none)]
      deletable := .bool false },
    pause "uuid-2" next₁, pause "uuid-3" next₂, pause "uuid-4" next₃]
  roots

theorem place_pause (w : Workspace) (supply : Supply) :
    w.place Catalog.registry [] supply { type := "arduino_delay" } =
      (.ok ⟨.text supply.drawId.1, "arduino_delay", [],
        w.addTree (pause (.text supply.drawId.1) none) []⟩, supply.drawId.2) := by
  obtain ⟨t, ht, hid, hfields, hsockets, hdeletable⟩ : ∃ t,
      Gate.placeableType Catalog.registry [] "arduino_delay" = .ok t ∧
        t.typeId = "arduino_delay" ∧
        t.fields = [("TIME", Catalog.number 1000 (some 1) none)] ∧ t.sockets = [] ∧
        t.deletable = .bool true := by
    rw [Catalog.registry_eq]
    exact ⟨_, rfl, rfl, rfl, rfl, rfl⟩
  have hfilled : t.validateFields [] true = .ok [("TIME", .int 1000)] := by
    refine BlockType.validateFields_ok.mpr ⟨by simp [Assoc.names], ?_⟩
    rw [hfields]
    exact .cons ⟨rfl, .inr ⟨rfl, rfl, rfl⟩⟩ .nil
  have hnone : t.variableFields = [] := by
    rw [BlockType.variableFields, hfields]
    rfl
  have hvalues : t.valueSockets = [] := by
    rw [BlockType.valueSockets, hsockets]
    rfl
  have hplan : w.plan Catalog.registry [] { type := "arduino_delay" } =
      .ok ⟨t, [("TIME", .int 1000)], []⟩ := by
    simp only [Workspace.plan, ht, bind, Except.bind, BlockType.validateInput, Value.isEmpty, if_true,
      hfilled, hnone]
    rw [hid]
    rfl
  simp only [Workspace.place, hplan, Workspace.buildBlock, hsockets, hvalues]
  rw [hid, hdeletable]
  rfl

theorem run_pause (hregistry : c.registry = Catalog.registry) (hkinds : c.selection.kinds = [])
    (hrest : ∀ c' : Canvas, c'.registry = Catalog.registry → c'.selection.kinds = [] →
      c'.workspace = c.workspace.addTree (pause (.text c.supply.drawId.1) none) [] →
      c'.supply = c.supply.drawId.2 → (c'.run rest).1.workspace = w) :
    (c.run (.createBlock { type := "arduino_delay" } :: rest)).1.workspace = w := by
  have hplace := place_pause c.workspace c.supply
  rw [← hregistry, ← hkinds] at hplace
  simp only [run, apply, createBlock]
  split <;> rename_i heq
  · cases hplace.symm.trans heq
  · cases hplace.symm.trans heq
    exact hrest _ hregistry hkinds rfl rfl

theorem placePauses_run (h : start settings limit = .ok c) :
    (c.run placePauses).1.workspace = pausesWorkspace none none none none [0, 1, 2, 3] := by
  have hnew := new_of_start h
  have hkinds : c.selection.kinds = [] := congrArg Selection.kinds hnew.selection
  refine run_pause hnew.registry hkinds fun c₁ hregistry₁ hkinds₁ hw₁ hsupply₁ => ?_
  refine run_pause hregistry₁ hkinds₁ fun c₂ hregistry₂ hkinds₂ hw₂ hsupply₂ => ?_
  refine run_pause hregistry₂ hkinds₂ fun c₃ _ _ hw₃ _ => ?_
  rw [run, hw₃, hw₂, hw₁, hsupply₂, hsupply₁, hnew.workspace, hnew.supply]
  have hids : (Supply.drawId {}).2.drawId.1 = "uuid-2" ∧
      (Supply.drawId {}).2.drawId.2.drawId.1 = "uuid-3" ∧
      (Supply.drawId {}).2.drawId.2.drawId.2.drawId.1 = "uuid-4" := by decide
  simp only [hids.1, hids.2.1, hids.2.2]
  rfl

theorem chainPauses_proper (c : Canvas) : c.ProperRun chainPauses :=
  ⟨.inl rfl, .inl rfl, .inl rfl, trivial, trivial, trivial⟩

theorem pause_fits_setup : ∃ t u, Catalog.registry.find? "arduino_delay" = some t ∧
    Catalog.registry.find? (.text entryType) = some u ∧
      Workspace.TargetFits t u "SETUP" (.body "SETUP") := by
  rw [Catalog.registry_eq]
  exact ⟨_, _, rfl, rfl, rfl, rfl, _, rfl⟩

theorem pause_fits_pause : ∃ t u, Catalog.registry.find? "arduino_delay" = some t ∧
    Catalog.registry.find? "arduino_delay" = some u ∧
      Workspace.TargetFits t u .null .next := by
  rw [Catalog.registry_eq]
  exact ⟨_, _, rfl, rfl, rfl, rfl⟩

theorem chainPauses_run (h : start settings limit = .ok c) :
    Good (c.run chainPauses).1 ∧
      (c.run chainPauses).1.workspace = pausesWorkspace (some 1) none (some 3) none [0, 2] := by
  have hplacing : c.ProperRun placePauses := ⟨.inl rfl, .inl rfl, .inl rfl, trivial⟩
  have hgood := (good_start h).run hplacing
  have hplaced := placePauses_run h
  have hheld : Connects Catalog.registry (pausesWorkspace none none none none [0, 1, 2, 3])
      "uuid-2" "uuid-1" "SETUP" 1 0 (.body "SETUP") :=
    .ofRoots (hplaced ▸ hgood.inv.forest) (by decide) (by decide) (by decide) rfl rfl
      pause_fits_setup (by simp)
  have hattach : ((pausesWorkspace none none none none [0, 1, 2, 3]).cutOut 1).attach 1 0
      (.body "SETUP") = pausesWorkspace (some 1) none none none [0, 2, 3] := rfl
  obtain ⟨hgood', hfirst⟩ := hgood.connect hplaced hheld hattach
  have hchained : Connects Catalog.registry (pausesWorkspace (some 1) none none none [0, 2, 3])
      "uuid-4" "uuid-3" .null 3 2 .next :=
    .ofRoots (hfirst ▸ hgood'.inv.forest) (by decide) (by decide) (by decide) rfl rfl
      pause_fits_pause (by simp)
  exact hgood'.connect hfirst hchained rfl

/-- The second pause is put into the entry point with the third one behind it. The first one, which
was there, comes after them. -/
theorem connect_moves_pauses : ∃ c, start {} = .ok c ∧ c.ProperRun chainPauses ∧
    (c.run chainPauses).1.workspace = pausesWorkspace (some 1) none (some 3) none [0, 2] ∧
    Connects Catalog.registry (c.run chainPauses).1.workspace "uuid-3" "uuid-1" "SETUP" 2 0
      (.body "SETUP") ∧
    ((c.run chainPauses).1.connect "uuid-3" "uuid-1" "SETUP").result = .ok () ∧
    Moves (c.run chainPauses).1.workspace
      ((c.run chainPauses).1.connect "uuid-3" "uuid-1" "SETUP").canvas.workspace 2 0
      (.body "SETUP") ∧
    ((c.run chainPauses).1.connect "uuid-3" "uuid-1" "SETUP").canvas.workspace =
      pausesWorkspace (some 2) none (some 3) (some 1) [0] := by
  obtain ⟨c, hstart⟩ := exists_start
  have hproper := chainPauses_proper c
  obtain ⟨hgood, hrun⟩ := chainPauses_run hstart
  have hmoved : Connects Catalog.registry (pausesWorkspace (some 1) none (some 3) none [0, 2])
      "uuid-3" "uuid-1" "SETUP" 2 0 (.body "SETUP") :=
    .ofRoots (hrun ▸ hgood.inv.forest) (by decide) (by decide) (by decide) rfl rfl
      pause_fits_setup (by simp)
  have hspliced : ((pausesWorkspace (some 1) none (some 3) none [0, 2]).cutOut 2).attach 2 0
      (.body "SETUP") = pausesWorkspace (some 2) none (some 3) (some 1) [0] := rfl
  have hworkspace := (hgood.connect hrun hmoved hspliced).2
  rw [← hrun] at hmoved
  obtain ⟨hiff, hmoves⟩ := connect_moves_chain {} c _ hstart hproper "uuid-3" "uuid-1" "SETUP"
  refine ⟨c, hstart, hproper, hrun, hmoved, hiff.mpr ⟨_, _, _, hmoved⟩, hmoves _ _ _ hmoved, hworkspace⟩

end Canvas

end BlockSketch
