import BlockSketch.Proofs.Document.Links

/-!
# Roots and what they lead to

The worklist meets every id that a root leads to, and never one twice if nothing has two parents and
no root has one. Together with the checks of the roots this makes the links an acyclic forest.
-/

namespace BlockSketch.Document

open Ancestry
open Relation (ReflTransGen TransGen)

/-- One id is linked to by the entry of another. -/
def Child (entries : List Entry) (a b : String) : Prop :=
  ∃ e ∈ entries, e.id = a ∧ b ∈ e.links

theorem mem_links {entries : List Entry} :
    b ∈ entries.flatMap Entry.links ↔ ∃ a, Child entries a b := by
  simp [Child]

theorem oneParent {entries : List Entry} (hl : (entries.flatMap Entry.links).Nodup) :
    OneParent (Child entries) := by
  rintro _ _ c ⟨e, he, rfl, hc⟩ ⟨e', he', rfl, hc'⟩
  by_contra hne
  have hdisjoint := (List.nodup_flatMap.mp hl).2
  have hsymm : Std.Symm (Function.onFun List.Disjoint Entry.links) :=
    ⟨fun _ _ h => h.symm⟩
  exact hdisjoint.forall he he' (fun h => hne (h ▸ rfl)) hc hc'

-- ---------------------------------------------------------------------------
-- The worklist
-- ---------------------------------------------------------------------------

/-- What holds of the ids met and those still on the stack. -/
structure Worklist (entries : List Entry) (roots reached stack : List String) : Prop where
  nodup : (reached ++ stack).Nodup
  seeds : ∀ root ∈ roots, root ∈ reached ++ stack
  origin : ∀ x ∈ reached ++ stack, x ∈ roots ∨ ∃ y ∈ reached, Child entries y x
  closed : ∀ x ∈ reached, ∀ y, Child entries x y → y ∈ reached ++ stack
  sound : ∀ x ∈ reached ++ stack, ∃ root ∈ roots, ReflTransGen (Child entries) root x

theorem Worklist.start (hr : roots.Nodup) : Worklist entries roots [] roots.reverse where
  nodup := by simpa using hr
  seeds := by simp
  origin x hx := .inl (by simpa using hx)
  closed := by simp
  sound x hx := ⟨x, by simpa using hx, .refl⟩

section

variable {entries : List Entry} {roots : List String}
  (hl : (entries.flatMap Entry.links).Nodup)
  (hr : ∀ root ∈ roots, root ∉ entries.flatMap Entry.links)
include hl hr

/-- Meeting the top of the stack, whose links are pushed. Nothing that was met or pushed before is
among them, as that came from elsewhere. -/
theorem Worklist.step (h : Worklist entries roots reached (x :: rest)) (links : List String)
    (hlinks : links.Nodup) (hx : ∀ y, y ∈ links ↔ Child entries x y) :
    Worklist entries roots (x :: reached) (links.reverse ++ rest) := by
  have hperm : (x :: reached ++ (links.reverse ++ rest)).Perm
      (links.reverse ++ (reached ++ x :: rest)) := by
    grind [List.perm_append_comm, List.perm_middle]
  have hmem : ∀ y, y ∈ x :: reached ++ (links.reverse ++ rest) ↔
      y ∈ links ∨ y ∈ reached ++ x :: rest := by
    intro y
    rw [hperm.mem_iff]
    simp
  have hxnew : x ∉ reached := fun hmem =>
    (List.nodup_append.mp h.nodup).2.2 x hmem x (by simp) rfl
  refine ⟨?_, ?_, ?_, ?_, ?_⟩
  · rw [hperm.nodup_iff, List.nodup_append]
    refine ⟨by simpa using hlinks, h.nodup, ?_⟩
    rintro y hy _ hold rfl
    have hchild := (hx y).mp (by simpa using hy)
    rcases h.origin y hold with hroot | ⟨z, hz, hzy⟩
    · exact hr y hroot (mem_links.mpr ⟨x, hchild⟩)
    · exact hxnew (oneParent hl _ _ _ hzy hchild ▸ hz)
  · intro root hroot
    exact (hmem root).mpr (.inr (h.seeds root hroot))
  · intro y hy
    rcases (hmem y).mp hy with hy | hy
    · exact .inr ⟨x, by simp, (hx y).mp hy⟩
    · rcases h.origin y hy with hroot | ⟨z, hz, hzy⟩
      · exact .inl hroot
      · exact .inr ⟨z, by simp [hz], hzy⟩
  · intro z hz y hzy
    rw [hmem]
    rcases List.mem_cons.mp hz with rfl | hz
    · exact .inl ((hx y).mpr hzy)
    · exact .inr (h.closed z hz y hzy)
  · intro y hy
    rcases (hmem y).mp hy with hy | hy
    · obtain ⟨root, hroot, hpath⟩ := h.sound x (by simp)
      exact ⟨root, hroot, hpath.tail ((hx y).mp hy)⟩
    · exact h.sound y hy

theorem reach_total (hn : (entries.map Entry.id).Nodup) (h : Worklist entries roots reached stack) :
    ∃ met, reach entries reached stack = .ok met ∧ Worklist entries roots met [] := by
  fun_induction reach entries reached stack with
  | case1 reached => exact ⟨reached, rfl, h⟩
  | case2 reached x rest hmet =>
    exact ((List.nodup_append.mp h.nodup).2.2 x (by simpa using hmet) x (by simp) rfl).elim
  | case3 reached x rest hnew e hfind ih =>
    obtain ⟨he, rfl⟩ := (find?_ok hn).mp hfind
    refine ih (h.step hl hr e.links ((List.nodup_flatMap.mp hl).1 e he) fun y => ?_)
    constructor
    · exact fun hy => ⟨e, he, rfl, hy⟩
    · rintro ⟨e', he', hid, hy⟩
      exact eq_of_id hn he' he hid ▸ hy
  | case4 reached x rest hnew hfind ih =>
    have hnone : ∀ y, y ∈ [] ↔ Child entries x y := by
      simp only [List.not_mem_nil, false_iff]
      rintro y ⟨e, he, hid, -⟩
      simp [(find?_ok hn).mpr ⟨he, hid⟩] at hfind
    exact ih (by simpa using h.step hl hr [] (by simp) hnone)

/-- The worklist meets exactly what the roots lead to. -/
theorem reach_exact (hn : (entries.map Entry.id).Nodup) (hroots : roots.Nodup) :
    ∃ met, reach entries [] roots.reverse = .ok met ∧
      ∀ x, x ∈ met ↔ ∃ root ∈ roots, ReflTransGen (Child entries) root x := by
  obtain ⟨met, hmet, h⟩ := reach_total hl hr hn (.start hroots)
  refine ⟨met, hmet, fun x => ⟨fun hx => h.sound x (by simpa using hx), ?_⟩⟩
  rintro ⟨root, hroot, hpath⟩
  induction hpath with
  | refl => simpa using h.seeds root hroot
  | tail _ hyz ih => simpa using h.closed _ ih _ hyz

end

-- ---------------------------------------------------------------------------
-- The roots
-- ---------------------------------------------------------------------------

theorem checkRoot_ok {entries : List Entry} {parents : Parents} :
    checkRoot entries parents x = .ok u ↔ x ∈ entries.map Entry.id ∧ x ∉ parents.names := by
  simp only [checkRoot, bind_ok, require_ok, Bool.not_eq_true', ← Bool.not_eq_true, Assoc.has_iff,
    find?, List.find?_isSome, List.mem_map, beq_iff_eq]
  constructor
  · rintro ⟨_, h⟩
    exact h
  · exact fun h => ⟨(), h⟩

def Entry.IsEntryPoint (e : Entry) : Prop :=
  e.type.typeId = .text entryType

structure SoleEntry (entries : List Entry) (linked : List String) : Prop where
  sole : ∀ e ∈ entries, ∀ e' ∈ entries, e.IsEntryPoint → e'.IsEntryPoint → e = e'
  free : ∀ e ∈ entries, e.IsEntryPoint → e.id ∉ linked

theorem checkEntryPoint_ok {entries : List Entry} {parents : Parents}
    (hn : (entries.map Entry.id).Nodup) :
    checkEntryPoint entries parents = .ok u ↔ SoleEntry entries parents.names := by
  have hmem : ∀ e, e ∈ entries.filter (·.type.typeId.same entryType) ↔
      e ∈ entries ∧ e.IsEntryPoint := by simp [Entry.IsEntryPoint]
  unfold checkEntryPoint
  split
  · rename_i h
    simp only [h, List.not_mem_nil, false_iff, not_and] at hmem
    refine iff_of_true rfl ⟨fun e he _ _ ht => (hmem e he ht).elim, fun e he ht => (hmem e he ht).elim⟩
  · rename_i entry h
    simp only [h, List.mem_singleton] at hmem
    simp only [require_ok, Bool.not_eq_true', ← Bool.not_eq_true, Assoc.has_iff]
    constructor
    · intro hfree
      refine ⟨fun e he e' he' ht ht' => ?_, fun e he ht => (hmem e).mpr ⟨he, ht⟩ ▸ hfree⟩
      exact ((hmem e).mpr ⟨he, ht⟩).trans ((hmem e').mpr ⟨he', ht'⟩).symm
    · intro hsole
      obtain ⟨he, ht⟩ := (hmem entry).mp rfl
      exact hsole.free entry he ht
  · rename_i hnil hone
    simp only [fail_ok, false_iff]
    intro hsole
    rcases h : entries.filter (·.type.typeId.same entryType) with _ | ⟨e, _ | ⟨e', rest⟩⟩
    · exact hnil h
    · exact hone e h
    · obtain ⟨he, ht⟩ := (hmem e).mp (by simp [h])
      obtain ⟨he', ht'⟩ := (hmem e').mp (by simp [h])
      have hnodup := (hn.of_map).filter (·.type.typeId.same entryType)
      rw [h, hsole.sole e he e' he' ht ht'] at hnodup
      simp at hnodup

theorem sorted_eq_nil : Text.sorted names = [] ↔ names = [] := by
  rw [← List.length_eq_zero_iff, Text.sorted, List.length_mergeSort, List.length_eq_zero_iff]

theorem checkReach_ok {entries : List Entry} {roots : List String}
    (hn : (entries.map Entry.id).Nodup) (hl : (entries.flatMap Entry.links).Nodup)
    (hr : ∀ root ∈ roots, root ∉ entries.flatMap Entry.links) (hroots : roots.Nodup) :
    checkReach entries roots = .ok u ↔
      ∀ e ∈ entries, ∃ root ∈ roots, ReflTransGen (Child entries) root e.id := by
  obtain ⟨met, hmet, hexact⟩ := reach_exact hl hr hn hroots
  have hall : (entries.map Entry.id).filter (!met.contains ·) = [] ↔
      ∀ e ∈ entries, ∃ root ∈ roots, ReflTransGen (Child entries) root e.id := by
    simp [List.filter_eq_nil_iff, hexact]
  simp only [checkReach, hmet, bind_ok, Except.ok.injEq, exists_eq_left', ← hall]
  rw [← sorted_eq_nil]
  split
  · rename_i h
    exact iff_of_true rfl h
  · rename_i h
    simp only [failAt_ok, false_iff]
    exact fun hnil => List.cons_ne_nil _ _ (h.symm.trans hnil)

/-- Every root is an entry without a parent, and the roots lead to all entries. -/
structure Rooted (entries : List Entry) (roots : List String) : Prop where
  free : ∀ root ∈ roots, root ∈ entries.map Entry.id ∧ root ∉ entries.flatMap Entry.links
  covers : ∀ e ∈ entries, ∃ root ∈ roots, ReflTransGen (Child entries) root e.id

theorem checkRoots_ok {entries : List Entry} {parents : Parents}
    (hn : (entries.map Entry.id).Nodup) (hl : (entries.flatMap Entry.links).Nodup)
    (hp : parents.names = entries.flatMap Entry.links) :
    checkRoots entries parents roots = .ok ids ↔
      roots = ids.map .text ∧ ids.Nodup ∧ Rooted entries ids ∧
        SoleEntry entries (entries.flatMap Entry.links) := by
  unfold checkRoots
  split
  · rename_i hnone
    simp only [fail_ok, false_iff, not_and]
    intro htexts
    simp [Value.mapM_text?.mpr htexts] at hnone
  · rename_i texts hsome
    obtain rfl := Value.mapM_text?.mp hsome
    have hinj : texts.map Value.text = ids.map Value.text ↔ texts = ids :=
      (List.map_injective_iff.mpr fun _ _ => Value.text.inj).eq_iff
    simp only [bind_ok, require_ok, beq_iff_eq, eraseDups_length_eq, forM_ok, checkRoot_ok,
      checkEntryPoint_ok hn, hp, Except.ok.injEq, hinj]
    constructor
    · rintro ⟨_, hnodup, _, hroots, _, hentry, _, hreach, rfl⟩
      have hr := fun root hroot => (hroots root hroot).2
      exact ⟨rfl, hnodup, ⟨hroots, (checkReach_ok hn hl hr hnodup).mp hreach⟩, hentry⟩
    · rintro ⟨rfl, hnodup, ⟨hroots, hcovers⟩, hentry⟩
      have hr := fun root hroot => (hroots root hroot).2
      exact ⟨(), hnodup, (), hroots, (), hentry, (),
        (checkReach_ok hn hl hr hnodup).mpr hcovers, rfl⟩

/-- Entries without two parents hang off roots without a parent exactly if their links are acyclic
and the roots are all the entries without a parent. -/
theorem rooted_iff {entries : List Entry} (hl : (entries.flatMap Entry.links).Nodup) :
    Rooted entries roots ↔ Acyclic (Child entries) ∧
      ∀ x, x ∈ roots ↔ x ∈ entries.map Entry.id ∧ x ∉ entries.flatMap Entry.links := by
  have hone := oneParent hl
  have hno : ∀ x, x ∉ entries.flatMap Entry.links ↔ ∀ p, ¬Child entries p x := by
    intro x
    rw [mem_links, not_exists]
  constructor
  · rintro ⟨hroots, hcovers⟩
    refine ⟨?_, fun x => ⟨hroots x, ?_⟩⟩
    · intro x hcycle
      obtain ⟨y, ⟨e, he, rfl, -⟩, -⟩ := TransGen.head'_iff.mp hcycle
      obtain ⟨root, hroot, hpath⟩ := hcovers e he
      exact hone.acyclic_from ((hno root).mp (hroots root hroot).2) hpath hcycle
    · rintro ⟨hx, hx'⟩
      obtain ⟨e, he, rfl⟩ := List.mem_map.mp hx
      obtain ⟨root, hroot, hpath⟩ := hcovers e he
      exact eq_of_no_parent ((hno _).mp hx') hpath ▸ hroot
  · rintro ⟨hacyclic, hroots⟩
    refine ⟨fun x => (hroots x).mp, fun e he => ?_⟩
    obtain ⟨root, hroot, hfree, hpath⟩ := hacyclic.exists_root (entries.map Entry.id)
      (fun a b ⟨e, he, hid, _⟩ => List.mem_map.mpr ⟨e, he, hid⟩) (List.mem_map_of_mem he)
    exact ⟨root, (hroots root).mpr ⟨hroot, (hno root).mpr hfree⟩, hpath⟩

-- ---------------------------------------------------------------------------
-- Records that fit together
-- ---------------------------------------------------------------------------

structure Forest (entries : List Entry) (roots : List String) : Prop where
  ids : (entries.map Entry.id).Nodup
  linked : ∀ e ∈ entries, e.Linked entries
  oneParent : (entries.flatMap Entry.links).Nodup
  acyclic : Acyclic (Child entries)
  nodup : roots.Nodup
  tops : ∀ x, x ∈ roots ↔ x ∈ entries.map Entry.id ∧ x ∉ entries.flatMap Entry.links
  entry : SoleEntry entries (entries.flatMap Entry.links)

theorem assemble_ok {drafts : List (Option Draft)} :
    assemble registry names drafts roots = .ok w ↔
      ∃ entries ids, List.Forall₂ (fun d e => readRecord registry names d = .ok e) drafts entries ∧
        roots = ids.map .text ∧ Forest entries ids ∧ w = build entries ids names := by
  have hnil : (List.map Entry.id []).Nodup := List.nodup_nil
  simp only [assemble, bind_ok, readRecords_ok hnil, List.nil_append, Except.ok.injEq]
  constructor
  · rintro ⟨entries, ⟨_, rfl, hn, hread⟩, parents, hparents, ids, hids, rfl⟩
    obtain ⟨hlinked, hnames, hl⟩ := checkLinks_sound hn (by simp [Assoc.names]) hparents
    have hp : parents.names = entries.flatMap Entry.links := by simpa [Assoc.names] using hnames
    rw [hp] at hl
    obtain ⟨htexts, hnodup, hrooted, hentry⟩ := (checkRoots_ok hn hl hp).mp hids
    obtain ⟨hacyclic, hroots⟩ := (rooted_iff hl).mp hrooted
    exact ⟨entries, ids, hread, htexts, ⟨hn, hlinked, hl, hacyclic, hnodup, hroots, hentry⟩, rfl⟩
  · rintro ⟨entries, ids, hread, htexts, ⟨hn, hlinked, hl, hacyclic, hnodup, hroots, hentry⟩, rfl⟩
    obtain ⟨parents, hparents⟩ :=
      checkLinks_complete hn [] hlinked (by simpa [Assoc.names] using hl)
    obtain ⟨-, hnames, -⟩ := checkLinks_sound hn (by simp [Assoc.names]) hparents
    have hp : parents.names = entries.flatMap Entry.links := by simpa [Assoc.names] using hnames
    have hrooted := (rooted_iff hl).mpr ⟨hacyclic, hroots⟩
    exact ⟨entries, ⟨entries, rfl, hn, hread⟩, parents, hparents, ids,
      (checkRoots_ok hn hl hp).mpr ⟨htexts, hnodup, hrooted, hentry⟩, rfl⟩

end BlockSketch.Document
