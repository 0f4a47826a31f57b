import BlockSketch.Proofs.Ancestry
import BlockSketch.Proofs.Document.Entry
import Mathlib.Data.List.Nodup

/-!
# Links between records

Which links are accepted, and what the roots have to be. No check looks for cycles: that the links
are acyclic follows from every entry having at most one parent and being reached from a root that
has none.
-/

namespace BlockSketch

theorem nodup_concat {l : List α} : (l ++ [a]).Nodup ↔ a ∉ l ∧ l.Nodup :=
  List.nodup_append_comm.trans List.nodup_cons

theorem eraseDups_length_le (names : List String) : names.eraseDups.length ≤ names.length := by
  match names with
  | [] => simp
  | n :: rest =>
    have hfilter := List.length_filter_le (fun b => !b == n) rest
    have hle := eraseDups_length_le (rest.filter fun b => !b == n)
    rw [List.eraseDups_cons, List.length_cons, List.length_cons]
    omega
termination_by names.length

/-- Counting what is left without repetitions tells whether there are any. -/
theorem eraseDups_length_eq {names : List String} :
    names.eraseDups.length = names.length ↔ names.Nodup := by
  induction names with
  | nil => simp
  | cons n rest ih =>
    have hfilter := List.length_filter_le (fun b => !b == n) rest
    have hle := eraseDups_length_le (rest.filter fun b => !b == n)
    rw [List.eraseDups_cons, List.length_cons, List.length_cons, List.nodup_cons, ← ih]
    constructor
    · intro h
      have hsame : rest.filter (fun b => !b == n) = rest :=
        List.filter_sublist.eq_of_length (by omega)
      refine ⟨fun hmem => ?_, by rw [hsame] at h; omega⟩
      simpa using List.filter_eq_self.mp hsame n hmem
    · rintro ⟨hnew, h⟩
      have hsame : rest.filter (fun b => !b == n) = rest := by
        rw [List.filter_eq_self]
        rintro b hb
        simpa using fun hbn : b = n => hnew (hbn ▸ hb)
      rw [hsame, h]

namespace Document

open Ancestry Relation

-- ---------------------------------------------------------------------------
-- One link
-- ---------------------------------------------------------------------------

theorem adopt_ok {entries : List Entry} (hn : (entries.map Entry.id).Nodup) {parents : Parents} :
    adopt entries parents parent v = .ok (child, parents') ↔
      (child ∈ entries ∧ v = .text child.id) ∧ child.id ∉ parents.names ∧
        parents' = parents.put child.id parent := by
  have hfound : v.text?.bind (find? entries) = some child ↔
      child ∈ entries ∧ v = .text child.id := by
    simp only [Option.bind_eq_some_iff, Value.text?_eq_some, find?_ok hn]
    constructor
    · rintro ⟨_, hv, hc, rfl⟩
      exact ⟨hc, hv⟩
    · rintro ⟨hc, hv⟩
      exact ⟨_, hv, hc, rfl⟩
  unfold adopt
  split
  · rename_i hnone
    simp only [failAt_ok, false_iff, not_and]
    intro hc
    simp [hfound.mpr hc] at hnone
  · rename_i found hsome
    split
    · rename_i hhas
      simp only [failAt_ok, false_iff, not_and]
      intro hc hnew
      rw [hfound.mpr hc] at hsome
      cases hsome
      exact (hnew (Assoc.has_iff.mp hhas)).elim
    · rename_i hhas
      rw [Assoc.has_iff] at hhas
      simp only [Except.ok.injEq, Prod.mk.injEq, ← hfound, hsome, Option.some.injEq]
      constructor
      · rintro ⟨rfl, rfl⟩
        exact ⟨rfl, hhas, rfl⟩
      · rintro ⟨rfl, -, rfl⟩
        exact ⟨rfl, rfl⟩

theorem checkSocket_ok : checkSocket parent name child socket = .ok u ↔ socket.Fits child := by
  cases socket <;> simp [checkSocket, require_ok, Socket.Fits]

/-- A link leads nowhere, or to an entry of a suitable type. -/
def Leads (entries : List Entry) (suits : BlockType → Prop) (v : Value) : Prop :=
  v = .null ∨ ∃ child ∈ entries, v = .text child.id ∧ suits child.type

def InputFits (entries : List Entry) (t : BlockType) (input : Value × Value) : Prop :=
  ∃ socket, t.socket? input.1 = some socket ∧ Leads entries (socket.Fits ·) input.2

def NextFits (entries : List Entry) (t : BlockType) (next : Value) : Prop :=
  Leads entries (fun child => t.isLink = true ∧ child.isLink = true) next

def linksIn (inputs : Table Value) : List String :=
  inputs.filterMap fun input => input.2.text?

@[simp] theorem linksIn_nil : linksIn [] = [] := rfl

@[simp] theorem linksIn_null (name : Value) (inputs : Table Value) :
    linksIn ((name, .null) :: inputs) = linksIn inputs := rfl

@[simp] theorem linksIn_text (name : Value) (child : String) (inputs : Table Value) :
    linksIn ((name, .text child) :: inputs) = child :: linksIn inputs := rfl

theorem links_eq (e : Entry) : e.links = linksIn e.inputs ++ e.next.text?.toList := by
  cases h : e.next.text? <;> simp [Entry.links, linksIn, h]

-- ---------------------------------------------------------------------------
-- The links of an entry
-- ---------------------------------------------------------------------------

section

variable {entries : List Entry} (hn : (entries.map Entry.id).Nodup) {parents : Parents}
include hn

theorem checkInputs_sound {inputs : Table Value} (hp : parents.names.Nodup)
    (h : checkInputs entries e parents inputs = .ok parents') :
    (∀ input ∈ inputs, InputFits entries e.type input) ∧
      parents'.names = parents.names ++ linksIn inputs ∧
      parents'.names.Nodup := by
  induction inputs generalizing parents with
  | nil =>
    cases h
    simpa using hp
  | cons input inputs ih =>
    obtain ⟨name, v⟩ := input
    unfold checkInputs at h
    split at h
    · simp at h
    · rename_i socket hs
      split at h
      · rename_i hv
        obtain rfl := Value.isNull_iff.mp hv
        obtain ⟨hfit, hnames, hnodup⟩ := ih hp h
        exact ⟨List.forall_mem_cons.mpr ⟨⟨socket, hs, .inl rfl⟩, hfit⟩, hnames, hnodup⟩
      · simp only [bind_ok, Prod.exists, adopt_ok hn, checkSocket_ok] at h
        obtain ⟨child, _, ⟨⟨hc, rfl⟩, hnew, rfl⟩, _, hsuits, h⟩ := h
        have hnames := Assoc.names_put_new hnew e.id
        obtain ⟨hfit, hnames', hnodup⟩ := ih (by
          rw [hnames]; exact nodup_concat.mpr ⟨hnew, hp⟩) h
        refine ⟨List.forall_mem_cons.mpr ⟨⟨socket, hs, .inr ⟨child, hc, rfl, hsuits⟩⟩, hfit⟩, ?_,
          hnodup⟩
        simpa [hnames] using hnames'

theorem checkInputs_complete {inputs : Table Value}
    (hfit : ∀ input ∈ inputs, InputFits entries e.type input)
    (hnodup : (parents.names ++ linksIn inputs).Nodup) :
    ∃ parents', checkInputs entries e parents inputs = .ok parents' := by
  induction inputs generalizing parents with
  | nil => exact ⟨parents, rfl⟩
  | cons input inputs ih =>
    obtain ⟨name, v⟩ := input
    obtain ⟨⟨socket, hs, hv⟩, hrest⟩ := List.forall_mem_cons.mp hfit
    simp only at hs hv
    simp only [checkInputs, hs]
    rcases hv with rfl | ⟨child, hc, rfl, hsuits⟩
    · simpa [Value.isNull] using ih hrest (by simpa using hnodup)
    · rw [linksIn_text, ← List.singleton_append, ← List.append_assoc] at hnodup
      have hnew := (nodup_concat.mp (List.nodup_append.mp hnodup).1).1
      rw [← Assoc.names_put_new hnew e.id] at hnodup
      obtain ⟨parents', h⟩ := ih hrest hnodup
      refine ⟨parents', ?_⟩
      simp only [Value.isNull, Bool.false_eq_true, ↓reduceIte, bind_ok, Prod.exists, adopt_ok hn,
        checkSocket_ok]
      exact ⟨child, _, ⟨⟨hc, rfl⟩, hnew, rfl⟩, (), hsuits, h⟩

theorem checkNext_sound (hp : parents.names.Nodup)
    (h : checkNext entries e parents = .ok parents') :
    NextFits entries e.type e.next ∧ parents'.names = parents.names ++ e.next.text?.toList ∧
      parents'.names.Nodup := by
  unfold checkNext at h
  split at h
  · rename_i hv
    cases h
    rw [Value.isNull_iff.mp hv]
    exact ⟨.inl rfl, by simp [Value.text?], hp⟩
  · simp only [bind_ok, require_ok, Prod.exists, adopt_ok hn, Except.ok.injEq] at h
    obtain ⟨_, hlink, child, _, ⟨⟨hc, hv⟩, hnew, rfl⟩, _, hchild, rfl⟩ := h
    rw [hv, Assoc.names_put_new hnew]
    exact ⟨.inr ⟨child, hc, rfl, hlink, hchild⟩, by simp [Value.text?], nodup_concat.mpr ⟨hnew, hp⟩⟩

theorem checkNext_complete (hfit : NextFits entries e.type e.next)
    (hnodup : (parents.names ++ e.next.text?.toList).Nodup) :
    ∃ parents', checkNext entries e parents = .ok parents' := by
  unfold checkNext
  rcases hfit with hv | ⟨child, hc, hv, hlink, hchild⟩
  · exact ⟨parents, by simp [hv, Value.isNull]⟩
  · rw [hv] at hnodup
    have hnew := (nodup_concat.mp hnodup).1
    refine ⟨parents.put child.id e.id, ?_⟩
    simp only [hv, Value.isNull, Bool.false_eq_true, ↓reduceIte, bind_ok, require_ok, Prod.exists,
      adopt_ok hn, Except.ok.injEq]
    exact ⟨(), hlink, child, _, ⟨⟨hc, rfl⟩, hnew, rfl⟩, (), hchild, rfl⟩

end

structure Entry.Linked (entries : List Entry) (e : Entry) : Prop where
  inputs : ∀ input ∈ e.inputs, InputFits entries e.type input
  next : NextFits entries e.type e.next

section

variable {entries : List Entry} (hn : (entries.map Entry.id).Nodup) {parents : Parents}
include hn

theorem checkLinks_sound (hp : parents.names.Nodup)
    (h : checkLinks entries parents rest = .ok parents') :
    (∀ e ∈ rest, e.Linked entries) ∧
      parents'.names = parents.names ++ rest.flatMap Entry.links ∧ parents'.names.Nodup := by
  induction rest generalizing parents with
  | nil =>
    cases h
    simpa using hp
  | cons e rest ih =>
    simp only [checkLinks, bind_ok] at h
    obtain ⟨parents₁, h₁, parents₂, h₂, h⟩ := h
    obtain ⟨hinputs, hnames₁, hp₁⟩ := checkInputs_sound hn hp h₁
    obtain ⟨hnext, hnames₂, hp₂⟩ := checkNext_sound hn hp₁ h₂
    obtain ⟨hrest, hnames, hp'⟩ := ih hp₂ h
    refine ⟨List.forall_mem_cons.mpr ⟨⟨hinputs, hnext⟩, hrest⟩, ?_, hp'⟩
    simp [hnames, hnames₂, hnames₁, links_eq]

theorem checkLinks_complete (parents : Parents) (hfit : ∀ e ∈ rest, e.Linked entries)
    (hnodup : (parents.names ++ rest.flatMap Entry.links).Nodup) :
    ∃ parents', checkLinks entries parents rest = .ok parents' := by
  induction rest generalizing parents with
  | nil => exact ⟨parents, rfl⟩
  | cons e rest ih =>
    obtain ⟨⟨hinputs, hnext⟩, hrest⟩ := List.forall_mem_cons.mp hfit
    rw [List.flatMap_cons, links_eq, List.append_assoc, ← List.append_assoc] at hnodup
    obtain ⟨hp₁, -⟩ := List.nodup_append.mp hnodup
    obtain ⟨parents₁, h₁⟩ := checkInputs_complete hn hinputs hp₁
    obtain ⟨-, hnames₁, -⟩ := checkInputs_sound hn (List.nodup_append.mp hp₁).1 h₁
    rw [← hnames₁] at hp₁ hnodup
    rw [← List.append_assoc] at hnodup
    obtain ⟨hp₂, -⟩ := List.nodup_append.mp hnodup
    obtain ⟨parents₂, h₂⟩ := checkNext_complete hn hnext hp₂
    obtain ⟨-, hnames₂, -⟩ := checkNext_sound hn hp₁ h₂
    rw [← hnames₂] at hnodup
    obtain ⟨parents', h⟩ := ih _ hrest hnodup
    exact ⟨parents', by simp only [checkLinks, bind_ok]; exact ⟨_, h₁, _, h₂, h⟩⟩

end

end Document

end BlockSketch
