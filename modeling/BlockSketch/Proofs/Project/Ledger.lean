import BlockSketch.Proofs.Json.RoundTrip
import BlockSketch.Proofs.Project.Tables
import Mathlib.Logic.Function.Basic

/-!
# The store as a map

A store answers as a map from ids to projects does. The map says what its two tables hold
(`Represents`): every project has one row, with its workspace as a text that is read back, and its
components are the rows of that project, numbered in order. No row of a component is left without
its project, so that nothing of a deleted project comes back with its id.
-/

namespace BlockSketch

-- ---------------------------------------------------------------------------
-- Calls
-- ---------------------------------------------------------------------------

namespace Store

inductive Call where
  | save (now : Nat) (request : SaveRequest)
  | load (id : String)
  | list
  | delete (id : String)

inductive Answer where
  | saved (record : Option Value)
  | loaded (project : Except Json.Error (Option Project))
  | listed (projects : List Summary)
  | deleted (found : Bool)

namespace Call

def time? : Call → Option Nat
  | .save now _ => some now
  | _ => none

/-- A save names its project by a text or not at all, and its workspace is well-formed. -/
def Proper : Call → Prop
  | .save _ request =>
    (request.id = .null ∨ ∃ s, request.id = .text s) ∧ request.workspace.Valid
  | _ => True

end Call

def answer (store : Store) (supply : Supply) : Call → Answer × Store × Supply
  | .save now request =>
    let (record, store, supply) := store.saveAt now supply request
    (.saved record, store, supply)
  | .load id => (.loaded (store.load id), store, supply)
  | .list => (.listed store.list, store, supply)
  | .delete id =>
    let (found, store) := store.delete id
    (.deleted found, store, supply)

def answers (store : Store) (supply : Supply) : List Call → List (Call × Answer)
  | [] => []
  | call :: rest =>
    let (answer, store, supply) := store.answer supply call
    (call, answer) :: answers store supply rest

end Store

-- ---------------------------------------------------------------------------
-- Maps of projects
-- ---------------------------------------------------------------------------

open Store (Call Answer)

abbrev Ledger := String → Option Project

namespace Ledger

/-- The project that a save leaves under an id. It is as old as the one that was there. -/
def project (ledger : Ledger) (now : Nat) (id : String) (request : SaveRequest)
    (description : Option String) (components : List StoredComponent) : Project where
  id := some id
  name := request.name
  description
  createdAt := ((ledger id).map (·.createdAt)).getD now
  updatedAt := now
  workspace := request.workspace.unlabelled
  components

/-- The id of a request names its project. For no id, or an empty one, an id is drawn. -/
inductive Names (supply : Supply) : Value → String → Supply → Prop
  | given {id : String} (hid : id ≠ "") : Names supply (.text id) id supply
  | drawn (hid : v = .null ∨ v = .text "") :
      Names supply v ("uuid-" ++ toString (supply.drawn + 1)) ⟨supply.drawn + 1⟩

/-- What a save tells of the project. The time of creation is told of a new one only. -/
def receipt (ledger : Ledger) (now : Nat) (id : String) (request : SaveRequest) : Value :=
  .object [("id", .text id), ("name", .text request.name), ("description", request.description),
    ("created_at", if (ledger id).isNone then timeValue now else .null),
    ("updated_at", timeValue now)]

/-- What a map answers, and the map afterwards. An id that is drawn must be new. -/
inductive Step (supply : Supply) (ledger : Ledger) : Call → Answer → Ledger → Supply → Prop
  | saved {id : String} (hnames : Names supply request.id id supply')
      (hdrawn : request.id ≠ .text id → ledger id = none)
      (hcontents : request.contents? = some (description, components)) :
      Step supply ledger (.save now request) (.saved (some (ledger.receipt now id request)))
        (Function.update ledger id
          (some (ledger.project now id request description components))) supply'
  | refused {id : String} (hnames : Names supply request.id id supply')
      (hreason : request.contents? = none ∨ request.id ≠ .text id ∧ ledger id ≠ none) :
      Step supply ledger (.save now request) (.saved none) ledger supply'
  | loaded (id : String) :
      Step supply ledger (.load id) (.loaded (.ok (ledger id))) ledger supply
  | listed {summaries : List Summary}
      (hall : ∀ summary, summary ∈ summaries ↔
        ∃ id project, ledger id = some project ∧ project.toSummary = summary)
      (hnewest : summaries.Pairwise fun a b => b.updatedAt < a.updatedAt) :
      Step supply ledger .list (.listed summaries) ledger supply
  | deleted (id : String) :
      Step supply ledger (.delete id) (.deleted (ledger id).isSome)
        (Function.update ledger id none) supply

inductive Run : Supply → Ledger → List (Call × Answer) → Prop
  | nil : Run supply ledger []
  | cons (hstep : Step supply ledger call answer ledger' supply')
      (hrest : Run supply' ledger' rest) : Run supply ledger ((call, answer) :: rest)

theorem Names.given_or_drawn {id : String} (h : Names supply v id supply') :
    v.isEmpty = false ∧ v = .text id ∨ v.isEmpty = true ∧ v ≠ .text id := by
  cases h with
  | given hid => exact .inl ⟨by simpa [Value.isEmpty] using hid, rfl⟩
  | drawn hid =>
    refine .inr ⟨by rcases hid with rfl | rfl <;> rfl, ?_⟩
    rcases hid with rfl | rfl
    · simp
    · intro heq
      have hchars := congrArg String.toList (Value.text.inj heq)
      rw [String.toList_append] at hchars
      exact absurd hchars (by simp)

theorem Names.unique {id id' : String} (h : Names supply v id supply')
    (h' : Names supply v id' supply'') : id = id' ∧ supply' = supply'' := by
  cases h with
  | given hid =>
    cases h' with
    | given => exact ⟨rfl, rfl⟩
    | drawn hempty => simp [hid] at hempty
  | drawn hempty =>
    cases h' with
    | given hid => simp [hid] at hempty
    | drawn => exact ⟨rfl, rfl⟩

theorem listed_unique {ledger : Ledger} {summaries others : List Summary}
    (hall : ∀ summary, summary ∈ summaries ↔
      ∃ id project, ledger id = some project ∧ project.toSummary = summary)
    (hnewest : summaries.Pairwise fun a b => b.updatedAt < a.updatedAt)
    (hall' : ∀ summary, summary ∈ others ↔
      ∃ id project, ledger id = some project ∧ project.toSummary = summary)
    (hnewest' : others.Pairwise fun a b => b.updatedAt < a.updatedAt) : summaries = others := by
  have hnodup : ∀ {l : List Summary}, (l.Pairwise fun a b => b.updatedAt < a.updatedAt) →
      l.Nodup := by
    intro l hl
    refine hl.imp fun {a b} hlt => ?_
    rintro rfl
    exact Nat.lt_irrefl _ hlt
  have hperm : summaries.Perm others :=
    (List.perm_ext_iff_of_nodup (hnodup hnewest) (hnodup hnewest')).mpr fun summary =>
      (hall summary).trans (hall' summary).symm
  exact hperm.eq_of_pairwise (fun a b _ _ hab hba => (Nat.lt_asymm hab hba).elim) hnewest hnewest'

theorem not_refused {ledger : Ledger} {request : SaveRequest} {id : String}
    (hdrawn : request.id ≠ .text id → ledger id = none)
    (hcontents : request.contents? = some contents) :
    ¬(request.contents? = none ∨ request.id ≠ .text id ∧ ledger id ≠ none) := by
  rintro (hnone | ⟨hother, hsome⟩)
  · cases hcontents.symm.trans hnone
  · exact hsome (hdrawn hother)

/-- A map has one answer to a call. -/
theorem Step.unique (h : Step supply ledger call answer ledger₁ supply₁)
    (h' : Step supply ledger call answer' ledger₂ supply₂) :
    answer = answer' ∧ ledger₁ = ledger₂ ∧ supply₁ = supply₂ := by
  cases h with
  | saved hnames hdrawn hcontents =>
    cases h' with
    | saved hnames' _ hcontents' =>
      obtain ⟨rfl, rfl⟩ := hnames.unique hnames'
      cases hcontents.symm.trans hcontents'
      exact ⟨rfl, rfl, rfl⟩
    | refused hnames' hreason =>
      obtain ⟨rfl, rfl⟩ := hnames.unique hnames'
      exact (not_refused hdrawn hcontents hreason).elim
  | refused hnames hreason =>
    cases h' with
    | saved hnames' hdrawn hcontents =>
      obtain ⟨rfl, rfl⟩ := hnames.unique hnames'
      exact (not_refused hdrawn hcontents hreason).elim
    | refused hnames' _ => exact ⟨rfl, rfl, (hnames.unique hnames').2⟩
  | loaded id =>
    cases h'
    exact ⟨rfl, rfl, rfl⟩
  | listed hall hnewest =>
    cases h' with
    | listed hall' hnewest' =>
      exact ⟨congrArg Answer.listed (listed_unique hall hnewest hall' hnewest'), rfl, rfl⟩
  | deleted id =>
    cases h'
    exact ⟨rfl, rfl, rfl⟩

theorem Run.unique (h : Run supply ledger run) (h' : Run supply ledger run')
    (hcalls : run.map Prod.fst = run'.map Prod.fst) : run = run' := by
  induction h generalizing run' with
  | nil => exact (List.map_eq_nil_iff.mp hcalls.symm).symm
  | cons hstep _ ih =>
    cases h' with
    | nil => cases hcalls
    | cons hstep' hrest' =>
      obtain ⟨rfl, hrest⟩ := List.cons.inj hcalls
      obtain ⟨rfl, rfl, rfl⟩ := hstep.unique hstep'
      rw [ih hrest' hrest]

end Ledger

open Ledger (Names)

theorem SaveRequest.chooseId_names {request : SaveRequest}
    (h : request.id = .null ∨ ∃ s, request.id = .text s) (supply : Supply) :
    ∃ id supply', Names supply request.id id supply' ∧
      request.chooseId supply = (.text id, supply') := by
  by_cases hempty : request.id.isEmpty = true
  · refine ⟨_, _, .drawn (h.imp_right ?_), if_pos hempty⟩
    rintro ⟨s, hs⟩
    rw [hs] at hempty ⊢
    exact congrArg Value.text (by simpa [Value.isEmpty] using hempty)
  · rcases h with hnull | ⟨s, hs⟩
    · rw [hnull] at hempty
      exact (hempty rfl).elim
    · refine ⟨s, supply, ?_, (if_neg hempty).trans (by rw [hs])⟩
      rw [hs] at hempty ⊢
      exact .given fun heq => hempty (by simp [Value.isEmpty, heq])

namespace Store

-- ---------------------------------------------------------------------------
-- What a store holds
-- ---------------------------------------------------------------------------

variable {store : Store} {ledger : Ledger} {id : String}

structure RowOf (row : ProjectRow) (p : Project) : Prop where
  summary : row.toSummary = p.toSummary
  workspace : Json.read row.workspaceText = .ok p.workspace

/-- The tables of a store hold the projects of a map. -/
structure Represents (store : Store) (ledger : Ledger) : Prop where
  keyed : ∀ row ∈ store.projects, ∃ id, row.id = some id
  distinct : store.projects.Pairwise fun a b => a.id ≠ b.id ∧ a.updatedAt ≠ b.updatedAt
  absent : ∀ {id}, ledger id = none → store.row? id = none
  present : ∀ {id p}, ledger id = some p → ∃ row, store.row? id = some row ∧ RowOf row p
  components : ∀ id, store.components.filter (·.project == id) =
    numbered id 0 (((ledger id).map (·.components)).getD [])

theorem represents_empty : Represents {} fun _ => none where
  keyed _ hrow := (List.not_mem_nil hrow).elim
  distinct := .nil
  absent _ := rfl
  present hsome := by cases hsome
  components _ := rfl

theorem Represents.row?_isSome (h : Represents store ledger) (id : String) :
    (store.row? id).isSome = (ledger id).isSome := by
  cases hledger : ledger id with
  | none =>
    rw [h.absent hledger]
    rfl
  | some p =>
    obtain ⟨row, hrow, -⟩ := h.present hledger
    rw [hrow]
    rfl

/-- A row is found by its id, so it is that of a project. -/
theorem Represents.of_mem (h : Represents store ledger) (hrow : row ∈ store.projects) :
    ∃ id p, ledger id = some p ∧ RowOf row p := by
  obtain ⟨id, hid⟩ := h.keyed row hrow
  cases hledger : ledger id with
  | none =>
    have hother := List.find?_eq_none.mp (h.absent hledger) row hrow
    simp [hid] at hother
  | some p =>
    obtain ⟨found, hfound, hrowOf⟩ := h.present hledger
    have hfoundId := List.find?_some hfound
    simp only [beq_iff_eq] at hfoundId
    have hnodup : (store.projects.map (·.id)).Nodup :=
      List.pairwise_map.mpr (h.distinct.imp fun hne => hne.1)
    obtain rfl := List.inj_on_of_nodup_map hnodup (List.mem_of_find?_eq_some hfound) hrow
      (hfoundId.trans hid.symm)
    exact ⟨id, p, hledger, hrowOf⟩

theorem Represents.takenIds_none (h : Represents store ledger) (hnone : ledger id = none) :
    store.takenIds id = [] := by
  rw [takenIds, h.components, hnone]
  rfl

theorem Represents.load (h : Represents store ledger) (id : String) :
    store.load id = .ok (ledger id) := by
  unfold Store.load
  cases hledger : ledger id with
  | none => rw [h.absent hledger]
  | some p =>
    obtain ⟨row, hrow, hrowOf⟩ := h.present hledger
    have hcomponents : store.componentsOf id = p.components := by
      rw [componentsOf, h.components, hledger, List.mergeSort_of_pairwise (numbered_sorted _ _ _),
        numbered_components]
      rfl
    simp only [hrow, hrowOf.workspace, hrowOf.summary, hcomponents, bind, Except.bind]

theorem Represents.list (h : Represents store ledger) :
    (∀ summary, summary ∈ store.list ↔
      ∃ id project, ledger id = some project ∧ project.toSummary = summary) ∧
      store.list.Pairwise fun a b => b.updatedAt < a.updatedAt := by
  constructor
  · intro summary
    rw [Store.list, List.mem_mergeSort, List.mem_map]
    constructor
    · rintro ⟨row, hrow, rfl⟩
      obtain ⟨id, p, hledger, hrowOf⟩ := h.of_mem hrow
      exact ⟨id, p, hledger, hrowOf.summary.symm⟩
    · rintro ⟨id, p, hledger, rfl⟩
      obtain ⟨row, hrow, hrowOf⟩ := h.present hledger
      exact ⟨row, List.mem_of_find?_eq_some hrow, hrowOf.summary⟩
  · have hordered : store.list.Pairwise fun a b => decide (b.updatedAt ≤ a.updatedAt) = true :=
      List.pairwise_mergeSort
        (fun a b c hab hbc => by simp only [decide_eq_true_eq] at hab hbc ⊢; omega)
        (fun a b => by simp only [Bool.or_eq_true, decide_eq_true_eq]; omega) _
    have hdistinct : (store.projects.map (·.toSummary)).Pairwise
        fun a b => a.updatedAt ≠ b.updatedAt :=
      List.pairwise_map.mpr (h.distinct.imp fun hne => hne.2)
    have hperm := ((List.mergeSort_perm (store.projects.map (·.toSummary))
      fun a b => decide (b.updatedAt ≤ a.updatedAt)).pairwise_iff fun hne => hne.symm).mpr hdistinct
    refine (hordered.and hperm).imp fun hboth => ?_
    have hle := of_decide_eq_true hboth.1
    omega

-- ---------------------------------------------------------------------------
-- What a call does to it
-- ---------------------------------------------------------------------------

variable {now : Nat} {request : SaveRequest}

/-- A store that differs from another one at one id only. -/
theorem Represents.update (h : Represents store ledger) {store' : Store} {value : Option Project}
    (hkeyed : ∀ row ∈ store'.projects, ∃ id, row.id = some id)
    (hdistinct : store'.projects.Pairwise fun a b => a.id ≠ b.id ∧ a.updatedAt ≠ b.updatedAt)
    (habsent : value = none → store'.row? id = none)
    (hpresent : ∀ p, value = some p → ∃ row, store'.row? id = some row ∧ RowOf row p)
    (hcomponents : store'.components.filter (·.project == id) =
      numbered id 0 ((value.map (·.components)).getD []))
    (hrows : ∀ other, other ≠ id → store'.row? other = store.row? other)
    (hothers : ∀ other, other ≠ id → store'.components.filter (·.project == other) =
      store.components.filter (·.project == other)) :
    Represents store' (Function.update ledger id value) where
  keyed := hkeyed
  distinct := hdistinct
  absent {other} hnone := by
    by_cases hother : other = id
    · rw [hother, Function.update_self] at hnone
      rw [hother, habsent hnone]
    · rw [Function.update_of_ne hother] at hnone
      rw [hrows other hother, h.absent hnone]
  present {other p} hsome := by
    by_cases hother : other = id
    · rw [hother, Function.update_self] at hsome
      rw [hother]
      exact hpresent p hsome
    · rw [Function.update_of_ne hother] at hsome
      rw [hrows other hother]
      exact h.present hsome
  components other := by
    by_cases hother : other = id
    · rw [hother, Function.update_self, hcomponents]
    · rw [Function.update_of_ne hother, hothers other hother, h.components]

theorem Represents.deleteProject (h : Represents store ledger) (id : String) :
    Represents (store.deleteProject id) (Function.update ledger id none) := by
  refine h.update (fun row hrow => h.keyed row (List.mem_filter.mp hrow).1)
    (h.distinct.sublist List.filter_sublist) (fun _ => ?_) (fun p hp => by cases hp) ?_
    (fun other hother => ?_) (fun other hother => ?_)
  · rw [row?_deleteProject, if_pos rfl]
  · exact (filter_deleteComponents store id id).trans (if_pos rfl)
  · rw [row?_deleteProject, if_neg hother]
  · exact (filter_deleteComponents store id other).trans (if_neg hother)

theorem Represents.created (h : Represents store ledger) (hnone : ledger id = none)
    (hvalid : request.workspace.Valid) (hlater : ∀ row ∈ store.projects, row.updatedAt < now)
    (description : Option String) (components : List StoredComponent) :
    Represents (store.created now id request description components)
      (Function.update ledger id
        (some (ledger.project now id request description components))) := by
  have hrow := h.absent hnone
  refine h.update ?_ ?_ (fun hvalue => by cases hvalue) ?_ ?_ (fun other hother => ?_)
    (fun other hother => ?_)
  · intro row hmem
    rcases List.mem_append.mp hmem with hmem | hmem
    · exact h.keyed row hmem
    · rw [List.mem_singleton.mp hmem]
      exact ⟨id, rfl⟩
  · refine List.pairwise_append.mpr ⟨h.distinct, List.pairwise_singleton _ _, fun a ha b hb => ?_⟩
    rw [List.mem_singleton.mp hb]
    refine ⟨?_, Nat.ne_of_lt (hlater a ha)⟩
    simpa [newRow] using List.find?_eq_none.mp hrow a ha
  · rintro p hp
    cases hp
    refine ⟨newRow now id request description, by rw [row?_created hrow, if_pos rfl], ?_,
      Json.read_write trivial hvalid⟩
    rw [Ledger.project, hnone]
    rfl
  · have hold := h.components id
    rw [hnone] at hold
    rw [Store.created, List.filter_append, hold, numbered_filter, if_pos rfl]
    rfl
  · rw [row?_created hrow, if_neg hother]
  · rw [Store.created, List.filter_append, numbered_filter, if_neg (Ne.symm hother),
      List.append_nil]

theorem Represents.overwritten (h : Represents store ledger) (hsome : ledger id = some old)
    (hvalid : request.workspace.Valid) (hlater : ∀ row ∈ store.projects, row.updatedAt < now)
    (description : Option String) (components : List StoredComponent) :
    Represents (store.overwritten now id request description components)
      (Function.update ledger id
        (some (ledger.project now id request description components))) := by
  obtain ⟨row, hrow, hrowOf⟩ := h.present hsome
  have hupdated := fun other =>
    row?_updateProject store id other (nextRow_id now request description)
  refine h.update ?_ ?_ (fun hvalue => by cases hvalue) ?_ ?_ (fun other hother => ?_)
    (fun other hother => ?_)
  · intro row hmem
    obtain ⟨previous, hprevious, rfl⟩ := List.mem_map.mp hmem
    obtain ⟨key, hkey⟩ := h.keyed previous hprevious
    refine ⟨key, ?_⟩
    split
    · exact hkey
    · exact hkey
  · refine List.pairwise_map.mpr (h.distinct.imp_of_mem fun {a b} ha hb hne => ?_)
    by_cases hida : a.id = some id <;> by_cases hidb : b.id = some id
    · exact absurd (hida.trans hidb.symm) hne.1
    · simp only [hida, hidb, beq_iff_eq, if_true, if_false]
      exact ⟨fun heq => hidb (heq ▸ hida), Nat.ne_of_gt (hlater b hb)⟩
    · simp only [hida, hidb, beq_iff_eq, if_true, if_false]
      exact ⟨fun heq => hida (heq ▸ hidb), Nat.ne_of_lt (hlater a ha)⟩
    · simpa only [hida, hidb, beq_iff_eq, if_false] using hne
  · rintro p hp
    cases hp
    have hid : row.id = some id := by simpa using List.find?_some hrow
    have hcreated : row.createdAt = old.createdAt := congrArg Summary.createdAt hrowOf.summary
    refine ⟨nextRow now request description row, ?_, ?_, Json.read_write trivial hvalid⟩
    · refine (hupdated id).trans ?_
      rw [hrow, Option.map_some, if_pos rfl]
    · simp only [nextRow, Ledger.project, hsome, hid, hcreated, Option.map_some, Option.getD_some]
  · rw [Store.overwritten, List.filter_append, filter_deleteComponents, if_pos rfl, numbered_filter,
      if_pos rfl]
    rfl
  · refine (hupdated other).trans ?_
    simp only [if_neg hother, Option.map_id']
  · rw [Store.overwritten, List.filter_append, filter_deleteComponents, if_neg hother,
      numbered_filter, if_neg (Ne.symm hother), List.append_nil]

/-- What the rows of a store can be after a call at a time: they were there, or they are new. -/
def Renews (store store' : Store) (time : Option Nat) : Prop :=
  ∀ row ∈ store'.projects, row ∈ store.projects ∨ time = some row.updatedAt

theorem renews_created (store : Store) (now : Nat) (id : String) (request : SaveRequest)
    (description : Option String) (components : List StoredComponent) :
    Renews store (store.created now id request description components) (some now) := by
  intro row hmem
  rcases List.mem_append.mp hmem with hmem | hmem
  · exact .inl hmem
  · rw [List.mem_singleton.mp hmem]
    exact .inr rfl

theorem renews_overwritten (store : Store) (now : Nat) (id : String) (request : SaveRequest)
    (description : Option String) (components : List StoredComponent) :
    Renews store (store.overwritten now id request description components) (some now) := by
  intro row hmem
  obtain ⟨previous, hprevious, rfl⟩ := List.mem_map.mp hmem
  split
  · exact .inr rfl
  · exact .inl hprevious

theorem Represents.known? (h : Represents store ledger) (id : String) :
    store.known? (.text id) = if (ledger id).isSome then some id else none := by
  rw [← h.row?_isSome id]
  rfl

/-- An answer of a store is one of the map that it holds, and it goes on holding what the map is
then. -/
def Follows (supply : Supply) (store : Store) (ledger : Ledger) (call : Call)
    (outcome : Answer × Store × Supply) : Prop :=
  ∃ ledger', Ledger.Step supply ledger call outcome.1 ledger' outcome.2.2 ∧
    Represents outcome.2.1 ledger' ∧ Renews store outcome.2.1 call.time?

theorem follows_refused (h : Represents store ledger) (hnames : Names supply request.id id supply')
    (hreason : request.contents? = none ∨ request.id ≠ .text id ∧ ledger id ≠ none) :
    Follows supply store ledger (.save now request) (.saved none, store, supply') :=
  ⟨ledger, .refused hnames hreason, h, fun _ hrow => .inl hrow⟩

theorem follows_saved {components : List StoredComponent}
    (hnames : Names supply request.id id supply')
    (hdrawn : request.id ≠ .text id → ledger id = none)
    (hcontents : request.contents? = some (description, components))
    (h : Represents store' (Function.update ledger id
      (some (ledger.project now id request description components))))
    (hrenews : Renews store store' (some now)) :
    Follows supply store ledger (.save now request)
      (.saved (some (request.record (.text id) (ledger id).isNone now)), store', supply') :=
  ⟨_, .saved hnames hdrawn hcontents, h, hrenews⟩

theorem Represents.follows_save (h : Represents store ledger)
    (hid : request.id = .null ∨ ∃ s, request.id = .text s) (hvalid : request.workspace.Valid)
    (hlater : ∀ row ∈ store.projects, row.updatedAt < now) (supply : Supply) :
    Follows supply store ledger (.save now request)
      (store.answer supply (.save now request)) := by
  obtain ⟨id, supply', hnames, hid⟩ := SaveRequest.chooseId_names hid supply
  have hknown := h.known? id
  simp only [answer]
  cases hledger : ledger id with
  | none =>
    have hnew : (if request.id.isEmpty then none else store.known? (.text id)) = none := by
      rw [hknown, hledger]
      exact ite_self none
    rw [saveAt_eq hid hnew (create?_eq (h.absent hledger) (h.takenIds_none hledger) now request)]
    cases hcontents : request.contents? with
    | none => exact follows_refused h hnames (.inl hcontents)
    | some contents =>
      obtain ⟨description, components⟩ := contents
      have hsaved := follows_saved hnames (fun _ => hledger) hcontents
        (h.created hledger hvalid hlater description components)
        (renews_created store now id request description components)
      rw [hledger] at hsaved
      exact hsaved
  | some old =>
    obtain ⟨row, hrow, -⟩ := h.present hledger
    rcases hnames.given_or_drawn with ⟨hempty, hgiven⟩ | ⟨hempty, hdrawn⟩
    · have hlookup : (if request.id.isEmpty then none else store.known? (.text id)) = some id := by
        rw [hempty, hknown, hledger]
        rfl
      rw [saveAt_eq hid hlookup (overwrite?_eq hrow now request)]
      cases hcontents : request.contents? with
      | none => exact follows_refused h hnames (.inl hcontents)
      | some contents =>
        obtain ⟨description, components⟩ := contents
        have hsaved := follows_saved hnames (fun hdrawn => absurd hgiven hdrawn) hcontents
          (h.overwritten hledger hvalid hlater description components)
          (renews_overwritten store now id request description components)
        rw [hledger] at hsaved
        exact hsaved
    · have hlookup : (if request.id.isEmpty then none else store.known? (.text id)) = none :=
        if_pos hempty
      rw [saveAt_eq hid hlookup (create?_known hrow now request)]
      exact follows_refused h hnames (.inr ⟨hdrawn, by rw [hledger]; exact Option.some_ne_none old⟩)

theorem Represents.follows (h : Represents store ledger) (hcall : call.Proper)
    (hlater : ∀ row ∈ store.projects, ∀ now, call.time? = some now → row.updatedAt < now)
    (supply : Supply) : Follows supply store ledger call (store.answer supply call) := by
  cases call with
  | save now request =>
    exact h.follows_save hcall.1 hcall.2 (fun row hrow => hlater row hrow now rfl) supply
  | load id =>
    refine ⟨ledger, ?_, h, fun _ hrow => .inl hrow⟩
    rw [answer, h.load id]
    exact .loaded id
  | list => exact ⟨ledger, .listed h.list.1 h.list.2, h, fun _ hrow => .inl hrow⟩
  | delete id =>
    refine ⟨_, ?_, h.deleteProject id, fun _ hrow => .inl (List.mem_filter.mp hrow).1⟩
    simp only [answer, delete, h.row?_isSome]
    exact .deleted id

/-- A run of calls, from any store that holds a map. -/
theorem Represents.run (h : Represents store ledger) (hcalls : ∀ call ∈ calls, call.Proper)
    (hincreasing : (calls.filterMap Call.time?).Pairwise (· < ·))
    (hlater : ∀ row ∈ store.projects, ∀ now ∈ calls.filterMap Call.time?, row.updatedAt < now)
    (supply : Supply) : Ledger.Run supply ledger (store.answers supply calls) := by
  induction calls generalizing store ledger supply with
  | nil => exact .nil
  | cons call calls ih =>
    obtain ⟨hcall, hrest⟩ := List.forall_mem_cons.mp hcalls
    have htime : ∀ now, call.time? = some now →
        now ∈ (call :: calls).filterMap Call.time? := fun now hnow =>
      List.mem_filterMap.mpr ⟨call, List.mem_cons_self, hnow⟩
    obtain ⟨ledger', hstep, hrepresents, hrenews⟩ := h.follows hcall
      (fun row hrow now hnow => hlater row hrow now (htime now hnow)) supply
    have hnext : ∀ now, call.time? = some now → ∀ later ∈ calls.filterMap Call.time?, now < later := by
      intro now hnow
      rw [List.filterMap_cons_some hnow] at hincreasing
      exact (List.pairwise_cons.mp hincreasing).1
    have hmem : ∀ later ∈ calls.filterMap Call.time?,
        later ∈ (call :: calls).filterMap Call.time? := by
      intro later hlater
      obtain ⟨other, hother, htime⟩ := List.mem_filterMap.mp hlater
      exact List.mem_filterMap.mpr ⟨other, List.mem_cons_of_mem call hother, htime⟩
    refine .cons hstep (ih hrepresents hrest ?_ (fun row hrow later hl => ?_) _)
    · exact hincreasing.sublist ((List.sublist_cons_self call calls).filterMap _)
    · rcases hrenews row hrow with hold | hnew
      · exact hlater row hold later (hmem later hl)
      · exact hnext _ hnew later hl

theorem answers_calls (store : Store) (supply : Supply) (calls : List Call) :
    (answers store supply calls).map Prod.fst = calls := by
  induction calls generalizing store supply with
  | nil => rfl
  | cons call calls ih => exact congrArg (call :: ·) (ih _ _)

/-- Whatever is saved, loaded, listed and deleted, at times that increase: a store answers as a map
from ids to projects, which has one answer to every call. A load tells what the last successful save
left, with the time of the first one since the project was deleted; a list tells every project once,
the one changed last first. A save that fails, because something cannot be stored or two components
have one id, changes no project, and no call changes a project under another id. Texts are stored as
they are. -/
theorem answers_as_map (supply : Supply) (calls : List Call) (hcalls : ∀ call ∈ calls, call.Proper)
    (hincreasing : (calls.filterMap Call.time?).Pairwise (· < ·)) :
    Ledger.Run supply (fun _ => none) (answers {} supply calls) ∧
    (∀ run, Ledger.Run supply (fun _ => none) run → run.map Prod.fst = calls →
      run = answers {} supply calls) ∧
    ∀ (request : SaveRequest) (description : Option String) (components : List StoredComponent),
      request.description = optionalText description →
      request.components = components.map StoredComponent.record →
      request.contents? =
        if (components.map (·.id)).Nodup then some (description, components) else none := by
  have hrun : Ledger.Run supply (fun _ => none) (answers {} supply calls) :=
    represents_empty.run hcalls hincreasing (fun _ hrow => (List.not_mem_nil hrow).elim) supply
  refine ⟨hrun, fun run hother hsame => hother.unique hrun ?_, fun _ _ _ hdescription hcomponents =>
    SaveRequest.contents?_texts hdescription hcomponents⟩
  rw [hsame, answers_calls]

/-- A project that is saved twice, in between with a component too many, and that is deleted and
comes back without components. -/
def savesAndDeletes : List Call := [
  .save 1 ⟨"one", "", "p", .object [], [⟨"l", "led", ""⟩, ⟨"b", "button", ""⟩]⟩,
  .save 2 ⟨"two", "", "p", .object [], [⟨"l", "led", ""⟩, ⟨"l", "imu", ""⟩]⟩,
  .load "p",
  .save 3 ⟨"three", "", .null, .object [], []⟩,
  .list,
  .delete "p",
  .save 4 ⟨"four", "", "p", .object [], []⟩,
  .load "p"]

def firstReceipt (now : Nat) (id name : String) : Value :=
  .object [("id", .text id), ("name", .text name), ("description", ""),
    ("created_at", timeValue now), ("updated_at", timeValue now)]

/-- The second save fails. -/
def savesAndDeletesTold : List Answer := [
  .saved (some (firstReceipt 1 "p" "one")),
  .saved none,
  .loaded (.ok (some ⟨⟨some "p", "one", some "", 1, 1⟩, .object [],
    [⟨"l", "led", some ""⟩, ⟨"b", "button", some ""⟩]⟩)),
  .saved (some (firstReceipt 3 "uuid-1" "three")),
  .listed [⟨some "uuid-1", "three", some "", 3, 3⟩, ⟨some "p", "one", some "", 1, 1⟩],
  .deleted true,
  .saved (some (firstReceipt 4 "p" "four")),
  .loaded (.ok (some ⟨⟨some "p", "four", some "", 4, 4⟩, .object [], []⟩))]

theorem savesAndDeletes_run :
    Ledger.Run {} (fun _ => none) (savesAndDeletes.zip savesAndDeletesTold) := by
  refine .cons (.saved (.given (by decide)) (fun hne => (hne rfl).elim) rfl) ?_
  refine .cons (.refused (.given (by decide)) (.inl rfl)) ?_
  refine .cons (.loaded "p") ?_
  refine .cons (.saved (.drawn (.inl rfl)) (fun _ => rfl) rfl) ?_
  refine .cons (.listed ?_ ?_) ?_
  · intro summary
    simp only [List.mem_cons, List.not_mem_nil, or_false]
    constructor
    · rintro (rfl | rfl)
      · exact ⟨"uuid-1", _, rfl, rfl⟩
      · exact ⟨"p", _, rfl, rfl⟩
    · rintro ⟨id, project, hid, rfl⟩
      rw [Function.update_apply] at hid
      split at hid
      · cases hid
        exact .inl rfl
      · rw [Function.update_apply] at hid
        split at hid
        · cases hid
          exact .inr rfl
        · cases hid
  · simp
  refine .cons (.deleted "p") ?_
  refine .cons (.saved (.given (by decide)) (fun hne => (hne rfl).elim) rfl) ?_
  exact .cons (.loaded "p") .nil

theorem answers_as_map_savesAndDeletes : (∀ call ∈ savesAndDeletes, call.Proper) ∧
    (savesAndDeletes.filterMap Call.time?).Pairwise (· < ·) ∧
    answers {} {} savesAndDeletes = savesAndDeletes.zip savesAndDeletesTold := by
  have hvalid : Value.Valid (.object []) :=
    .object List.nodup_nil fun _ hmem => (List.not_mem_nil hmem).elim
  have hcalls : ∀ call ∈ savesAndDeletes, call.Proper := by
    simp [savesAndDeletes, Call.Proper, hvalid]
  have hincreasing : (savesAndDeletes.filterMap Call.time?).Pairwise (· < ·) := by decide
  exact ⟨hcalls, hincreasing,
    ((answers_as_map {} savesAndDeletes hcalls hincreasing).2.1 _ savesAndDeletes_run rfl).symm⟩

end Store

end BlockSketch
