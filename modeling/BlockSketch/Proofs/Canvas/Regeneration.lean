import BlockSketch.Proofs.Canvas.Variables
import BlockSketch.Proofs.Debounce
import BlockSketch.Proofs.Sketch.Reports

/-!
# Regeneration

Every operation that changes the workspace has the scheduler wait, and every run compiles the
workspace as it is then. So the last report is up to date whenever nothing is pending, in whatever
order edits, flushes and firings of old and new timers come. The types and emitters may be any, as
long as the types can be looked up.
-/

namespace BlockSketch

-- ---------------------------------------------------------------------------
-- Keys
-- ---------------------------------------------------------------------------

namespace Canvas

variable {c : Canvas}

structure Keyed (c : Canvas) : Prop where
  registry : c.registry.Keyed
  workspace : c.workspace.Keyed

theorem Keyed.report (h : Keyed c) : ∃ report, c.report = .ok report :=
  c.generator.generate_answers h.workspace

theorem keyed_start (h : start settings limit = .ok c) : Keyed c := by
  have hnew := new_of_start h
  refine ⟨fun v t ht => ?_, hnew.workspace ▸ .fresh _⟩
  rw [hnew.registry] at ht
  obtain ⟨s, hs⟩ := Catalog.typeId_text t (Catalog.find?_registry ht).1
  rw [hs]
  rfl

theorem Keyed.apply (h : Keyed c) (op : Operation) : Keyed (c.apply op).canvas := by
  refine ⟨apply_registry c op ▸ h.registry, ?_⟩
  have hbrings := apply_brings c op
  generalize (c.apply op).canvas.workspace = w at hbrings ⊢
  cases hbrings with
  | nothing hadds => exact h.workspace.mono hadds
  | block hplace => exact h.workspace.place h.registry hplace
  | name hcreate => exact h.workspace.createVariable hcreate
  | entry id => exact .fresh id
  | document hread =>
    cases op with
    | load document => exact Document.read_keyed h.registry (Option.some.inj hread)
    | reload => exact Document.reread_keyed h.registry (Option.some.inj hread)
    | loadText text => exact Document.readText_keyed h.registry (Option.some.inj hread)
    | _ => cases hread

end Canvas

-- ---------------------------------------------------------------------------
-- What operations tell
-- ---------------------------------------------------------------------------

def Notice.report? : Notice → Option Sketch.Report
  | .generated report => some report
  | _ => none

def reports (notices : List Notice) : List Sketch.Report :=
  notices.filterMap Notice.report?

theorem reports_append (first second : List Notice) :
    reports (first ++ second) = reports first ++ reports second :=
  List.filterMap_append

theorem reports_events (events : List Event) : reports (events.map .event) = [] := by
  simp [reports, Notice.report?]

def Outcome.Clean (outcome : Outcome α) (w : Workspace) : Prop :=
  (∃ a, outcome.result = .ok a) ∨ outcome.canvas.workspace = w

theorem foldl_notify_pending (s : Scheduler) (events : List Event) :
    (events.foldl Debounce.notify s).pending = s.pending + events.length := by
  induction events generalizing s with
  | nil => rfl
  | cons event events ih =>
    rw [List.foldl_cons, ih, List.length_cons]
    simp only [Debounce.notify, Debounce.cancelCurrent_pending]
    omega

/-- An operation tells the scheduler of events and has nothing compiled. If it tells of none, it
changes nothing. -/
structure Outcome.Tells (outcome : Outcome α) (c : Canvas) (events : List Event) : Prop where
  scheduler : outcome.canvas.scheduler = c.scheduler.map fun s => events.foldl Debounce.notify s
  generator : outcome.canvas.generator = c.generator
  silent : reports outcome.notices = []
  unchanged : outcome.Clean c.workspace → events = [] → outcome.canvas.workspace = c.workspace

namespace Outcome.Tells

variable {c : Canvas}

theorem map {outcome : Outcome α} (h : outcome.Tells c events) (f : α → β) :
    (outcome.map f).Tells c events := by
  refine ⟨h.scheduler, h.generator, h.silent, fun hclean => h.unchanged ?_⟩
  rcases hclean with ⟨b, hb⟩ | hsame
  · obtain ⟨a, ha, -⟩ := map_ok.mp hb
    exact .inl ⟨a, ha⟩
  · exact .inr hsame

theorem quiet {outcome : Outcome α} (hscheduler : outcome.canvas.scheduler = c.scheduler)
    (hgenerator : outcome.canvas.generator = c.generator) (hsilent : reports outcome.notices = [])
    (hworkspace : outcome.Clean c.workspace → outcome.canvas.workspace = c.workspace) :
    outcome.Tells c [] := by
  refine ⟨?_, hgenerator, hsilent, fun hclean _ => hworkspace hclean⟩
  rw [hscheduler]
  exact Option.map_id'.symm

/-- What is refused tells nothing, though it may have changed something. -/
theorem fail (w : Workspace) (supply : Supply) (e : Error) :
    (({ c with workspace := w, supply := supply }).fail e : Outcome α).Tells c [] := by
  refine .quiet rfl rfl rfl ?_
  rintro (⟨a, ⟨⟩⟩ | hsame)
  exact hsame

theorem commit (w : Workspace) (supply : Supply) (a : α) (h : events = [] → w = c.workspace) :
    (({ c with supply := supply }).commit w events a).Tells c events :=
  ⟨rfl, rfl, reports_events events, fun _ hnone => h hnone⟩

theorem pending {outcome : Outcome α} (h : outcome.Tells c events)
    (hclean : outcome.Clean c.workspace) (hs : c.scheduler = some s)
    (hchange : outcome.canvas.workspace ≠ c.workspace) :
    ∃ s', outcome.canvas.scheduler = some s' ∧ 0 < s'.pending := by
  refine ⟨events.foldl Debounce.notify s, by rw [h.scheduler, hs]; rfl, ?_⟩
  have hsome : events ≠ [] := fun hnone => hchange (h.unchanged hclean hnone)
  rw [foldl_notify_pending]
  exact Nat.lt_of_lt_of_le (List.length_pos_iff.mpr hsome) (Nat.le_add_left _ _)

end Outcome.Tells

namespace Canvas

variable {c : Canvas}

open Outcome (Tells)

theorem notify_tells (c : Canvas) (event : Event) : (c.notify event).Tells c [event] := by
  unfold notify withScheduler
  split
  · rename_i hnone
    exact ⟨by simp [fail, hnone], rfl, rfl, fun _ _ => rfl⟩
  · rename_i s hsome
    exact ⟨by simp [hsome], rfl, rfl, fun _ _ => rfl⟩

def IsRun : Operation → Prop
  | .flush | .cancel | .fire _ => True
  | _ => False

theorem IsRun.isScheduling (h : IsRun op) : op.IsScheduling := by
  cases op with
  | flush | cancel | fire _ => trivial
  | _ => exact h.elim

theorem Ends.tells {outcome : Outcome Value} (h : Ends c op outcome) (hop : ¬op.IsScheduling) :
    ∃ events, outcome.Tells c events := by
  cases h with
  | committed _ hsilent => exact ⟨_, .commit _ _ _ hsilent⟩
  | refused => exact ⟨_, .fail _ _ _⟩
  | selected _ _ hnotices =>
    refine ⟨_, .quiet rfl rfl ?_ fun _ => rfl⟩
    rcases hnotices with rfl | rfl <;> rfl
  | scheduled hscheduling => exact (hop hscheduling).elim

theorem apply_tells (c : Canvas) (hop : ¬IsRun op) : ∃ events, (c.apply op).Tells c events := by
  by_cases hscheduling : op.IsScheduling
  · cases op with
    | notify event => exact ⟨_, (c.notify_tells event).map _⟩
    | flush | cancel | fire _ => exact (hop trivial).elim
    | _ => exact hscheduling.elim
  · exact (c.apply_ends op).tells hscheduling

-- ---------------------------------------------------------------------------
-- Runs
-- ---------------------------------------------------------------------------

/-- Nothing is pending only if the last report is up to date, once there was a change. -/
def InStep (c : Canvas) (told : List Sketch.Report) (changed : Prop) : Prop :=
  ∃ s, c.scheduler = some s ∧ (s.pending = 0 → changed →
    ∃ report, c.report = .ok report ∧ s.lastResult = some report ∧ told.getLast? = some report)

theorem InStep.tells {outcome : Outcome α} (hstep : InStep c told changed)
    (h : outcome.Tells c events) (hclean : outcome.Clean c.workspace) :
    InStep outcome.canvas (told ++ reports outcome.notices)
      (changed ∨ outcome.canvas.workspace ≠ c.workspace) := by
  obtain ⟨s, hs, hidle⟩ := hstep
  refine ⟨events.foldl Debounce.notify s, by rw [h.scheduler, hs]; rfl, fun hpending hchanged => ?_⟩
  rw [foldl_notify_pending, Nat.add_eq_zero_iff, List.length_eq_zero_iff] at hpending
  obtain ⟨hpending, rfl⟩ := hpending
  have hsame := h.unchanged hclean rfl
  obtain ⟨report, hreport, hlast, htold⟩ :=
    hidle hpending (hchanged.resolve_right (not_not.mpr hsame))
  refine ⟨report, ?_, hlast, by rw [h.silent, List.append_nil, htold]⟩
  rw [Canvas.report, h.generator, hsame]
  exact hreport

section
variable {s : Scheduler} {report : Sketch.Report} (hs : c.scheduler = some s)
  (hreport : c.report = .ok report)
include hs hreport

theorem flush_acts : c.flush.canvas =
      { c with scheduler := some (s.step (.flush (some report))).2 } ∧
    c.flush.notices = runNotices (s.step (.flush (some report))).1 (.ok report) := by
  simp only [Canvas.flush, withScheduler, hs, hreport]
  exact ⟨rfl, rfl⟩

theorem fire_acts (i : Nat) : (c.fire i).canvas =
      { c with scheduler := some (s.step (.fire i (some report))).2 } ∧
    (c.fire i).notices = runNotices (s.step (.fire i (some report))).1 (.ok report) := by
  simp only [Canvas.fire, withScheduler, hs, hreport, Option.bind_some, Debounce.step]
  cases s.timers[i]? with
  | none => exact ⟨by simp [fail, ← hs], rfl⟩
  | some timer => exact ⟨rfl, rfl⟩

/-- What a run compiles is the workspace as it is. -/
theorem InStep.acts {outcome : Outcome α} (hstep : InStep c told changed)
    (hresult : a.result? = some report)
    (hacts : outcome.canvas = { c with scheduler := some (s.step a).2 } ∧
      outcome.notices = runNotices (s.step a).1 (.ok report)) :
    InStep outcome.canvas (told ++ reports outcome.notices)
      (changed ∨ outcome.canvas.workspace ≠ c.workspace) := by
  obtain ⟨s₀, hs₀, hlevel⟩ := hstep
  obtain rfl := Option.some.inj (hs₀.symm.trans hs)
  rw [hacts.1, hacts.2]
  refine ⟨_, rfl, fun hpending hchanged => ⟨report, hreport, ?_⟩⟩
  rcases s₀.step_lastResult hresult with ⟨hran, hlast⟩ | ⟨hran, hlast, hidle⟩
  · rw [hran]
    exact ⟨hlast, List.getLast?_concat⟩
  · obtain ⟨report', hreport', hlast', htold⟩ :=
      hlevel (hidle hpending) (hchanged.resolve_right fun hne => hne rfl)
    obtain rfl := Except.ok.inj (hreport.symm.trans hreport')
    rw [hran]
    exact ⟨hlast.trans hlast', (congrArg List.getLast? (List.append_nil told)).trans htold⟩

end

theorem InStep.apply (hstep : InStep c told changed) (hkeyed : Keyed c) (hop : op ≠ .cancel)
    (hclean : (c.apply op).Clean c.workspace) :
    InStep (c.apply op).canvas (told ++ reports (c.apply op).notices)
      (changed ∨ (c.apply op).canvas.workspace ≠ c.workspace) := by
  obtain ⟨s, hs, -⟩ := id hstep
  obtain ⟨report, hreport⟩ := hkeyed.report
  by_cases hrun : IsRun op
  · cases op with
    | flush => exact hstep.acts hs hreport rfl (flush_acts hs hreport)
    | cancel => exact (hop rfl).elim
    | fire i => exact hstep.acts hs hreport rfl (fire_acts hs hreport i)
    | _ => exact hrun.elim
  · obtain ⟨events, htells⟩ := c.apply_tells hrun
    exact hstep.tells htells hclean

/-- An operation that changes the workspace leaves something pending. -/
theorem apply_pending (hs : c.scheduler = some s) (hclean : (c.apply op).Clean c.workspace)
    (hchange : (c.apply op).canvas.workspace ≠ c.workspace) :
    ∃ s', (c.apply op).canvas.scheduler = some s' ∧ 0 < s'.pending := by
  by_cases hrun : IsRun op
  · exact (hchange (c.apply_workspace (.inr hrun.isScheduling))).elim
  · obtain ⟨events, htells⟩ := c.apply_tells hrun
    exact htells.pending hclean hs hchange

def CleanRun (c : Canvas) : List Operation → Prop
  | [] => True
  | op :: rest => (c.apply op).Clean c.workspace ∧ CleanRun (c.apply op).canvas rest

theorem CleanRun.append (h : c.CleanRun (before ++ rest)) :
    c.CleanRun before ∧ (c.run before).1.CleanRun rest := by
  induction before generalizing c with
  | nil => exact ⟨trivial, h⟩
  | cons op before ih => exact ⟨⟨h.1, (ih h.2).1⟩, (ih h.2).2⟩

def Changes (c : Canvas) (ops : List Operation) : Prop :=
  ∃ before op after, ops = before ++ op :: after ∧
    ((c.run before).1.apply op).canvas.workspace ≠ (c.run before).1.workspace

theorem changes_cons : c.Changes (op :: ops) ↔
    (c.apply op).canvas.workspace ≠ c.workspace ∨ (c.apply op).canvas.Changes ops := by
  constructor
  · rintro ⟨before, last, after, hsplit, hchange⟩
    cases before with
    | nil =>
      obtain ⟨rfl, -⟩ := List.cons.inj hsplit
      exact .inl hchange
    | cons first before =>
      obtain ⟨rfl, rfl⟩ := List.cons.inj hsplit
      exact .inr ⟨before, last, after, rfl, hchange⟩
  · rintro (hchange | ⟨before, last, after, rfl, hchange⟩)
    · exact ⟨[], op, ops, rfl, hchange⟩
    · exact ⟨op :: before, last, after, rfl, hchange⟩

theorem InStep.run (hstep : InStep c told changed) (hkeyed : Keyed c)
    (hops : ∀ op ∈ ops, op ≠ .cancel) (hclean : c.CleanRun ops) :
    InStep (c.run ops).1 (told ++ reports (c.run ops).2) (changed ∨ c.Changes ops) := by
  induction ops generalizing c told changed with
  | nil =>
    obtain ⟨s, hs, hlevel⟩ := hstep
    refine ⟨s, hs, fun hpending hchanged => ?_⟩
    rcases hchanged with hchanged | ⟨before, op, after, hsplit, -⟩
    · obtain ⟨report, hreport, hlast, htold⟩ := hlevel hpending hchanged
      exact ⟨report, hreport, hlast, (congrArg List.getLast? (List.append_nil told)).trans htold⟩
    · simp at hsplit
  | cons op ops ih =>
    obtain ⟨hfirst, hrest⟩ := List.forall_mem_cons.mp hops
    have hrun := ih (hstep.apply hkeyed hfirst hclean.1) (hkeyed.apply op) hrest hclean.2
    rw [or_assoc, ← changes_cons, List.append_assoc, ← reports_append] at hrun
    exact hrun

/-- Regeneration goes by the state, not by the order of events. Whatever edits, flushes and firings
of any timers come, an operation that changes the workspace leaves something pending; and once
something changed and nothing is pending, the last report is that of the workspace as it is, and
is the last one that was delivered. -/
theorem last_report_current (c : Canvas) (s : Scheduler) (ops : List Operation)
    (hkeyed : Keyed c) (hs : c.scheduler = some s) (hcancel : .cancel ∉ ops)
    (hclean : c.CleanRun ops) :
    (∀ before op after, ops = before ++ op :: after →
      ((c.run before).1.apply op).canvas.workspace ≠ (c.run before).1.workspace →
      ∃ s', ((c.run before).1.apply op).canvas.scheduler = some s' ∧ 0 < s'.pending) ∧
    ∃ s', (c.run ops).1.scheduler = some s' ∧ (s'.pending = 0 → c.Changes ops →
      ∃ report, (c.run ops).1.report = .ok report ∧ s'.lastResult = some report ∧
        (reports (c.run ops).2).getLast? = some report) := by
  have hstart : InStep c [] False := ⟨s, hs, fun _ hnever => hnever.elim⟩
  refine ⟨?_, ?_⟩
  · rintro before op after rfl hchange
    obtain ⟨hbefore, hafter⟩ := hclean.append
    have hops : ∀ op' ∈ before, op' ≠ .cancel := fun op' hop heq =>
      hcancel (List.mem_append_left _ (heq ▸ hop))
    obtain ⟨s', hs', -⟩ := hstart.run hkeyed hops hbefore
    exact apply_pending hs' hafter.1 hchange
  · have hops : ∀ op ∈ ops, op ≠ .cancel := fun op hop heq => hcancel (heq ▸ hop)
    obtain ⟨s', hs', hlevel⟩ := hstart.run hkeyed hops hclean
    exact ⟨s', hs', fun hpending hchanged => hlevel hpending (.inr hchanged)⟩

/-- Two edits are followed by the timer that the second one replaced, and by its own. -/
def editsAndFirings : List Operation :=
  [.createVariable "x", .createVariable "y", .fire 0, .fire 1]

theorem editsAndFirings_changes (h : start settings limit = .ok c) : c.Changes editsAndFirings := by
  simp only [start, bind_ok, Except.ok.injEq] at h
  obtain ⟨indent, -, rfl⟩ := h
  refine ⟨[], _, _, rfl, fun hsame => ?_⟩
  exact List.cons_ne_nil _ _ (congrArg Workspace.variableNames hsame)

theorem editsAndFirings_idle (h : start settings limit = .ok c)
    (hs : (c.run editsAndFirings).1.scheduler = some s) : s.pending = 0 := by
  -- What the runs compile is left open: only the bookkeeping is evaluated.
  have hedited := ((keyed_start h).apply (.createVariable "x")).apply (.createVariable "y")
  obtain ⟨stale, hstale⟩ := hedited.report
  obtain ⟨current, hcurrent⟩ := (hedited.apply (.fire 0)).report
  simp only [start, bind_ok, Except.ok.injEq] at h
  obtain ⟨indent, -, rfl⟩ := h
  have hfirst := congrArg Canvas.scheduler (fire_acts rfl hstale 0).1
  have hsecond := congrArg Canvas.scheduler (fire_acts hfirst hcurrent 1).1
  obtain rfl := Option.some.inj (hs.symm.trans hsecond)
  rfl

theorem fire_workspace (c : Canvas) (i : Nat) : (c.fire i).canvas.workspace = c.workspace := by
  have hscheduling : (Operation.fire i).IsScheduling := trivial
  exact c.apply_workspace (.inr hscheduling)

theorem last_report_current_editsAndFirings : ∃ c s, start {} = .ok c ∧
    c.scheduler = some s ∧ c.CleanRun editsAndFirings ∧ c.Changes editsAndFirings ∧
    ∃ s' report, (c.run editsAndFirings).1.scheduler = some s' ∧ s'.pending = 0 ∧
      (c.run editsAndFirings).1.report = .ok report ∧ s'.lastResult = some report ∧
      (reports (c.run editsAndFirings).2).getLast? = some report := by
  obtain ⟨c, hstart⟩ := exists_start
  obtain ⟨s, hs⟩ := (new_of_start hstart).scheduler
  have hclean : c.CleanRun editsAndFirings :=
    ⟨.inl ⟨_, rfl⟩, .inl ⟨_, rfl⟩, .inr (fire_workspace _ 0), .inr (fire_workspace _ 1), trivial⟩
  have hchanges := editsAndFirings_changes hstart
  obtain ⟨-, s', hs', hlevel⟩ := last_report_current c s editsAndFirings (keyed_start hstart) hs
    (by simp [editsAndFirings]) hclean
  have hpending := editsAndFirings_idle hstart hs'
  obtain ⟨report, hreport⟩ := hlevel hpending hchanges
  exact ⟨c, s, hstart, hs, hclean, hchanges, s', report, hs', hpending, hreport⟩

end Canvas

end BlockSketch
