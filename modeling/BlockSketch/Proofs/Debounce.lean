import BlockSketch.Debounce
import Mathlib.Data.List.Nodup

/-!
# Debouncing over whole histories

A timer that fires is told from a stale one by a token, and a counter says whether anything is
pending. Here both are read off the history instead: a timer waits until something else than the
firing of another timer comes after the event that started it, and what is pending are the events
since the last run or cancellation. `Sound` is what every action keeps of a state, and `Follows` adds
the history that led to it.
-/

namespace BlockSketch.Debounce

variable {ε ρ : Type}

-- ---------------------------------------------------------------------------
-- Actions
-- ---------------------------------------------------------------------------

/-- What is done to a debouncer. A run that breaks off has no result. -/
inductive Action (ε ρ : Type) where
  | notify (event : ε)
  | flush (result : Option ρ)
  | cancel
  | fire (timer : Nat) (result : Option ρ)

namespace Action

def isNotify : Action ε ρ → Bool
  | .notify _ => true
  | _ => false

def isCancel : Action ε ρ → Bool
  | .cancel => true
  | _ => false

def result? : Action ε ρ → Option ρ
  | .flush result | .fire _ result => result
  | _ => none

/-- Puts an end to the wait of a timer. Only the firing of another timer does not. -/
def Settles (i : Nat) : Action ε ρ → Prop
  | .fire timer _ => timer = i
  | _ => True

end Action

/-- The answer tells whether there was a run. A timer that was never started does nothing. -/
def step (d : Debounce ε ρ) : Action ε ρ → Bool × Debounce ε ρ
  | .notify event => (false, d.notify event)
  | .flush result => d.flush result
  | .cancel => (false, d.cancel)
  | .fire i result =>
    match d.timers[i]? with
    | some timer => d.fire timer result
    | none => (false, d)

structure Done (ε ρ : Type) where
  action : Action ε ρ
  ran : Bool

namespace Done

def isNotify (s : Done ε ρ) : Bool :=
  s.action.isNotify

def isFinished (s : Done ε ρ) : Bool :=
  s.ran && s.action.result?.isSome

def clears (s : Done ε ρ) : Bool :=
  s.ran || s.action.isCancel

end Done

def after (d : Debounce ε ρ) (actions : List (Action ε ρ)) : Debounce ε ρ :=
  actions.foldl (fun d a => (d.step a).2) d

def history (d : Debounce ε ρ) : List (Action ε ρ) → List (Done ε ρ)
  | [] => []
  | a :: rest => ⟨a, (d.step a).1⟩ :: (d.step a).2.history rest

-- ---------------------------------------------------------------------------
-- Histories
-- ---------------------------------------------------------------------------

/-- A timer waits if nothing has settled it since the event that started it. As every event starts
a timer, it is the timer of the last event. -/
def Waiting (actions : List (Action ε ρ)) (i : Nat) : Prop :=
  ∃ before event since, actions = before ++ .notify event :: since ∧
    i = before.countP Action.isNotify ∧ ∀ a ∈ since, ¬a.Settles i

theorem not_waiting_nil (i : Nat) : ¬Waiting ([] : List (Action ε ρ)) i := by
  rintro ⟨before, event, since, hsplit, -⟩
  simp at hsplit

theorem waiting_concat {actions : List (Action ε ρ)} {a : Action ε ρ} :
    Waiting (actions ++ [a]) i ↔
      a.isNotify = true ∧ i = actions.countP Action.isNotify ∨ Waiting actions i ∧ ¬a.Settles i := by
  constructor
  · rintro ⟨before, event, since, hsplit, hi, hsince⟩
    rcases List.eq_nil_or_concat since with rfl | ⟨since', last, rfl⟩
    · obtain ⟨rfl, hlast⟩ := List.append_inj' hsplit rfl
      obtain rfl := List.singleton_inj.mp hlast
      exact .inl ⟨rfl, hi⟩
    · rw [List.concat_eq_append, ← List.cons_append, ← List.append_assoc] at hsplit
      obtain ⟨rfl, hlast⟩ := List.append_inj' hsplit rfl
      obtain rfl := List.singleton_inj.mp hlast
      rw [List.concat_eq_append, List.forall_mem_append] at hsince
      exact .inr ⟨⟨before, event, since', rfl, hi, hsince.1⟩, hsince.2 a (by simp)⟩
  · rintro (⟨hnotify, rfl⟩ | ⟨⟨before, event, since, rfl, hi, hsince⟩, hlast⟩)
    · cases a with
      | notify event => exact ⟨actions, event, [], rfl, rfl, by simp⟩
      | _ => simp [Action.isNotify] at hnotify
    · refine ⟨before, event, since ++ [a], by simp, hi, ?_⟩
      rw [List.forall_mem_append]
      exact ⟨hsince, by simpa using hlast⟩

def eventsPending (log : List (Done ε ρ)) : Nat :=
  (log.reverse.takeWhile fun s => !s.clears).countP Done.isNotify

theorem eventsPending_concat (log : List (Done ε ρ)) (s : Done ε ρ) :
    eventsPending (log ++ [s]) =
      if s.clears then 0 else eventsPending log + if s.isNotify then 1 else 0 := by
  cases hclears : s.clears with
  | true => simp [eventsPending, hclears]
  | false => simp [eventsPending, hclears, List.countP_cons]

-- ---------------------------------------------------------------------------
-- States
-- ---------------------------------------------------------------------------

def tokens (d : Debounce ε ρ) : List Nat :=
  d.timers.map Timer.token

/-- The timer that is held is the latest, was not cancelled, and has the token that counts. -/
def Holds (d : Debounce ε ρ) (i : Nat) : Prop :=
  i + 1 = d.timers.length ∧
    ∃ timer, d.timers[i]? = some timer ∧ timer.cancelled = false ∧ timer.token = d.token

structure Sound (d : Debounce ε ρ) : Prop where
  increasing : d.tokens.Pairwise (· < ·)
  bounded : ∀ k ∈ d.tokens, k ≤ d.token
  idle : d.current = none ↔ d.pending = 0
  held : d.current = some i → d.Holds i

section
variable {d : Debounce ε ρ}

theorem cancelCurrent_tokens (d : Debounce ε ρ) : d.cancelCurrent.tokens = d.tokens := by
  unfold cancelCurrent
  cases d.current with
  | none => rfl
  | some i =>
    refine List.ext_getElem? fun j => ?_
    simp only [tokens, List.getElem?_map, List.getElem?_modify]
    split
    · cases d.timers[j]? <;> rfl
    · simp

theorem cancelCurrent_length (d : Debounce ε ρ) :
    d.cancelCurrent.timers.length = d.timers.length := by
  have htokens := congrArg List.length d.cancelCurrent_tokens
  simpa [tokens] using htokens

theorem cancelCurrent_eq (d : Debounce ε ρ) :
    d.cancelCurrent = { d with timers := d.cancelCurrent.timers } := by
  unfold cancelCurrent
  split <;> rfl

@[simp] theorem cancelCurrent_token (d : Debounce ε ρ) : d.cancelCurrent.token = d.token := by
  rw [cancelCurrent_eq]

@[simp] theorem cancelCurrent_pending (d : Debounce ε ρ) :
    d.cancelCurrent.pending = d.pending := by
  rw [cancelCurrent_eq]

@[simp] theorem cancelCurrent_runs (d : Debounce ε ρ) : d.cancelCurrent.runs = d.runs := by
  rw [cancelCurrent_eq]

theorem Sound.new (window : Value) : Sound ({ window } : Debounce ε ρ) where
  increasing := .nil
  bounded := by simp [tokens]
  idle := by simp
  held := by simp

theorem Sound.notify (h : Sound d) (event : ε) : Sound (d.notify event) := by
  have htokens : (d.notify event).tokens = d.tokens ++ [d.token + 1] := by
    rw [← d.cancelCurrent_tokens]
    simp [Debounce.notify, tokens]
  refine ⟨?_, ?_, by simp [Debounce.notify], ?_⟩
  · rw [htokens, List.pairwise_append]
    refine ⟨h.increasing, List.pairwise_singleton _ _, fun k hk l hl => ?_⟩
    rw [List.mem_singleton.mp hl]
    exact Nat.lt_succ_of_le (h.bounded k hk)
  · intro k hk
    rw [htokens, List.mem_append, List.mem_singleton] at hk
    have hlater : (d.notify event).token = d.token + 1 := by simp [Debounce.notify]
    rw [hlater]
    rcases hk with hk | rfl
    · exact Nat.le_succ_of_le (h.bounded k hk)
    · exact Nat.le_refl _
  · intro i hi
    obtain rfl : d.cancelCurrent.timers.length = i := Option.some.inj hi
    simp [Holds, Debounce.notify]

theorem Sound.cancel (h : Sound d) : Sound d.cancel where
  increasing := d.cancelCurrent_tokens ▸ h.increasing
  bounded k hk := Nat.le_succ_of_le (h.bounded k (d.cancelCurrent_tokens ▸ hk))
  idle := by simp [Debounce.cancel]
  held := by simp [Debounce.cancel]

theorem Sound.record (h : Sound d) (result : Option ρ) : Sound (d.record result) := by
  cases result with
  | none => exact h
  | some r => exact ⟨h.increasing, h.bounded, h.idle, h.held⟩

/-- The token of a timer counts only if the timer is held. -/
theorem Sound.token_current (h : Sound d) (hpending : d.pending ≠ 0)
    (htimer : d.timers[i]? = some timer) (htoken : timer.token = d.token) : d.current = some i := by
  obtain ⟨j, hj⟩ := Option.ne_none_iff_exists'.mp (h.idle.not.mpr hpending)
  obtain ⟨-, timer', htimer', -, htoken'⟩ := h.held hj
  have hdistinct : d.tokens.Nodup := h.increasing.imp Nat.ne_of_lt
  have hi : d.tokens[i]? = some d.token := by simp [tokens, htimer, htoken]
  have hj' : d.tokens[j]? = some d.token := by simp [tokens, htimer', htoken']
  have hlt : i < d.tokens.length := (List.getElem?_eq_some_iff.mp hi).1
  rw [hj, (List.getElem?_inj hlt hdistinct).mp (hi.trans hj'.symm)]

theorem Sound.step_fire (h : Sound d) (i : Nat) (result : Option ρ) :
    d.step (.fire i result) =
      if d.current = some i then (true, { d with current := none, pending := 0 }.record result)
      else (false, d) := by
  by_cases hcurrent : d.current = some i
  · obtain ⟨-, timer, htimer, -, htoken⟩ := h.held hcurrent
    have hpending : d.pending ≠ 0 := h.idle.not.mp (by simp [hcurrent])
    simp [step, htimer, fire, htoken, isPending, hpending, hcurrent]
  · rw [if_neg hcurrent, step]
    cases htimer : d.timers[i]? with
    | none => rfl
    | some timer =>
      have hstale : ¬(timer.token = d.token ∧ d.pending ≠ 0) := fun ⟨htoken, hpending⟩ =>
        hcurrent (h.token_current hpending htimer htoken)
      have hoff : (decide (timer.token = d.token) && d.isPending) = false := by
        simpa [isPending] using hstale
      simp [fire, hoff]

theorem Sound.step (h : Sound d) (a : Action ε ρ) : Sound (d.step a).2 := by
  cases a with
  | notify event => exact h.notify event
  | cancel => exact h.cancel
  | flush result =>
    simp only [Debounce.step, flush]
    split
    · exact h.cancel.record result
    · exact h.cancel
  | fire i result =>
    rw [h.step_fire]
    split
    · refine Sound.record ?_ result
      exact ⟨h.increasing, h.bounded, by simp, by simp⟩
    · exact h

-- ---------------------------------------------------------------------------
-- What one action does
-- ---------------------------------------------------------------------------

@[simp] theorem record_timers (d : Debounce ε ρ) (result : Option ρ) :
    (d.record result).timers = d.timers := by
  cases result <;> rfl

@[simp] theorem record_current (d : Debounce ε ρ) (result : Option ρ) :
    (d.record result).current = d.current := by
  cases result <;> rfl

@[simp] theorem record_pending (d : Debounce ε ρ) (result : Option ρ) :
    (d.record result).pending = d.pending := by
  cases result <;> rfl

theorem record_runs (d : Debounce ε ρ) (result : Option ρ) :
    (d.record result).runs = d.runs + if result.isSome then 1 else 0 := by
  cases result <;> rfl

theorem step_length (h : Sound d) (a : Action ε ρ) :
    (d.step a).2.timers.length = d.timers.length + if a.isNotify then 1 else 0 := by
  cases a with
  | notify event => simp [step, notify, cancelCurrent_length, Action.isNotify]
  | cancel => simp [step, cancel, cancelCurrent_length, Action.isNotify]
  | flush result =>
    simp only [step, flush, Action.isNotify]
    split <;> simp [cancel, cancelCurrent_length]
  | fire i result =>
    rw [h.step_fire]
    split <;> simp [Action.isNotify]

theorem step_current (h : Sound d) (a : Action ε ρ) :
    (d.step a).2.current = some i ↔
      a.isNotify = true ∧ i = d.timers.length ∨ d.current = some i ∧ ¬a.Settles i := by
  cases a with
  | notify event =>
    simp [step, notify, cancelCurrent_length, Action.isNotify, Action.Settles, eq_comm]
  | cancel => simp [step, cancel, Action.isNotify, Action.Settles]
  | flush result =>
    simp only [step, flush, Action.isNotify, Action.Settles]
    split <;> simp [cancel]
  | fire j result =>
    rw [h.step_fire]
    simp only [Action.isNotify, Action.Settles]
    split
    · rename_i hj
      simp [hj]
    · rename_i hj
      simp only [Bool.false_eq_true, false_and, false_or, iff_self_and]
      rintro hi rfl
      exact hj hi

theorem step_pending (h : Sound d) (a : Action ε ρ) :
    (d.step a).2.pending =
      if Done.clears ⟨a, (d.step a).1⟩ then 0 else d.pending + if a.isNotify then 1 else 0 := by
  cases a with
  | notify event => simp [step, notify, Done.clears, Action.isCancel, Action.isNotify]
  | cancel => simp [step, cancel, Done.clears, Action.isCancel]
  | flush result =>
    simp only [step, flush, Done.clears, Action.isCancel, Action.isNotify]
    split
    · simp [cancel]
    · rename_i hidle
      have hnone : d.pending = 0 := by simpa [isPending] using hidle
      simp [cancel, hnone]
  | fire i result =>
    rw [h.step_fire]
    split <;> simp [Done.clears, Action.isCancel, Action.isNotify]

theorem step_runs (h : Sound d) (a : Action ε ρ) :
    (d.step a).2.runs = d.runs + if Done.isFinished ⟨a, (d.step a).1⟩ then 1 else 0 := by
  cases a with
  | notify event => simp [step, notify, Done.isFinished]
  | cancel => simp [step, cancel, Done.isFinished]
  | flush result =>
    simp only [step, flush, Done.isFinished, Action.result?]
    split <;> simp [record_runs, cancel]
  | fire i result =>
    rw [h.step_fire]
    split <;> simp [record_runs, Done.isFinished, Action.result?]

/-- A run leaves its result behind. Without one the last result stays, and nothing that was pending
is lost. -/
theorem step_lastResult (d : Debounce ε ρ) {a : Action ε ρ} (hresult : a.result? = some r) :
    (d.step a).1 = true ∧ (d.step a).2.lastResult = some r ∨
      (d.step a).1 = false ∧ (d.step a).2.lastResult = d.lastResult ∧
        ((d.step a).2.pending = 0 → d.pending = 0) := by
  cases a with
  | notify event => cases hresult
  | cancel => cases hresult
  | flush result =>
    obtain rfl : result = some r := hresult
    simp only [step, flush]
    split
    · exact .inl ⟨rfl, rfl⟩
    · rename_i hidle
      have hnone : d.pending = 0 := by simpa [isPending] using hidle
      exact .inr ⟨rfl, by rw [cancel, cancelCurrent_eq], fun _ => hnone⟩
  | fire i result =>
    obtain rfl : result = some r := hresult
    simp only [step]
    split
    · simp only [fire]
      split
      · exact .inl ⟨rfl, rfl⟩
      · exact .inr ⟨rfl, rfl, fun hpending => hpending⟩
    · exact .inr ⟨rfl, rfl, fun hpending => hpending⟩

theorem step_idle (h : Sound d) (hpending : d.pending = 0) {a : Action ε ρ}
    (hnotify : a.isNotify = false) : (d.step a).1 = false ∧ (d.step a).2.pending = 0 := by
  refine ⟨?_, ?_⟩
  · cases a with
    | flush result => simp [step, flush, isPending, hpending]
    | fire i result => simp [h.step_fire, h.idle.mpr hpending]
    | _ => rfl
  · rw [step_pending h, hpending, hnotify]
    simp

end

-- ---------------------------------------------------------------------------
-- Whole histories
-- ---------------------------------------------------------------------------

structure Follows (log : List (Done ε ρ)) (d : Debounce ε ρ) : Prop where
  sound : Sound d
  started : d.timers.length = log.countP Done.isNotify
  current : d.current = some i ↔ Waiting (log.map Done.action) i
  pending : d.pending = eventsPending log
  runs : d.runs = log.countP Done.isFinished

section
variable {d : Debounce ε ρ} {log : List (Done ε ρ)}

theorem Follows.new (window : Value) : Follows [] ({ window } : Debounce ε ρ) :=
  ⟨.new window, rfl, by simp [not_waiting_nil], rfl, rfl⟩

theorem Follows.step (h : Follows log d) (a : Action ε ρ) :
    Follows (log ++ [⟨a, (d.step a).1⟩]) (d.step a).2 where
  sound := h.sound.step a
  started := by
    rw [step_length h.sound, h.started, List.countP_append, List.countP_singleton, Done.isNotify]
  current {i} := by
    have hstarted : (log.map Done.action).countP Action.isNotify = d.timers.length := by
      rw [h.started, List.countP_map]
      rfl
    rw [step_current h.sound, List.map_append, List.map_singleton, waiting_concat, hstarted,
      h.current]
  pending := by
    rw [step_pending h.sound, h.pending, eventsPending_concat, Done.isNotify]
  runs := by
    rw [step_runs h.sound, h.runs, List.countP_append, List.countP_singleton]

theorem Follows.after (h : Follows log d) (actions : List (Action ε ρ)) :
    Follows (log ++ d.history actions) (d.after actions) := by
  induction actions generalizing d log with
  | nil => simpa [history, Debounce.after] using h
  | cons a actions ih =>
    have hrest := ih (h.step a)
    rw [List.append_assoc] at hrest
    exact hrest

theorem history_actions (d : Debounce ε ρ) (actions : List (Action ε ρ)) :
    (d.history actions).map Done.action = actions := by
  induction actions generalizing d with
  | nil => rfl
  | cons a actions ih => rw [history, List.map_cons, ih]

/-- Where nothing is pending, there is no run before the next event. -/
theorem event_before_run {between rest : List (Done ε ρ)} (h : Sound d) (hpending : d.pending = 0)
    (hlog : d.history actions = between ++ last :: rest) (hran : last.ran = true) :
    ∃ s ∈ between, s.isNotify = true := by
  induction between generalizing d actions with
  | nil =>
    cases actions with
    | nil => simp [history] at hlog
    | cons a actions =>
      obtain ⟨rfl, -⟩ := List.cons.inj hlog
      cases hnotify : a.isNotify with
      | false => exact absurd hran (by simp [(step_idle h hpending hnotify).1])
      | true =>
        cases a with
        | notify event => cases hran
        | _ => cases hnotify
  | cons s between ih =>
    cases actions with
    | nil => simp [history] at hlog
    | cons a actions =>
      obtain ⟨rfl, hrest⟩ := List.cons.inj hlog
      cases hnotify : a.isNotify with
      | true => exact ⟨_, List.mem_cons_self, hnotify⟩
      | false =>
        obtain ⟨s, hs, hevent⟩ := ih (h.step a) (step_idle h hpending hnotify).2 hrest
        exact ⟨s, List.mem_cons_of_mem _ hs, hevent⟩

theorem event_between_runs {before between rest : List (Done ε ρ)} (h : Sound d)
    (hlog : d.history actions = before ++ first :: (between ++ last :: rest))
    (hfirst : first.ran = true) (hlast : last.ran = true) : ∃ s ∈ between, s.isNotify = true := by
  induction before generalizing d actions with
  | nil =>
    cases actions with
    | nil => simp [history] at hlog
    | cons a actions =>
      obtain ⟨rfl, hrest⟩ := List.cons.inj hlog
      have hclears : Done.clears ⟨a, (d.step a).1⟩ = true := Bool.or_eq_true_iff.mpr (.inl hfirst)
      have hpending : (d.step a).2.pending = 0 := by rw [step_pending h, if_pos hclears]
      exact event_before_run (h.step a) hpending hrest hlast
  | cons s before ih =>
    cases actions with
    | nil => simp [history] at hlog
    | cons a actions => exact ih (h.step a) (List.cons.inj hlog).2

end

/-- A debouncer after any actions from its start. A timer causes a run if and only if it waits; a
flush does if and only if something is pending. -/
theorem runs_told_by_history (window : Value) (actions : List (Action ε ρ)) :
    let d := ({ window } : Debounce ε ρ).after actions
    let log := ({ window } : Debounce ε ρ).history actions
    (∀ i result, (d.step (.fire i result)).1 = true ↔ Waiting actions i) ∧
      (∀ result, (d.step (.flush result)).1 = true ↔ 0 < d.pending) ∧
      d.pending = eventsPending log ∧
      d.runs = log.countP Done.isFinished ∧
      ((∀ s ∈ log, s.ran = true → s.action.result?.isSome = true) → d.runs = log.countP Done.ran) ∧
      (∀ before first between last rest,
        log = before ++ first :: (between ++ last :: rest) → first.ran = true → last.ran = true →
          ∃ s ∈ between, s.isNotify = true) ∧
      (0 < d.pending ↔ ∃ i, d.current = some i) ∧
      ∀ i, d.current = some i → d.Holds i ∧ Waiting actions i := by
  intro d log
  have h : Follows log d := (Follows.new window).after actions
  have hactions : log.map Done.action = actions := history_actions _ actions
  have hwaiting : ∀ i, d.current = some i ↔ Waiting actions i := fun i => by
    rw [h.current, hactions]
  refine ⟨fun i result => ?_, fun result => ?_, h.pending, h.runs, fun hall => ?_,
    fun before first between last rest hsplit => event_between_runs (.new window) hsplit, ?_,
    fun i hi => ⟨h.sound.held hi, (hwaiting i).mp hi⟩⟩
  · rw [h.sound.step_fire, ← hwaiting]
    split <;> simp_all
  · rw [step, flush, Nat.pos_iff_ne_zero]
    cases hpending : d.isPending <;> simpa [isPending] using hpending
  · rw [h.runs]
    refine List.countP_congr fun s hs => ?_
    simp only [Done.isFinished, Bool.and_eq_true, and_iff_left_iff_imp]
    exact hall s hs
  · rw [Nat.pos_iff_ne_zero, Ne, ← h.sound.idle, ← Ne, Option.ne_none_iff_exists']

/-- The timer that was replaced does nothing, and the newest one runs once. -/
example : (({ window := .null } : Debounce Unit Unit).history
    [.notify (), .notify (), .fire 0 none, .fire 1 none, .fire 1 none]).map Done.ran =
      [false, false, false, true, false] := rfl

end BlockSketch.Debounce
