import BlockSketch.Value.Basic

/-!
# Debouncing

Bursts of events lead to a single run: every event starts a new timer in place of the one that is
waiting, and a timer that fires causes a run only if it is the latest and something is pending. Only
the number of pending events is remembered, not the events.
-/

namespace BlockSketch

/-- A timer with the token it was started under. One in the background does not keep the editor
from ending. -/
structure Timer where
  token : Nat
  interval : Value
  background : Bool := false
  started : Bool := false
  cancelled : Bool := false
  deriving Repr

def Timer.start (timer : Timer) : Timer :=
  { timer with background := true, started := true }

@[simp] theorem Timer.start_token (timer : Timer) : timer.start.token = timer.token := rfl
@[simp] theorem Timer.start_cancelled (timer : Timer) : timer.start.cancelled = timer.cancelled := rfl

structure Debounce (ε ρ : Type) where
  window : Value
  /-- Every timer ever started, in order. -/
  timers : List Timer := []
  current : Option Nat := none
  token : Nat := 0
  pending : Nat := 0
  runs : Nat := 0
  lastEvent : Option ε := none
  lastResult : Option ρ := none

namespace Debounce

variable {ε ρ : Type}

def isPending (d : Debounce ε ρ) : Bool :=
  d.pending != 0

def cancelCurrent (d : Debounce ε ρ) : Debounce ε ρ :=
  match d.current with
  | none => d
  | some i => { d with timers := d.timers.modify i fun t => { t with cancelled := true } }

def notify (d : Debounce ε ρ) (event : ε) : Debounce ε ρ :=
  let d := d.cancelCurrent
  { d with
    pending := d.pending + 1
    lastEvent := some event
    token := d.token + 1
    current := some d.timers.length
    timers := d.timers ++ [Timer.start { token := d.token + 1, interval := d.window }] }

/-- Forgets what is pending; timers that were started before no longer count. -/
def cancel (d : Debounce ε ρ) : Debounce ε ρ :=
  { d.cancelCurrent with current := none, token := d.token + 1, pending := 0 }

/-- Records a run with its result. A run that breaks off has none and is not counted. -/
def record (d : Debounce ε ρ) : Option ρ → Debounce ε ρ
  | some result => { d with runs := d.runs + 1, lastResult := some result }
  | none => d

def flush (d : Debounce ε ρ) (result : Option ρ) : Bool × Debounce ε ρ :=
  if d.isPending then (true, d.cancel.record result) else (false, d.cancel)

def fire (d : Debounce ε ρ) (timer : Timer) (result : Option ρ) : Bool × Debounce ε ρ :=
  if timer.token = d.token && d.isPending then
    (true, { d with current := none, pending := 0 }.record result)
  else (false, d)

end Debounce

end BlockSketch
