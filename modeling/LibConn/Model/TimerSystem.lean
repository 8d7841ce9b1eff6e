import LibConn.Model.Io
import LibConn.Shared.Run
import Mathlib.Data.Finset.Erase
import Mathlib.Data.Finset.Insert

/-! # Runs of the timer operations

A loop, its ios, and the timers that were armed and have neither been cancelled nor fired
for the last time. Expiry is broken up, so that callbacks can use the timers in between:
`processTimer` and `processPendingEvent` put it together again. -/

namespace LibConn

open LibConn.Run

/-- `armed` is history: what the operations so far should have left in the heap. -/
structure TimerSystem where
  loop : Loop
  io : ℕ → Io
  armed : Finset ℕ

inductive TimerAction where
  /-- `update_loop_timer` -/
  | tick (now : ℕ)
  | addTimer (timeout : ℤ) (cb : Option TimerCb) (repeats now : ℕ) (mem : Option ℕ)
  | delTimer (t : ℕ)
  | resetTimer (t : ℕ) (timeout : ℤ)
  /-- `io_set_*_timeout` -/
  | setTimeout (kind : Timeout) (self : ℕ) (timeout : ℤ) (now : ℕ) (mem : Option ℕ)
  /-- `io_remove_*_timeout` -/
  | removeTimeout (kind : Timeout) (self : ℕ)
  /-- one turn of `process_timer` up to the callback -/
  | expire
  /-- what `process_pending_event` does behind the callback of a timer -/
  | pendingDone (t : ℕ)
  /-- the end of `process_pending_event` -/
  | pendingEnd
  deriving DecidableEq, Repr

/-- The function that sets a timeout of the given kind. -/
def ioSetTimeoutOf : Timeout → ℕ → Conn → ℤ → ℕ → Option ℕ → Option Conn
  | .read => ioSetReadTimeout
  | .write => ioSetWriteTimeout
  | .close => ioSetCloseTimeout
  | .connect => ioSetConnectTimeout

/-- `malloc` does not return a block that is in use. -/
def Loop.memFree (loop : Loop) (mem : Option ℕ) : Prop :=
  ∀ t ∈ mem, (loop.timer t).allocated = false

instance (loop : Loop) (mem : Option ℕ) : Decidable (loop.memFree mem) :=
  inferInstanceAs (Decidable (∀ t ∈ mem, (loop.timer t).allocated = false))

/-- The timer is armed, unless it is `NULL`. -/
def arm (armed : Finset ℕ) : Option ℕ → Finset ℕ
  | none => armed
  | some t => insert t armed

/-- The timer is not armed any more. -/
def disarm (armed : Finset ℕ) : Option ℕ → Finset ℕ
  | none => armed
  | some t => armed.erase t

/-- What setting a timeout does to the armed timers, where `before` and `after` are the
timer of the io around the call. -/
def rearm (armed : Finset ℕ) (timeout : ℤ) (before after : Option ℕ) : Finset ℕ :=
  if timeout < 0 then (if after = none then disarm armed before else armed)
  else arm armed after

/-- One action, where it is defined behaviour: `none` where it is not, and where there is
no turn to take. -/
def TimerSystem.step (s : TimerSystem) : TimerAction → Option TimerSystem
  | .tick now => some { s with loop := updateLoopTimer s.loop now }
  | .addTimer timeout cb repeats now mem =>
    if s.loop.memFree mem then
      let (timer, loop) := LibConn.addTimer s.loop timeout cb repeats now mem
      some { s with loop := loop, armed := arm s.armed timer }
    else none
  | .delTimer t =>
    if t ∈ s.armed then
      some { s with loop := LibConn.delTimer s.loop t, armed := s.armed.erase t }
    else none
  | .resetTimer t timeout =>
    (LibConn.resetTimer s.loop t timeout).map fun loop =>
      { s with loop := loop, armed := insert t s.armed }
  | .setTimeout kind self timeout now mem =>
    if s.loop.memFree mem then
      (ioSetTimeoutOf kind self ⟨s.io self, s.loop⟩ timeout now mem).map fun c =>
        { loop := c.loop
          io := Function.update s.io self c.io
          armed := rearm s.armed timeout ((s.io self).timer kind) (c.io.timer kind) }
    else none
  | .removeTimeout kind self =>
    let c := ioRemoveTimeout kind ⟨s.io self, s.loop⟩
    some
      { loop := c.loop
        io := Function.update s.io self c.io
        armed := disarm s.armed ((s.io self).timer kind) }
  | .expire =>
    match processTimerTurn s.loop with
    | .fault => none
    | .stop => none
    | .last t loop => some { s with loop := loop, armed := s.armed.erase t }
    | .again _ loop => some { s with loop := loop }
  | .pendingDone t => some { s with loop := LibConn.pendingDone s.loop t }
  | .pendingEnd => some { s with loop := { s.loop with pending := none } }

/-! ## Expiry -/

/-- The callback of a timer, if it has one: it may use the timers as it likes. -/
def runCallback (callback : TimerSystem → ℕ → List TimerAction) (s : TimerSystem) (t : ℕ) :
    Option TimerSystem :=
  if (s.loop.timer t).cb = none then some s else exec TimerSystem.step s (callback s t)

/-- `process_timer`, for at most `fuel` turns. -/
def processTimer (callback : TimerSystem → ℕ → List TimerAction) :
    ℕ → TimerSystem → Option TimerSystem
  | 0, _ => none
  | fuel + 1, s =>
    match processTimerTurn s.loop with
    | .fault => none
    | .stop => some s
    | .last t loop =>
      processTimer callback fuel { s with loop := loop, armed := s.armed.erase t }
    | .again t loop =>
      (runCallback callback { s with loop := loop } t).bind (processTimer callback fuel)

/-- `process_pending_event` from `cur` on, for at most `fuel` timers. -/
def processPendingEvent (callback : TimerSystem → ℕ → List TimerAction) :
    ℕ → Option ℕ → TimerSystem → Option TimerSystem
  | _, none, s => some { s with loop := { s.loop with pending := none } }
  | 0, some _, _ => none
  | fuel + 1, some cur, s =>
    let next := (s.loop.timer cur).next_event
    if (s.loop.timer cur).cb = none then processPendingEvent callback fuel next s
    else
      (exec TimerSystem.step s (callback s cur)).bind fun s =>
        processPendingEvent callback fuel next { s with loop := LibConn.pendingDone s.loop cur }

end LibConn
