import LibConn.Model.TimerSystem

/-! # Which timer callbacks are called

`process_timer` and `process_pending_event` as steps of a thread, with the callbacks that they
call in between. The callbacks, and the code around the two functions, may use the timers. -/

namespace LibConn

/-- Where the thread of the loop is. -/
inductive Stage where
  /-- in neither function -/
  | idle
  /-- in `process_timer`, in front of a turn -/
  | expiring
  /-- in a callback that `process_timer` has called -/
  | firing (t : ℕ)
  /-- in `process_pending_event`, with this value of `cur` -/
  | pending (cur : Option ℕ)
  /-- in the callback of `cur`, with this value of `next` -/
  | calling (cur : ℕ) (next : Option ℕ)
  deriving DecidableEq, Repr

/-- The call of a timer callback: whether `process_pending_event` makes it, and the deadline
at which the timer expired. -/
structure CbCall where
  deferred : Bool
  deadline : ℕ
  deriving DecidableEq, Repr

/-- The loop, and where its thread is. The other fields are history: the calls of each
callback since its timer was made, how often `add_timer` was asked for them and the own
callback has armed the timer again, the deadlines of the timers on the pending list, and the
calls since `process_timer` was last entered. -/
structure FiringSystem where
  loop : Loop
  stage : Stage
  calls : ℕ → ℕ
  asked : ℕ → Option ℕ
  expired : ℕ → ℕ
  log : List CbCall

/-- What the program does with the timers. -/
inductive TimerOp where
  /-- `update_loop_timer` -/
  | tick (now : ℕ)
  | addTimer (timeout : ℤ) (cb : Option TimerCb) (repeats now : ℕ) (mem : Option ℕ)
  /-- `timer->privdata = io` -/
  | setPrivdata (t : ℕ) (io : ℕ)
  | resetTimer (t : ℕ) (timeout : ℤ)
  | delTimer (t : ℕ)
  /-- `heap_remove`, as `io_remove_*_timeout` uses it -/
  | removeTimer (t : ℕ)
  deriving DecidableEq, Repr

inductive FiringAction where
  | op (op : TimerOp)
  /-- `process_timer` is called. -/
  | processTimer
  /-- one turn of `process_timer`, up to the callback -/
  | turn
  /-- `process_pending_event` is called. -/
  | processPendingEvent
  /-- one turn of `process_pending_event`, up to the callback, or its end -/
  | visit
  /-- a callback returns -/
  | ret
  deriving DecidableEq, Repr

/-- The code of the program runs, not that of the two functions. -/
def Stage.outside : Stage → Bool
  | .idle => true
  | .firing _ => true
  | .calling _ _ => true
  | _ => false

/-- The next timer of the pending list that `process_pending_event` comes to. -/
def FiringSystem.head (s : FiringSystem) : Option ℕ :=
  match s.stage with
  | .pending cur => cur
  | .calling _ next => next
  | _ => s.loop.pending

/-- How often the callback of a new timer is to be called. A timer that fires forever or has
no callback is not counted. -/
def askedFor (cb : Option TimerCb) (repeats : ℕ) : Option ℕ :=
  if cb ≠ none ∧ repeats < uint32Max then some (max repeats 1) else none

/-- The callback of a timer that has fired for the last time arms its own timer. -/
def FiringSystem.rearmsSelf (s : FiringSystem) (t : ℕ) : Bool :=
  match s.stage with
  | .calling cur _ => cur = t && (s.loop.timer t).destory
  | _ => false

/-- One operation, where it is defined behaviour. -/
def FiringSystem.runOp (s : FiringSystem) : TimerOp → Option FiringSystem
  | .tick now => some { s with loop := updateLoopTimer s.loop now }
  | .addTimer timeout cb repeats now mem =>
    -- `repeat` is an `uint32_t`
    if s.loop.memFree mem ∧ repeats ≤ uint32Max then
      match addTimer s.loop timeout cb repeats now mem with
      | (none, loop) => some { s with loop := loop }
      | (some t, loop) =>
        some
          { s with
            loop := loop
            calls := Function.update s.calls t 0
            asked := Function.update s.asked t (askedFor cb repeats) }
    else none
  | .setPrivdata t io =>
    if (s.loop.timer t).allocated then
      some { s with loop := s.loop.setTimer t { s.loop.timer t with privdata := some io } }
    else none
  | .resetTimer t timeout =>
    (resetTimer s.loop t timeout).map fun loop =>
      { s with
        loop := loop
        asked :=
          if s.rearmsSelf t then Function.update s.asked t ((s.asked t).map (· + 1))
          else s.asked }
  | .delTimer t =>
    if (s.loop.timer t).allocated then
      some { s with loop := delTimer s.loop t, asked := Function.update s.asked t none }
    else none
  | .removeTimer t =>
    some { s with loop := s.loop.removeTimer t, asked := Function.update s.asked t none }

/-- The callback of `t` is called. -/
def FiringSystem.called (s : FiringSystem) (t : ℕ) (call : CbCall) : FiringSystem :=
  { s with calls := Function.update s.calls t (s.calls t + 1), log := s.log ++ [call] }

/-- One step of the thread, where it is defined behaviour. -/
def FiringSystem.step (s : FiringSystem) : FiringAction → Option FiringSystem
  | .op op => if s.stage.outside then s.runOp op else none
  | .processTimer => if s.stage = .idle then some { s with stage := .expiring, log := [] } else none
  | .turn =>
    if s.stage = .expiring then
      match processTimerTurn s.loop with
      | .fault => none
      | .stop => some { s with stage := .idle }
      | .last t loop =>
        some
          { s with
            loop := loop
            expired := Function.update s.expired t (s.loop.timer t).next_timeout }
      | .again t loop =>
        if (loop.timer t).cb = none then some { s with loop := loop }
        else
          some <|
            { s with loop := loop, stage := .firing t }.called t
              ⟨false, (s.loop.timer t).next_timeout⟩
    else none
  | .processPendingEvent =>
    if s.stage = .idle then some { s with stage := .pending s.loop.pending } else none
  | .visit =>
    match s.stage with
    | .pending none => some { s with loop := { s.loop with pending := none }, stage := .idle }
    | .pending (some cur) =>
      if (s.loop.timer cur).allocated then
        let next := (s.loop.timer cur).next_event
        if (s.loop.timer cur).cb = none then some { s with stage := .pending next }
        else some ({ s with stage := .calling cur next }.called cur ⟨true, s.expired cur⟩)
      else none
    | _ => none
  | .ret =>
    match s.stage with
    | .firing _ => some { s with stage := .expiring }
    | .calling cur next =>
      if (s.loop.timer cur).allocated then
        some { s with loop := pendingDone s.loop cur, stage := .pending next }
      else none
    | _ => none

/-- A loop from `event_loop_init`, before `malloc` has returned a timer. -/
def FiringSystem.start (cur_ms timers_num : ℕ) (timer : ℕ → Timer) (epoll : EpollSet) :
    FiringSystem where
  loop := loopInit cur_ms timers_num (fun t => { timer t with allocated := false }) epoll
  stage := .idle
  calls := fun _ => 0
  asked := fun _ => none
  expired := fun _ => 0
  log := []

end LibConn
