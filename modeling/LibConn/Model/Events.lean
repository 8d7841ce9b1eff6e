import Mathlib.Data.Nat.Notation
import Mathlib.Logic.Function.Basic

/-! # Events

`event.c`, and `process_pending_event` with the callbacks that it runs. An event is named
by its address; it is the part that ios and timers have in common. -/

namespace LibConn.Events

/-- `event_st`. `cb` says whether a callback is set, `allocated` whether the address is a
live block. -/
structure Event where
  allocated : Bool
  cb : Bool
  next_event : Option ℕ
  pending : Bool
  destory : Bool
  active : Bool
  deriving DecidableEq, Repr

/-- The head of the list of pending events, and the events in memory. -/
structure EventLoop where
  pending : Option ℕ
  event : ℕ → Event

def EventLoop.setEvent (loop : EventLoop) (ev : ℕ) (event : Event) : EventLoop :=
  { loop with event := Function.update loop.event ev event }

/-- `event_pending` -/
def eventPending (loop : EventLoop) (ev : ℕ) : EventLoop :=
  if (loop.event ev).pending then loop
  else
    { loop.setEvent ev { loop.event ev with pending := true, next_event := loop.pending } with
      pending := some ev }

/-- `event_del` -/
def eventDel (loop : EventLoop) (ev : ℕ) : EventLoop :=
  if (loop.event ev).destory then
    loop.setEvent ev { loop.event ev with destory := false, allocated := false }
  else loop

/-- `event_reset` -/
def eventReset (loop : EventLoop) (ev : ℕ) : EventLoop :=
  loop.setEvent ev { loop.event ev with destory := false, active := true, pending := false }

/-! ## Callbacks -/

/-- What a callback can do to an event. -/
inductive EventOp where
  | pending (ev : ℕ)
  | del (ev : ℕ)
  | reset (ev : ℕ)
  deriving DecidableEq, Repr

/-- The event that an operation is about. -/
def EventOp.ev : EventOp → ℕ
  | .pending ev => ev
  | .del ev => ev
  | .reset ev => ev

def EventOp.apply (loop : EventLoop) : EventOp → EventLoop
  | .pending ev => eventPending loop ev
  | .del ev => eventDel loop ev
  | .reset ev => eventReset loop ev

/-- The operations of one callback; `none` where an event that is gone is used. -/
def runOps (loop : EventLoop) : List EventOp → Option EventLoop
  | [] => some loop
  | op :: ops => if (loop.event op.ev).allocated then runOps (op.apply loop) ops else none

/-- The events that `event_pending` is called for. -/
def pendedBy (ops : List EventOp) : List ℕ :=
  ops.filterMap fun
    | .pending ev => some ev
    | _ => none

/-- What each callback does, given the callbacks that have run before it in this call of
`process_pending_event`. -/
abbrev Behaviour := List ℕ → ℕ → List EventOp

/-- The loop, the events whose `cb` has been called, and those that the callbacks called
`event_pending` for. -/
structure Walk where
  loop : EventLoop
  calls : List ℕ
  pended : List ℕ

/-- `cur->cb(cur); cur->pending = 0; if (cur->destory) event_del(cur);` -/
def runEvent (behaviour : Behaviour) (w : Walk) (cur : ℕ) : Option Walk :=
  (runOps w.loop (behaviour w.calls cur)).bind fun loop =>
    if (loop.event cur).allocated then
      let loop := loop.setEvent cur { loop.event cur with pending := false }
      some
        { loop := if (loop.event cur).destory then eventDel loop cur else loop
          calls := w.calls ++ [cur]
          pended := w.pended ++ pendedBy (behaviour w.calls cur) }
    else none

/-- `process_pending_event` from `cur` on, for at most `fuel` events; `none` where an event
that is gone is used, or where the fuel does not reach the end of the list. -/
def walk (behaviour : Behaviour) : ℕ → Option ℕ → Walk → Option Walk
  | _, none, w => some { w with loop := { w.loop with pending := none } }
  | 0, some _, _ => none
  | fuel + 1, some cur, w =>
    if (w.loop.event cur).allocated then
      let next := (w.loop.event cur).next_event
      if (w.loop.event cur).cb then (runEvent behaviour w cur).bind (walk behaviour fuel next)
      else walk behaviour fuel next w
    else none

/-- `process_pending_event` -/
def processPendingEvent (behaviour : Behaviour) (fuel : ℕ) (loop : EventLoop) : Option Walk :=
  walk behaviour fuel loop.pending { loop := loop, calls := [], pended := [] }

/-- A loop with no pending event. -/
def start (event : ℕ → Event) : EventLoop where
  pending := none
  event := event

/-- `event_pending` for each event in turn. -/
def pendAll (loop : EventLoop) (evs : List ℕ) : EventLoop :=
  evs.foldl eventPending loop

end LibConn.Events
