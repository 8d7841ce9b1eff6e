import LibConn.Model.Timer
import LibConn.Model.Io

/-! # One iteration of `event_loop_run` -/

namespace LibConn

/-- A value as `int64_t`. -/
def int64 (n : ℤ) : ℤ :=
  n.bmod (2 ^ 64)

/-- What an iteration calls first. -/
inductive LoopCall where
  /-- `process_timer` -/
  | processTimer
  /-- `disp->run(loop, blocktime_ms)` -/
  | dispRun (blocktime_ms : ℤ)
  deriving DecidableEq, Repr

/-- `blocktime_ms`, where there are timers. -/
def blocktimeMs (loop : Loop) : ℤ :=
  match heapTop loop.timers with
  | none => 10
  | some t =>
    let min_timeout := int64 (u64 ((loop.timer t).next_timeout - loop.cur_ms))
    int32 (if min_timeout < 10 then min_timeout else 10)

/-- One iteration of `event_loop_run` up to its first call, and the loop then.
`get_curtime_ms` returns `now`. -/
def eventLoopTurn (loop : Loop) (now : ℕ) : LoopCall × Loop :=
  if 0 < loop.timers_num then
    let loop := updateLoopTimer loop now
    let blocktime_ms := blocktimeMs loop
    if blocktime_ms ≤ 0 then (.processTimer, loop) else (.dispRun blocktime_ms, loop)
  else (.dispRun 10, loop)

end LibConn
