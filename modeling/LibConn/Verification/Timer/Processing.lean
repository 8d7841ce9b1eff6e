import Mathlib.Algebra.GroupWithZero.Nat
import LibConn.Model.TimerSystem
import LibConn.Verification.Timer.Deadlines

/-! # `process_timer` on timers that are left alone

The loop stops only in front of a timer that is not due. It gets there unless all timers leave
the heap, whose first entry is then `NULL`, or one of them fires forever. -/

namespace LibConn

open LibConn.Run

/-- What `add_timer` makes of a timer, and `process_timer` keeps while it is armed. -/
structure Timer.Counting (timer : Timer) : Prop where
  pos : 0 < timer.repeats
  le : timer.repeats ≤ uint32Max

/-- The deadline of a timer that is armed again. -/
def Loop.again (loop : Loop) (t : ℕ) : ℕ :=
  u64 (loop.cur_ms + (loop.timer t).timeout)

/-- The timer is never taken out of the heap: it is not due, or it will not be any more once
it has fired and been armed again. -/
def Loop.Stays (loop : Loop) (t : ℕ) : Prop :=
  loop.cur_ms < (loop.timer t).next_timeout ∨
    ((loop.timer t).repeats ≠ 1 ∧ loop.cur_ms < loop.again t)

/-- The timer fires forever: it is due, it is not counted, and its deadline wraps. -/
def Loop.Spins (loop : Loop) (t : ℕ) : Prop :=
  (loop.timer t).next_timeout ≤ loop.cur_ms ∧ (loop.timer t).repeats = uint32Max ∧
    loop.again t ≤ loop.cur_ms

/-- A callback that does nothing to the loop. -/
def LeavesTimers (callback : TimerSystem → ℕ → List TimerAction) : Prop :=
  ∀ s t, ∃ io, exec TimerSystem.step s (callback s t) = some { s with io := io }

/-- `process_timer` returns, and no timer of the heap is due then. -/
def ExpiresAll (callback : TimerSystem → ℕ → List TimerAction) (s : TimerSystem) : Prop :=
  ∃ fuel s', processTimer callback fuel s = some s' ∧
    ∀ t ∈ s'.loop.timers.array, s'.loop.cur_ms < (s'.loop.timer t).next_timeout

/-! ## One turn -/

/-- A turn of `process_timer` on the timer at the top. -/
structure TopFires (loop : Loop) (t : ℕ) (rest : List ℕ) (loop' : Loop) : Prop where
  clock : loop'.cur_ms = loop.cur_ms
  others : ∀ u ∈ rest, loop'.timer u = loop.timer u
  ordered : TimersOrdered loop'
  fate : ((loop.timer t).repeats = 1 ∧ loop'.timers.array.Perm rest) ∨
    ((loop.timer t).repeats ≠ 1 ∧ loop'.timers.array.Perm (t :: rest) ∧
      loop'.timer t = { loop.timer t with
        repeats := counted (loop.timer t).repeats, next_timeout := loop.again t })

section Turn

variable {loop loop' : Loop} {t : ℕ} {rest : List ℕ}

theorem counted_eq_zero {repeats : ℕ} (hle : repeats ≤ uint32Max) :
    counted repeats = 0 ↔ repeats = 1 := by
  rw [uint32Max] at hle
  rw [counted, u32, uint32Max]
  split_ifs <;> omega

/-- The loop behind the last time that a timer fires. -/
def firedLast (loop : Loop) (t : ℕ) : Loop :=
  let loop := delTimer (countDown loop t) t
  eventPending (loop.setTimer t { loop.timer t with destory := true }) t

/-- The loop in front of the callback of a timer that is armed again. -/
def firedAgain (loop : Loop) (t : ℕ) : Loop :=
  let loop := countDown loop t
  let loop := loop.setTimer t { loop.timer t with next_timeout := loop.again t }
  loop.popTimer.insertTimer t

theorem processTimerTurn_due (hle : (loop.timer t).repeats ≤ uint32Max)
    (harray : loop.timers.array = t :: rest)
    (hdue : (loop.timer t).next_timeout ≤ loop.cur_ms) :
    processTimerTurn loop =
      if (loop.timer t).repeats = 1 then .last t (firedLast loop t)
      else .again t (firedAgain loop t) := by
  have hzero : ((countDown loop t).timer t).repeats = 0 ↔ (loop.timer t).repeats = 1 := by
    rw [countDown_eq, ← counted_eq_zero hle]
    simp [Loop.setTimer]
  have htop : heapTop loop.timers = some t := heapTop_eq_some_iff.mpr ⟨rest, harray⟩
  simp only [processTimerTurn, htop, if_neg hdue.not_gt, hzero]
  rfl

theorem firedLast_others {u : ℕ} (hu : u ≠ t) : (firedLast loop t).timer u = loop.timer u := by
  rw [firedLast]
  refine (eventPending_writes.others u hu).trans ?_
  rw [countDown_eq]
  simp [delTimer, Loop.popTimer, Loop.setTimer, hu]

theorem firedAgain_others {u : ℕ} (hu : u ≠ t) : (firedAgain loop t).timer u = loop.timer u := by
  rw [firedAgain, countDown_eq]
  simp [Loop.setTimer, Loop.insertTimer, Loop.popTimer, hu]

theorem firedAgain_self : (firedAgain loop t).timer t =
    { loop.timer t with
      repeats := counted (loop.timer t).repeats, next_timeout := loop.again t } := by
  rw [firedAgain, countDown_eq]
  simp [Loop.setTimer, Loop.insertTimer, Loop.popTimer, Loop.again]

theorem firedLast_spec (h : TimersOrdered loop)
    (harray : loop.timers.array = t :: rest) (hlast : (loop.timer t).repeats = 1) :
    TopFires loop t rest (firedLast loop t) := by
  have hcompare : timersCompare (countDown loop t) = timersCompare loop := by
    apply timersCompare_congr
    intro u
    rw [countDown_eq]
    rcases eq_or_ne u t with rfl | hu
    · simp [Loop.setTimer]
    · simp [Loop.setTimer, hu]
  have hwrites : Writes ((delTimer (countDown loop t) t).setTimer t
      { (delTimer (countDown loop t) t).timer t with destory := true }) t (firedLast loop t) :=
    eventPending_writes
  have hothers : ∀ u ∈ rest, (firedLast loop t).timer u = loop.timer u := fun u hu =>
    firedLast_others fun heq => h.notMem_rest harray (heq ▸ hu)
  have htimers : (firedLast loop t).timers = heapPop (timersCompare loop) loop.timers := by
    refine hwrites.timers_eq.trans ?_
    rw [← hcompare, countDown_eq]
    rfl
  obtain ⟨hordered, hperm⟩ := h.pop harray htimers fun u hu => by rw [hothers u hu]
  refine ⟨?_, hothers, hordered, Or.inl ⟨hlast, hperm⟩⟩
  rw [firedLast, countDown_eq, eventPending]
  split_ifs <;> rfl

theorem firedAgain_spec (h : TimersOrdered loop)
    (harray : loop.timers.array = t :: rest) (hmore : (loop.timer t).repeats ≠ 1) :
    TopFires loop t rest (firedAgain loop t) := by
  have hothers : ∀ u ∈ rest, (firedAgain loop t).timer u = loop.timer u := fun u hu =>
    firedAgain_others fun heq => h.notMem_rest harray (heq ▸ hu)
  have hsame : SameDeadlines loop (firedAgain loop t) rest := fun u hu => by rw [hothers u hu]
  have htimers : (firedAgain loop t).timers = heapInsert (timersCompare (firedAgain loop t))
      (heapPop (timersCompare loop) loop.timers) t := by
    -- the deadline changes before the timer is taken out, where it is not looked at
    rw [heapPop_congr harray hsame.agreeOn, firedAgain, countDown_eq]
    rfl
  obtain ⟨hordered, hperm⟩ := h.rotate harray htimers hsame
  refine ⟨?_, hothers, hordered, Or.inr ⟨hmore, hperm, firedAgain_self⟩⟩
  rw [firedAgain, countDown_eq]
  rfl

theorem TopFires.mem {u : ℕ} (h : TopFires loop t rest loop') (hu : u ∈ loop'.timers.array) :
    (u ∈ rest ∧ loop'.timer u = loop.timer u) ∨
      (u = t ∧ (loop.timer t).repeats ≠ 1 ∧
        loop'.timer t = { loop.timer t with
        repeats := counted (loop.timer t).repeats, next_timeout := loop.again t }) := by
  rcases h.fate with ⟨-, hperm⟩ | ⟨hmore, hperm, hself⟩
  · have hu' := hperm.mem_iff.mp hu
    exact Or.inl ⟨hu', h.others u hu'⟩
  · rcases List.mem_cons.mp (hperm.mem_iff.mp hu) with rfl | hu'
    · exact Or.inr ⟨rfl, hmore, hself⟩
    · exact Or.inl ⟨hu', h.others u hu'⟩

theorem TopFires.perm_last (h : TopFires loop t rest loop') (hlast : (loop.timer t).repeats = 1) :
    loop'.timers.array.Perm rest := by
  rcases h.fate with ⟨-, hperm⟩ | ⟨hmore, -⟩
  · exact hperm
  · exact absurd hlast hmore

theorem TopFires.perm_again (h : TopFires loop t rest loop') (hmore : (loop.timer t).repeats ≠ 1) :
    loop'.timers.array.Perm (t :: rest) := by
  rcases h.fate with ⟨hlast, -⟩ | ⟨-, hperm, -⟩
  · exact absurd hlast hmore
  · exact hperm

theorem TopFires.mem_rest {u : ℕ} (h : TopFires loop t rest loop') (hu : u ∈ rest) :
    u ∈ loop'.timers.array := by
  rcases h.fate with ⟨-, hperm⟩ | ⟨-, hperm, -⟩
  · exact hperm.mem_iff.mpr hu
  · exact hperm.mem_iff.mpr (List.mem_cons_of_mem t hu)

end Turn

/-! ## What a turn keeps -/

/-- The timers of the heap are ordered, and they count. -/
structure Loop.Ready (loop : Loop) : Prop where
  ordered : TimersOrdered loop
  counting : ∀ t ∈ loop.timers.array, (loop.timer t).Counting

/-- The turns that a timer takes before it stays, or is gone. -/
def Loop.rounds (loop : Loop) (t : ℕ) : ℕ :=
  if loop.cur_ms < (loop.timer t).next_timeout then 0
  else if loop.cur_ms < loop.again t then 1
  else (loop.timer t).repeats

def Loop.turnsLeft (loop : Loop) : ℕ :=
  (loop.timers.array.map loop.rounds).sum

section Kept

variable {loop loop' : Loop} {t : ℕ} {rest : List ℕ}

theorem counted_eq_max (hcount : (loop.timer t).Counting) :
    counted (loop.timer t).repeats = uint32Max ↔ (loop.timer t).repeats = uint32Max := by
  have hpos := hcount.pos
  have hle := hcount.le
  rw [counted, u32]
  split_ifs with hmax
  · rw [uint32Max] at hle hmax ⊢
    omega
  · rfl

theorem counted_of_ne {repeats : ℕ} (hle : repeats ≤ uint32Max) (hpos : 0 < repeats)
    (hmax : repeats ≠ uint32Max) : counted repeats = repeats - 1 := by
  rw [uint32Max] at hle
  rw [counted, if_pos hmax, u32]
  omega

theorem TopFires.ready (h : TopFires loop t rest loop') (hready : loop.Ready)
    (harray : loop.timers.array = t :: rest) : loop'.Ready := by
  refine ⟨h.ordered, fun u hu => ?_⟩
  rcases h.mem hu with ⟨hu', htimer⟩ | ⟨rfl, hmore, hself⟩
  · rw [htimer]
    exact hready.counting u (by simp [harray, hu'])
  · have hcount := hready.counting u (by simp [harray])
    rw [hself]
    refine ⟨Nat.pos_of_ne_zero fun hzero => hmore ((counted_eq_zero hcount.le).mp hzero), ?_⟩
    by_cases hmax : (loop.timer u).repeats = uint32Max
    · exact ((counted_eq_max hcount).mpr hmax).le
    · exact (counted_of_ne hcount.le hcount.pos hmax).trans_le ((Nat.sub_le _ _).trans hcount.le)

/-- Nothing changes for the other timers. -/
theorem TopFires.same {u : ℕ} (h : TopFires loop t rest loop') (hu : u ∈ rest) :
    (loop'.Stays u ↔ loop.Stays u) ∧ (loop'.Spins u ↔ loop.Spins u) ∧
      loop'.rounds u = loop.rounds u := by
  have hagain : loop'.again u = loop.again u := by
    rw [Loop.again, Loop.again, h.clock, h.others u hu]
  simp only [Loop.Stays, Loop.Spins, Loop.rounds, hagain, h.clock, h.others u hu, and_self]

theorem TopFires.self (h : TopFires loop t rest loop') (hcount : (loop.timer t).Counting)
    (hself : loop'.timer t = { loop.timer t with
        repeats := counted (loop.timer t).repeats, next_timeout := loop.again t }) :
    (loop'.Stays t ↔ loop.cur_ms < loop.again t) ∧
      (loop'.Spins t ↔ (loop.timer t).repeats = uint32Max ∧ loop.again t ≤ loop.cur_ms) ∧
      loop'.rounds t =
        if loop.cur_ms < loop.again t then 0 else counted (loop.timer t).repeats := by
  have hagain : loop'.again t = loop.again t := by
    rw [Loop.again, h.clock, hself, Loop.again]
  simp only [Loop.Stays, Loop.Spins, Loop.rounds, hagain, h.clock, hself,
    counted_eq_max hcount]
  refine ⟨?_, ?_, ?_⟩
  · exact ⟨fun h => h.elim id And.right, Or.inl⟩
  · exact ⟨fun h => h.2, fun h => ⟨h.2, h⟩⟩
  · split_ifs <;> rfl

theorem TopFires.stays (h : TopFires loop t rest loop') (hready : loop.Ready)
    (harray : loop.timers.array = t :: rest) (hdue : (loop.timer t).next_timeout ≤ loop.cur_ms) :
    (∃ u ∈ loop'.timers.array, loop'.Stays u) ↔ ∃ u ∈ loop.timers.array, loop.Stays u := by
  have hcount := hready.counting t (by simp [harray])
  constructor
  · rintro ⟨u, hu, hstays⟩
    rcases h.mem hu with ⟨hu', -⟩ | ⟨rfl, hmore, hself⟩
    · exact ⟨u, by simp [harray, hu'], (h.same hu').1.mp hstays⟩
    · exact ⟨u, by simp [harray], Or.inr ⟨hmore, (h.self hcount hself).1.mp hstays⟩⟩
  · rintro ⟨u, hu, hstays⟩
    rw [harray] at hu
    rcases List.mem_cons.mp hu with rfl | hu'
    · obtain ⟨hmore, hagain⟩ := hstays.resolve_left hdue.not_gt
      rcases h.fate with ⟨hlast, -⟩ | ⟨-, hperm, hself⟩
      · exact absurd hlast hmore
      · exact ⟨u, hperm.mem_iff.mpr (by simp), (h.self hcount hself).1.mpr hagain⟩
    · exact ⟨u, h.mem_rest hu', (h.same hu').1.mpr hstays⟩

theorem TopFires.spins (h : TopFires loop t rest loop') (hready : loop.Ready)
    (harray : loop.timers.array = t :: rest) (hdue : (loop.timer t).next_timeout ≤ loop.cur_ms) :
    (∃ u ∈ loop'.timers.array, loop'.Spins u) ↔ ∃ u ∈ loop.timers.array, loop.Spins u := by
  have hcount := hready.counting t (by simp [harray])
  constructor
  · rintro ⟨u, hu, hspins⟩
    rcases h.mem hu with ⟨hu', -⟩ | ⟨rfl, -, hself⟩
    · exact ⟨u, by simp [harray, hu'], (h.same hu').2.1.mp hspins⟩
    · exact ⟨u, by simp [harray], hdue, (h.self hcount hself).2.1.mp hspins⟩
  · rintro ⟨u, hu, hspins⟩
    rw [harray] at hu
    rcases List.mem_cons.mp hu with rfl | hu'
    · rcases h.fate with ⟨hlast, -⟩ | ⟨-, hperm, hself⟩
      · exact absurd (hlast.symm.trans hspins.2.1) (by decide)
      · exact ⟨u, hperm.mem_iff.mpr (by simp), (h.self hcount hself).2.1.mpr hspins.2⟩
    · exact ⟨u, h.mem_rest hu', (h.same hu').2.1.mpr hspins⟩

theorem TopFires.turnsLeft_lt (h : TopFires loop t rest loop') (hready : loop.Ready)
    (harray : loop.timers.array = t :: rest) (hdue : (loop.timer t).next_timeout ≤ loop.cur_ms)
    (hspins : ¬ loop.Spins t) : loop'.turnsLeft < loop.turnsLeft := by
  have hcount := hready.counting t (by simp [harray])
  have hrest : rest.map loop'.rounds = rest.map loop.rounds :=
    List.map_congr_left fun u hu => (h.same hu).2.2
  have hrounds : 0 < loop.rounds t := by
    have hpos := hcount.pos
    rw [Loop.rounds, if_neg hdue.not_gt]
    split_ifs
    · exact Nat.one_pos
    · exact hpos
  rw [Loop.turnsLeft, Loop.turnsLeft, harray, List.map_cons, List.sum_cons]
  rcases h.fate with ⟨-, hperm⟩ | ⟨hmore, hperm, hself⟩
  · rw [(hperm.map loop'.rounds).sum_nat, hrest]
    exact Nat.lt_add_of_pos_left hrounds
  · rw [(hperm.map loop'.rounds).sum_nat, List.map_cons, List.sum_cons, hrest]
    apply Nat.add_lt_add_right
    rw [(h.self hcount hself).2.2]
    split_ifs with hagain
    · exact hrounds
    · have hcounted : (loop.timer t).repeats ≠ uint32Max :=
        fun hmax => hspins ⟨hdue, hmax, Nat.not_lt.mp hagain⟩
      rw [Loop.rounds, if_neg hdue.not_gt, if_neg hagain,
        counted_of_ne hcount.le hcount.pos hcounted]
      exact Nat.sub_lt hcount.pos Nat.one_pos

end Kept

/-! ## The loop -/

section Process

variable {callback : TimerSystem → ℕ → List TimerAction} {s : TimerSystem} {t : ℕ} {rest : List ℕ}

/-- One turn, and the callback behind it, which is over at once. -/
theorem processTimer_turn (hquiet : LeavesTimers callback) (hready : s.loop.Ready)
    (harray : s.loop.timers.array = t :: rest)
    (hdue : (s.loop.timer t).next_timeout ≤ s.loop.cur_ms) :
    ∃ s', (∀ fuel, processTimer callback (fuel + 1) s = processTimer callback fuel s') ∧
      TopFires s.loop t rest s'.loop := by
  have hcount := hready.counting t (by simp [harray])
  have hturn := processTimerTurn_due hcount.le harray hdue
  by_cases hlast : (s.loop.timer t).repeats = 1
  · rw [if_pos hlast] at hturn
    have hspec := firedLast_spec hready.ordered harray hlast
    refine ⟨{ s with loop := firedLast s.loop t, armed := s.armed.erase t }, fun fuel => ?_, hspec⟩
    rw [processTimer, hturn]
  · rw [if_neg hlast] at hturn
    have hspec := firedAgain_spec hready.ordered harray hlast
    have hcallback : ∃ io, runCallback callback { s with loop := firedAgain s.loop t } t =
        some { s with loop := firedAgain s.loop t, io := io } := by
      rw [runCallback]
      split_ifs
      · exact ⟨s.io, rfl⟩
      · exact hquiet _ t
    obtain ⟨io, hio⟩ := hcallback
    refine ⟨{ s with loop := firedAgain s.loop t, io := io }, fun fuel => ?_, hspec⟩
    rw [processTimer, hturn]
    simp only [hio, Option.bind_some]

theorem processTimer_stop (fuel : ℕ) (harray : s.loop.timers.array = t :: rest)
    (hdue : s.loop.cur_ms < (s.loop.timer t).next_timeout) :
    processTimer callback (fuel + 1) s = some s := by
  have htop : heapTop s.loop.timers = some t := heapTop_eq_some_iff.mpr ⟨rest, harray⟩
  have hturn : processTimerTurn s.loop = .stop := by
    simp only [processTimerTurn, htop]
    exact if_pos hdue
  rw [processTimer, hturn]

theorem processTimer_fault (fuel : ℕ) (harray : s.loop.timers.array = []) :
    processTimer callback fuel s = none := by
  cases fuel with
  | zero => rfl
  | succ fuel => simp [processTimer, processTimerTurn, heapTop, harray]

theorem TimersOrdered.not_due {loop : Loop} (h : TimersOrdered loop)
    (harray : loop.timers.array = t :: rest) (hdue : loop.cur_ms < (loop.timer t).next_timeout) :
    ∀ u ∈ loop.timers.array, loop.cur_ms < (loop.timer u).next_timeout := by
  intro u hu
  exact hdue.trans_le (h.top_le harray u hu)

theorem processTimer_ends (hquiet : LeavesTimers callback) (hready : s.loop.Ready)
    (hstays : ∃ t ∈ s.loop.timers.array, s.loop.Stays t)
    (hspins : ¬ ∃ t ∈ s.loop.timers.array, s.loop.Spins t) : ExpiresAll callback s := by
  induction hleft : s.loop.turnsLeft using Nat.strong_induction_on generalizing s with
  | _ n ih =>
      obtain ⟨u, hu, -⟩ := id hstays
      obtain ⟨t, rest, harray⟩ := List.exists_cons_of_ne_nil (List.ne_nil_of_mem hu)
      by_cases hdue : s.loop.cur_ms < (s.loop.timer t).next_timeout
      · exact ⟨1, s, processTimer_stop 0 harray hdue, hready.ordered.not_due harray hdue⟩
      · have hdue' := Nat.not_lt.mp hdue
        obtain ⟨s', hturn, hfires⟩ := processTimer_turn hquiet hready harray hdue'
        have hlt : s'.loop.turnsLeft < n := hleft ▸
          hfires.turnsLeft_lt hready harray hdue' fun h => hspins ⟨t, by simp [harray], h⟩
        have hstays' := (hfires.stays hready harray hdue').mpr hstays
        have hspins' := fun h => hspins ((hfires.spins hready harray hdue').mp h)
        obtain ⟨fuel, s'', hends, hlater⟩ :=
          ih _ hlt (hfires.ready hready harray) hstays' hspins' rfl
        exact ⟨fuel + 1, s'', (hturn fuel).trans hends, hlater⟩

theorem of_processTimer_ends (hquiet : LeavesTimers callback) {fuel : ℕ} {s' : TimerSystem}
    (hready : s.loop.Ready) (h : processTimer callback fuel s = some s') :
    (∃ t ∈ s.loop.timers.array, s.loop.Stays t) ∧
      ¬ ∃ t ∈ s.loop.timers.array, s.loop.Spins t := by
  induction fuel generalizing s with
  | zero => simp [processTimer] at h
  | succ fuel ih =>
      cases harray : s.loop.timers.array with
      | nil => simp [processTimer_fault (fuel + 1) harray] at h
      | cons t rest =>
          rw [← harray]
          by_cases hdue : s.loop.cur_ms < (s.loop.timer t).next_timeout
          · refine ⟨⟨t, by simp [harray], Or.inl hdue⟩, ?_⟩
            rintro ⟨u, hu, hspins⟩
            exact hspins.1.not_gt (hready.ordered.not_due harray hdue u hu)
          · have hdue' := Nat.not_lt.mp hdue
            obtain ⟨t', hturn, hfires⟩ := processTimer_turn hquiet hready harray hdue'
            rw [hturn] at h
            obtain ⟨hstays, hspins⟩ := ih (hfires.ready hready harray) h
            exact ⟨(hfires.stays hready harray hdue').mp hstays,
              fun h => hspins ((hfires.spins hready harray hdue').mpr h)⟩

/-- `process_timer` is safe, ends and expires all that is due exactly when some timer stays
in the heap and none spins. -/
theorem expiresAll_iff (hquiet : LeavesTimers callback) (hready : s.loop.Ready) :
    ExpiresAll callback s ↔
      (∃ t ∈ s.loop.timers.array, s.loop.Stays t) ∧
        ∀ t ∈ s.loop.timers.array, ¬ s.loop.Spins t := by
  constructor
  · rintro ⟨fuel, s', h, -⟩
    obtain ⟨hstays, hspins⟩ := of_processTimer_ends hquiet hready h
    exact ⟨hstays, fun t ht h => hspins ⟨t, ht, h⟩⟩
  · rintro ⟨hstays, hspins⟩
    exact processTimer_ends hquiet hready hstays fun ⟨t, ht, h⟩ => hspins t ht h

theorem addTimer_counting {loop loop' : Loop} {timeout : ℤ} {cb : Option TimerCb}
    {repeats now : ℕ} {mem : Option ℕ} (hrepeats : repeats ≤ uint32Max)
    (h : addTimer loop timeout cb repeats now mem = (some t, loop')) :
    (loop'.timer t).Counting := by
  obtain ⟨htimeout, rfl⟩ := addTimer_some h
  unfold addTimer at h
  rw [if_neg htimeout] at h
  obtain ⟨-, rfl⟩ := Prod.mk.inj h
  simp only [Loop.insertTimer, Loop.setTimer, Function.update_self]
  by_cases hzero : repeats = 0
  · rw [if_pos hzero]
    exact ⟨Nat.one_pos, show 1 ≤ uint32Max by decide⟩
  · rw [if_neg hzero]
    exact ⟨Nat.pos_of_ne_zero hzero, hrepeats⟩

/-- A new loop, as `event_loop_init` leaves it. -/
def newLoop : TimerSystem :=
  .start 0 0 (fun _ => { Timer.zero with allocated := false }) (fun _ => none)
    fun _ => getIo 0 fun _ => 0

/-- A timer for one second that fires once, and one for an hour, a second later. -/
def secondAndHour : TimerSystem :=
  (exec TimerSystem.step newLoop
    [.addTimer 1000 (some (.user 0)) 0 0 (some 0), .addTimer 3600000 (some (.user 0)) 0 0 (some 1),
      .tick 1000]).get (by decide +kernel)

theorem leavesTimers_nil : LeavesTimers fun _ _ => [] :=
  fun s _ => ⟨s.io, rfl⟩

/-- The heap of these timers, whatever they are. -/
theorem timersOrdered_pair {loop : Loop} (harray : loop.timers.array = [0, 1])
    (hcapacity : loop.timers.capacity = 1000)
    (hle : (loop.timer 0).next_timeout ≤ (loop.timer 1).next_timeout) : TimersOrdered loop := by
  refine ⟨by simp [harray], by simp [Heap.size, harray, hcapacity], ?_⟩
  intro i hpos hi
  have hlt : i < 2 := by simpa [harray] using hi
  obtain rfl : i = 1 := by omega
  simpa [entryBefore, harray, Heap.below, TreeOrder.parent, timersCompare] using hle

/-- The hour is still to come when the second is over. -/
theorem expiresAll_secondAndHour : ExpiresAll (fun _ _ => []) secondAndHour := by
  have hready : secondAndHour.loop.Ready := by
    refine ⟨timersOrdered_pair (by decide +kernel) (by decide +kernel) (by decide +kernel), ?_⟩
    have hcounting : ∀ t ∈ secondAndHour.loop.timers.array,
        0 < (secondAndHour.loop.timer t).repeats ∧
          (secondAndHour.loop.timer t).repeats ≤ uint32Max := by decide +kernel
    exact fun t ht => ⟨(hcounting t ht).1, (hcounting t ht).2⟩
  refine (expiresAll_iff leavesTimers_nil hready).mpr ⟨⟨1, ?_⟩, ?_⟩
  · exact ⟨by decide +kernel, Or.inl (by decide +kernel)⟩
  · have hcounted : ∀ t ∈ secondAndHour.loop.timers.array,
        (secondAndHour.loop.timer t).repeats ≠ uint32Max := by decide +kernel
    exact fun t ht hspins => hcounted t ht hspins.2.1

/-- The timer of one second, alone in the heap. -/
def second : TimerSystem :=
  (exec TimerSystem.step newLoop
    [.addTimer 1000 (some (.user 0)) 0 0 (some 0), .tick 1000]).get (by decide +kernel)

/-- A timer that fires forever, with a timeout of `-1`, and one for an hour. -/
def minusOne : TimerSystem :=
  (exec TimerSystem.step newLoop
    [.addTimer (-1) (some (.user 0)) uint32Max 1000 (some 0),
      .addTimer 3600000 (some (.user 0)) 0 1000 (some 1)]).get (by decide +kernel)

/-- Where the only timer fires for the last time, `array[0]` is read in an empty heap; where a
deadline wraps, the loop does not end. -/
theorem not_expiresAll :
    (second.loop.Ready ∧ ¬ ExpiresAll (fun _ _ => []) second) ∧
      minusOne.loop.Ready ∧ ¬ ExpiresAll (fun _ _ => []) minusOne := by
  have hsecond : second.loop.Ready := by
    refine ⟨⟨by decide +kernel, by decide +kernel, ?_⟩, ?_⟩
    · intro i hpos hi
      have hlt : i < 1 := hi
      omega
    · have hcounting : ∀ t ∈ second.loop.timers.array, 0 < (second.loop.timer t).repeats ∧
          (second.loop.timer t).repeats ≤ uint32Max := by decide +kernel
      exact fun t ht => ⟨(hcounting t ht).1, (hcounting t ht).2⟩
  have hminus : minusOne.loop.Ready := by
    refine ⟨timersOrdered_pair (by decide +kernel) (by decide +kernel) (by decide +kernel), ?_⟩
    have hcounting : ∀ t ∈ minusOne.loop.timers.array, 0 < (minusOne.loop.timer t).repeats ∧
        (minusOne.loop.timer t).repeats ≤ uint32Max := by decide +kernel
    exact fun t ht => ⟨(hcounting t ht).1, (hcounting t ht).2⟩
  refine ⟨⟨hsecond, ?_⟩, hminus, ?_⟩
  · rintro ⟨fuel, s', h, -⟩
    obtain ⟨t, ht, hstays⟩ := (of_processTimer_ends leavesTimers_nil hsecond h).1
    have hgoes : ∀ t ∈ second.loop.timers.array,
        (second.loop.timer t).next_timeout ≤ second.loop.cur_ms ∧
          (second.loop.timer t).repeats = 1 := by decide +kernel
    rcases hstays with hlater | ⟨hmore, -⟩
    · exact (hgoes t ht).1.not_gt hlater
    · exact hmore (hgoes t ht).2
  · rintro ⟨fuel, s', h, -⟩
    refine (of_processTimer_ends leavesTimers_nil hminus h).2 ⟨0, by decide +kernel, ?_⟩
    exact ⟨by decide +kernel, by decide +kernel, by decide +kernel⟩

end Process

end LibConn
