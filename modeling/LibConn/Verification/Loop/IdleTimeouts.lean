import LibConn.Verification.Loop.Stamps

/-! # Idle timeouts close idle ios

The runs in which `__read_timeout_cb` and `__writer_timeout_cb` close only ios on which no byte
has been read or written for the time that was set. The invariant is that no byte is younger than
the time at which its io was last stamped, and no timeout shorter than the one that was set. -/

namespace LibConn

open LibConn.Run

namespace LoopThread

variable {s t : LoopThread} {i : ℕ} {w : World}

/-! ## Bytes are stamped -/

theorem ioReadCb_stamps (h : s.ioReadCb i w = some t) (hgot : w.read = .got) :
    (t.io i).last_read_time = s.loop.cur_ms := by
  simp only [ioReadCb, hgot] at h
  obtain rfl := Option.some.inj h
  split_ifs <;> simp [setIo, LoopThread.call, push]

theorem readPart_stamps (h : s.readPart i w = some t) (hreading : s.reading i = true)
    (hgot : w.read = .got) : (t.io i).last_read_time = s.loop.cur_ms := by
  simp only [reading, Bool.and_eq_true, decide_eq_true_eq, Bool.not_eq_true'] at hreading
  rw [readPart, if_pos hreading.1, if_neg (by simp [hreading.2])] at h
  exact ioReadCb_stamps h hgot

theorem ioWriteCb_stamps (h : s.ioWriteCb i w = some t)
    (htakes : w.write.takes (LibConn.ioWriteCb (s.conn i) w.write w.now).effects = true) :
    (t.io i).last_write_time = w.now := by
  have hstamp := (ioWriteCb_ages (fun _ _ => False) (s.conn i) w.write w.now).2 htakes
  have hlast : (t.conn i).io.last_write_time = w.now := ran_conn h ▸ hstamp
  exact hlast

theorem writePart_stamps (h : s.writePart i w = some t)
    (hready : (s.io i).events &&& eventWrite ≠ 0 ∧ (s.io i).revents &&& eventWrite ≠ 0)
    (hconnect : (s.io i).connect = false)
    (htakes : w.write.takes (LibConn.ioWriteCb (s.conn i) w.write w.now).effects = true) :
    (t.io i).last_write_time = w.now := by
  rw [writePart, if_pos hready, if_neg (by simp [hconnect])] at h
  exact ioWriteCb_stamps h htakes

theorem runIo_stamps (h : s.runIo i w = some t) (hflushing : s.flushing i = true)
    (htakes : w.write.takes (LibConn.ioWriteCb (s.conn i) w.write w.now).effects = true) :
    (t.io i).last_write_time = w.now := by
  rw [runIo] at h
  cases hcb : (s.io i).cb with
  | none => simp [flushing, hcb] at hflushing
  | some cb =>
      cases cb with
      | handleEvent =>
          simp only [flushing, hcb, Bool.and_eq_true, decide_eq_true_eq, Bool.not_eq_true']
            at hflushing
          simp only [hcb] at h
          exact writePart_stamps h hflushing.1 hflushing.2 htakes
      | ioWriteCb =>
          simp only [hcb] at h
          exact ioWriteCb_stamps h htakes
      | sslServerHandshake => simp [flushing, hcb] at hflushing

/-- How the io is stamped by a step that reads or writes bytes on it. -/
inductive Stamped (s t : LoopThread) (i : ℕ) : LoopAction → Direction → Prop where
  | read (w : World) (h : (t.io i).last_read_time = s.loop.cur_ms) : Stamped s t i (.resume w) .read
  | flush (w : World) (h : (t.io i).last_write_time = w.now) : Stamped s t i (.visit w) .write
  | write (payload : Payload) (r : WriteResult) (now : ℕ)
      (h : (s.io i).type ≠ .ssl → r.ret < 2 ^ 31 →
        (t.io i).closed = true ∨ (t.io i).last_write_time = now) :
      Stamped s t i (.ioWrite i payload r now) .write

theorem transfers_stamped {a : LoopAction} {d : Direction} (hstep : s.step a = some t)
    (h : s.transfers a = some (i, d)) : Stamped s t i a d := by
  cases a with
  | resume w =>
      simp only [transfers] at h
      cases hstack : s.stack with
      | nil => simp [hstack] at h
      | cons frame rest =>
          cases frame <;> simp only [hstack] at h
          case readPart j =>
            rw [Option.ite_none_right_eq_some] at h
            obtain ⟨hcond, heq⟩ := h
            obtain ⟨rfl, rfl⟩ : j = i ∧ .read = d := by simpa using heq
            simp only [Bool.and_eq_true, decide_eq_true_eq] at hcond
            simp only [step, resume, hstack] at hstep
            exact .read w (readPart_stamps (s := { s with stack := rest }) hstep hcond.1 hcond.2)
          all_goals cases h
  | visit w =>
      simp only [transfers] at h
      simp only [step, Option.ite_none_right_eq_some] at hstep
      have hvisit := hstep.2
      rw [visit] at hvisit
      cases hwaiting : s.waiting with
      | nil => simp [hwaiting] at h
      | cons e rest =>
          cases e with
          | timer x => simp [hwaiting] at h
          | io j =>
              simp only [hwaiting, Option.ite_none_right_eq_some] at h hvisit
              obtain ⟨hcond, heq⟩ := h
              obtain ⟨rfl, rfl⟩ : j = i ∧ .write = d := by simpa using heq
              simp only [Bool.and_eq_true] at hcond
              have hcb : (s.io j).cb ≠ none := by
                intro hnone
                simp [flushing, hnone] at hcond
              rw [if_neg hcb] at hvisit
              exact .flush w (runIo_stamps hvisit hcond.1 hcond.2)
  | ioWrite j payload r now =>
      simp only [transfers, Option.ite_none_right_eq_some] at h
      obtain ⟨htakes, heq⟩ := h
      obtain ⟨rfl, rfl⟩ : j = i ∧ .write = d := by simpa using heq
      simp only [step, userCall, Option.ite_none_right_eq_some] at hstep
      have hstamp := (ioWrite_ages (fun _ _ => False) (s.conn j) payload.bytes r now).2 htakes
      refine .write payload r now fun htype hret => ?_
      have hlast : (t.conn j).io.closed = true ∨ (t.conn j).io.last_write_time = now :=
        ran_conn hstep.2.2 ▸ hstamp htype hret
      exact hlast
  | _ => cases h

/-! ## What a timeout callback compares -/

theorem inactive_closes {kind : Timeout} {last x : ℕ} (h : s.inactive i kind last x = some t)
    (hopen : (s.io i).closed = false) (hclosed : (t.io i).closed = true) :
    u64 ((s.io i).timeout kind) ≤ u64 ((s.loop.cur_ms : ℤ) - last) := by
  simp only [inactive] at h
  split_ifs at h with hactive
  · obtain ⟨loop, -, rfl⟩ := Option.map_eq_some_iff.mp h
    exact absurd (hopen.symm.trans hclosed) (by decide)
  · exact Nat.le_of_not_gt hactive

theorem runTimer_closes {d : Direction} {x : ℕ} (h : s.runTimer x = some t)
    (hcb : (s.loop.timer x).cb = some d.timeout.timerCb)
    (hprivdata : (s.loop.timer x).privdata = some i) (hopen : (s.io i).closed = false)
    (hclosed : (t.io i).closed = true) :
    u64 ((s.io i).timeout d.timeout) ≤ u64 ((s.loop.cur_ms : ℤ) - (s.io i).last d) := by
  rw [runTimer, hcb, hprivdata] at h
  cases d with
  | read => exact inactive_closes (s := s.call i (.timeout .read)) h hopen hclosed
  | write => exact inactive_closes (s := s.call i (.timeout .write)) h hopen hclosed

theorem firingTimeout_eq_some {a : LoopAction} {d : Direction}
    (h : s.firingTimeout a = some (i, d)) : ∃ x, s.firing a = some x ∧
      (s.loop.timer x).cb = some d.timeout.timerCb ∧ (s.loop.timer x).privdata = some i := by
  rw [firingTimeout, Option.bind_eq_some_iff] at h
  obtain ⟨x, hfiring, h⟩ := h
  refine ⟨x, hfiring, ?_⟩
  split at h
  · next hcb hprivdata =>
      obtain ⟨rfl, rfl⟩ : _ = i ∧ .read = d := by simpa using h
      exact ⟨hcb, hprivdata⟩
  · next hcb hprivdata =>
      obtain ⟨rfl, rfl⟩ : _ = i ∧ .write = d := by simpa using h
      exact ⟨hcb, hprivdata⟩
  · cases h

/-- A timeout callback closes an io only if the idle time that it sees is not below the timeout
that is stored. -/
theorem step_closes {a : LoopAction} {d : Direction} (hstep : s.step a = some t)
    (h : s.firingTimeout a = some (i, d)) (hopen : (s.io i).closed = false)
    (hclosed : (t.io i).closed = true) :
    u64 ((s.io i).timeout d.timeout) ≤ u64 ((s.loop.cur_ms : ℤ) - (s.io i).last d) := by
  obtain ⟨x, hfiring, hcb, hprivdata⟩ := firingTimeout_eq_some h
  cases a with
  | visit w =>
      simp only [step, Option.ite_none_right_eq_some] at hstep
      have hvisit := hstep.2
      simp only [firing] at hfiring
      rw [visit] at hvisit
      cases hwaiting : s.waiting with
      | nil => simp [hwaiting] at hfiring
      | cons e rest =>
          cases e with
          | io j => simp [hwaiting] at hfiring
          | timer y =>
              simp only [hwaiting, Option.some.injEq, Option.ite_none_left_eq_some]
                at hfiring hvisit
              subst hfiring
              obtain ⟨-, hrun⟩ := hvisit
              rw [if_neg (by simp [hcb])] at hrun
              let entered := { s with waiting := rest }.push [.done (.timer y)]
              exact runTimer_closes (s := entered) hrun hcb hprivdata hopen hclosed
  | expire =>
      simp only [step, Option.ite_none_right_eq_some] at hstep
      have hexpire := hstep.2
      simp only [firing] at hfiring
      rw [expire] at hexpire
      cases hturn : processTimerTurn s.loop with
      | fault => simp [hturn] at hfiring
      | stop => simp [hturn] at hfiring
      | last y loop => simp [hturn] at hfiring
      | again y loop =>
          simp only [hturn, Option.some.injEq, Option.ite_none_right_eq_some] at hfiring hexpire
          subst hfiring
          obtain ⟨timer, howner, -, -, -, hmemory⟩ := (processTimerTurn_again hturn).memory
          have hcb' : (loop.timer y).cb = some d.timeout.timerCb := by
            rw [hmemory, Function.update_self, howner.cb, hcb]
          have hprivdata' : (loop.timer y).privdata = some i := by
            rw [hmemory, Function.update_self, howner.privdata, hprivdata]
          have hle := runTimer_closes hexpire.2 hcb' hprivdata' hopen hclosed
          rwa [processTimerTurn_cur_ms (.inr hturn)] at hle
  | _ => cases hfiring

end LoopThread

namespace IdleWatch

/-- An `io_write` that gets bytes through does so with `write`, and less than 2 GiB. -/
def writesPlain (s : LoopThread) : LoopAction → Bool
  | .ioWrite i payload r now => (s.transfers (.ioWrite i payload r now)).isNone ||
      ((s.io i).type ≠ .ssl && r.ret < 2 ^ 31)
  | _ => true

/-- A timeout whose timer is there is not set to more than it is. -/
def setsShorter (s : LoopThread) : LoopAction → Bool
  | .setTimeout kind i timeout _ _ => (kind ≠ .read && kind ≠ .write) ||
      ((s.io i).timer kind).isNone || timeout ≤ (s.io i).timeout kind
  | _ => true

/-- The step does not come to a place at which the code loses track of the idle time. The clock
does not go back, and bytes are read in the millisecond of `cur_ms`. Where a timeout callback finds
its io open, the io has a timer for it and has not been stamped later than `cur_ms`. -/
structure Punctual (s : IdleWatch) (m : Timed) : Prop where
  clock : s.clock ≤ m.now
  reads : ∀ p ∈ s.thread.transfers m.action, p.2 = .read → m.now ≤ s.thread.loop.cur_ms
  writes : writesPlain s.thread m.action
  sets : setsShorter s.thread m.action
  fires : ∀ p ∈ s.thread.firingTimeout m.action, (s.thread.io p.1).closed = false →
    (s.thread.io p.1).timer p.2.timeout ≠ none ∧ (s.thread.io p.1).last p.2 ≤ s.thread.loop.cur_ms

instance decidablePunctual (s : IdleWatch) (m : Timed) : Decidable (s.Punctual m) :=
  decidable_of_iff
    (s.clock ≤ m.now ∧
      (∀ p ∈ s.thread.transfers m.action, p.2 = .read → m.now ≤ s.thread.loop.cur_ms) ∧
      writesPlain s.thread m.action ∧ setsShorter s.thread m.action ∧
      ∀ p ∈ s.thread.firingTimeout m.action, (s.thread.io p.1).closed = false →
        (s.thread.io p.1).timer p.2.timeout ≠ none ∧
          (s.thread.io p.1).last p.2 ≤ s.thread.loop.cur_ms)
    ⟨fun ⟨h₁, h₂, h₃, h₄, h₅⟩ => ⟨h₁, h₂, h₃, h₄, h₅⟩,
      fun h => ⟨h.clock, h.reads, h.writes, h.sets, h.fires⟩⟩

/-- Whatever a timeout callback closes has been idle. -/
def Idles (s : IdleWatch) : Prop :=
  ∀ c ∈ s.closes, c.Idle

/-- The invariant. -/
structure Paced (s : IdleWatch) : Prop where
  cur_ms : s.thread.loop.cur_ms ≤ s.clock
  past : ∀ i d, ∀ time ∈ s.moved i d, time ≤ s.clock
  read : ∀ i, ∀ time ∈ s.moved i .read, time ≤ s.thread.loop.cur_ms
  stamped : ∀ i d, (s.thread.io i).closed = true ∨
    ∀ time ∈ s.moved i d, time ≤ (s.thread.io i).last d
  stored : ∀ i ∈ s.thread.ios, ∀ d : Direction, (s.thread.io i).timer d.timeout = none ∨
    (s.thread.io i).timeout d.timeout < 2 ^ 31
  timeouts : ∀ i d, s.timeout i d ≤ 0 ∨ i ∈ s.thread.ios ∧
    ((s.thread.io i).timer d.timeout = none ∨
      s.timeout i d ≤ (s.thread.io i).timeout d.timeout)
  idles : s.Idles

variable {s t : IdleWatch} {m : Timed}

theorem mem_movedAfter {i time : ℕ} {d : Direction} (h : time ∈ s.movedAfter m i d) :
    time ∈ s.moved i d ∨ time = m.now ∧ s.thread.transfers m.action = some (i, d) := by
  rw [movedAfter] at h
  split_ifs at h with htransfers
  · rcases List.mem_cons.mp h with rfl | hmem
    · exact .inr ⟨rfl, htransfers⟩
    · exact .inl hmem
  · exact .inl h

/-- A byte is stamped at once, unless its io is closed. -/
theorem Punctual.stamped {i : ℕ} {d : Direction} {thread : LoopThread} (hguard : s.Punctual m)
    (hproper : m.proper = true) (hstep : s.thread.step m.action = some thread)
    (h : s.thread.transfers m.action = some (i, d)) :
    (thread.io i).closed = true ∨ m.now ≤ (thread.io i).last d := by
  obtain ⟨now, a⟩ := m
  cases LoopThread.transfers_stamped hstep h with
  | read w hlast => exact .inr ((hguard.reads _ h rfl).trans_eq hlast.symm)
  | flush w hlast =>
      obtain rfl : w.now = now := by simpa [Timed.proper] using hproper
      exact .inr hlast.ge
  | write payload r time hlast =>
      obtain rfl : time = now := by simpa [Timed.proper] using hproper
      have hplain : (s.thread.io i).type ≠ .ssl ∧ r.ret < 2 ^ 31 := by
        simpa [writesPlain, h] using hguard.writes
      obtain ⟨htype, hret⟩ := hplain
      exact (hlast htype hret).imp_right Eq.ge

theorem sets_proper {i : ℕ} {d : Direction} {value : ℤ} {thread : LoopThread}
    (hproper : m.proper = true) (hstep : s.thread.step m.action = some thread)
    (h : m.action.Sets i d value) : value < 2 ^ 31 ∧ i ∈ s.thread.ios := by
  obtain ⟨now, a⟩ := m
  cases a with
  | setTimeout kind j timeout time mem =>
      obtain ⟨rfl, -, rfl⟩ := h
      have hint : time = now ∧ int32 value = value := by simpa [Timed.proper] using hproper
      simp only [LoopThread.step, LoopThread.userCall, Option.ite_none_right_eq_some] at hstep
      exact ⟨hint.2 ▸ (int32_bounds value).2.1, hstep.2.1.1⟩
  | _ => exact h.elim

theorem sets_eq {a : LoopAction} {i : ℕ} {d : Direction} {value : ℤ} (h : a.Sets i d value) :
    (∃ now mem, a = .setTimeout d.timeout i value now mem) ∧ s.timeoutAfter a i d = value := by
  cases a with
  | setTimeout kind j timeout now mem =>
      obtain ⟨rfl, rfl, rfl⟩ := h
      exact ⟨⟨now, mem, rfl⟩, if_pos ⟨rfl, rfl⟩⟩
  | _ => exact h.elim

theorem timeoutAfter_cases (s : IdleWatch) (a : LoopAction) (i : ℕ) (d : Direction) :
    a.Sets i d (s.timeoutAfter a i d) ∨ s.timeoutAfter a i d = s.timeout i d := by
  cases a with
  | setTimeout kind j timeout now mem =>
      simp only [timeoutAfter]
      split_ifs with hcond
      · exact .inl ⟨hcond.1, hcond.2.symm, rfl⟩
      · exact .inr rfl
  | _ => exact .inr rfl

variable {thread : LoopThread} {i : ℕ} {d : Direction}

theorem Paced.stamped_after (h : s.Paced) (hclock : s.clock ≤ m.now)
    (hsame : LoopThread.SameIo m.now m.action.Sets s.thread thread i)
    (hstamped : ∀ time ∈ s.moved i d, time ≤ (s.thread.io i).last d) :
    ∀ time ∈ s.moved i d, time ≤ (thread.io i).last d := by
  intro time htime
  have hold := hstamped time htime
  have hpast := (h.past i d time htime).trans hclock
  cases d with
  | read =>
      rcases hsame.read with heq | heq | heq
      · exact hold.trans_eq heq.symm
      · exact (h.read i time htime).trans_eq heq.symm
      · exact hpast.trans_eq heq.symm
  | write =>
      rcases hsame.ages.stamp with heq | heq
      · exact hold.trans_eq heq.symm
      · exact hpast.trans_eq heq.symm

theorem Paced.timeouts_after (h : s.Paced) (hguard : s.Punctual m) (hproper : m.proper = true)
    (hstep : s.thread.step m.action = some thread)
    (hpasses : LoopThread.Passes m.now m.action.Sets s.thread thread)
    (hsame : LoopThread.SameIo m.now m.action.Sets s.thread thread i) :
    s.timeoutAfter m.action i d ≤ 0 ∨ i ∈ thread.ios ∧ ((thread.io i).timer d.timeout = none ∨
      s.timeoutAfter m.action i d ≤ (thread.io i).timeout d.timeout) := by
  by_cases hneg : s.timeoutAfter m.action i d ≤ 0
  · exact .inl hneg
  have hbefore : i ∈ s.thread.ios ∧ ((s.thread.io i).timer d.timeout = none ∨
      s.timeoutAfter m.action i d ≤ (s.thread.io i).timeout d.timeout) := by
    rcases timeoutAfter_cases s m.action i d with hsets | heq
    · refine ⟨(sets_proper hproper hstep hsets).2, ?_⟩
      by_cases hnone : (s.thread.io i).timer d.timeout = none
      · exact .inl hnone
      · obtain ⟨⟨now, mem, haction⟩, -⟩ := sets_eq (s := s) hsets
        have hshorter := hguard.sets
        rw [haction] at hshorter
        have hkind : d.timeout = .read ∨ d.timeout = .write := by cases d <;> decide
        simp only [setsShorter, Bool.or_eq_true, Bool.and_eq_true, decide_eq_true_eq,
          Option.isNone_iff_eq_none] at hshorter
        refine .inr (hshorter.resolve_left ?_)
        rintro (⟨hread, hwrite⟩ | hnone')
        · exact hkind.elim hread hwrite
        · exact hnone hnone'
    · rw [heq] at hneg ⊢
      exact (h.timeouts i d).resolve_left hneg
  refine .inr ⟨hpasses.ios hbefore.1, ?_⟩
  rcases hsame.ages.timeouts d with hnone | ⟨htimer, htimeout⟩ | hsets
  · exact .inl hnone
  · exact hbefore.2.imp htimer.trans fun hle => hle.trans_eq htimeout.symm
  · exact .inr (sets_eq hsets).2.le

theorem Paced.closing_idle (h : s.Paced) (hguard : s.Punctual m)
    (hstep : s.thread.step m.action = some thread) {c : TimeoutClose}
    (hc : s.closing m thread = some c) : c.Idle := by
  rw [closing, Option.bind_eq_some_iff] at hc
  obtain ⟨⟨i, d⟩, hfires, hc⟩ := hc
  rw [Option.ite_none_right_eq_some] at hc
  obtain ⟨⟨hopen, hclosed⟩, hc⟩ := hc
  obtain rfl := Option.some.inj hc
  obtain ⟨htimer, hlast⟩ : (s.thread.io i).timer d.timeout ≠ none ∧
      (s.thread.io i).last d ≤ s.thread.loop.cur_ms := hguard.fires (i, d) hfires hopen
  intro time htime hpast
  dsimp only at htime hpast ⊢
  rcases h.timeouts i d with hneg | ⟨hi, hnone | hstored⟩
  · omega
  · exact absurd hnone htimer
  · have hint := (h.stored i hi d).resolve_left htimer
    have hidle := LoopThread.step_closes hstep hfires hopen hclosed
    have hstamped := (h.stamped i d).resolve_left (by simp [hopen]) time htime
    have hclock := h.cur_ms.trans hguard.clock
    simp only [u64] at hidle
    omega

theorem Paced.step (h : s.Paced) (hguard : s.Punctual m) (hstep : s.step m = some t) :
    t.Paced := by
  rw [IdleWatch.step, Option.ite_none_right_eq_some, Option.map_eq_some_iff] at hstep
  obtain ⟨hproper, thread, hthread, rfl⟩ := hstep
  have hpasses := LoopThread.Passes.step hproper hthread
  have hclock := hguard.clock
  have hcur_ms := h.cur_ms
  have hahead : s.thread.loop.cur_ms ≤ thread.loop.cur_ms := by
    rcases hpasses.cur_ms with heq | heq <;> omega
  refine ⟨?_, fun i d time htime => ?_, fun i time htime => ?_, fun i d => ?_, fun i hi d => ?_,
    fun i d => ?_, fun c hc => ?_⟩
  · rcases hpasses.cur_ms with heq | heq <;> dsimp only <;> omega
  · dsimp only at htime ⊢
    split_ifs at htime with hnew
    · exact absurd htime List.not_mem_nil
    · rcases mem_movedAfter htime with hold | ⟨rfl, -⟩
      · exact (h.past i d time hold).trans hclock
      · exact le_rfl
  · dsimp only at htime ⊢
    split_ifs at htime with hnew
    · exact absurd htime List.not_mem_nil
    · rcases mem_movedAfter htime with hold | ⟨rfl, htransfers⟩
      · exact (h.read i time hold).trans hahead
      · exact (hguard.reads _ htransfers rfl).trans hahead
  · dsimp only
    split_ifs with hnew
    · exact .inr fun time htime => absurd htime List.not_mem_nil
    have hsame := (hpasses.io i).resolve_left fun h => hnew ⟨h.before, h.after⟩
    rcases h.stamped i d with hclosed | hstamped
    · exact .inl (hsame.ages.closed hclosed)
    have hold := h.stamped_after hclock hsame hstamped
    by_cases htransfers : s.thread.transfers m.action = some (i, d)
    · refine (hguard.stamped hproper hthread htransfers).imp_right fun hnow time htime => ?_
      rcases mem_movedAfter htime with hmem | ⟨rfl, -⟩
      · exact hold time hmem
      · exact hnow
    · refine .inr fun time htime => hold time ?_
      exact (mem_movedAfter htime).resolve_right fun h => htransfers h.2
  · rcases hpasses.io i with hnew | hsame
    · exact (hnew.timeouts d).imp_right fun hsets => (sets_proper hproper hthread hsets).1
    rcases hsame.ages.timeouts d with hnone | ⟨htimer, htimeout⟩ | hsets
    · exact .inl hnone
    · have hstored := h.stored i (hsame.before hi) d
      exact hstored.imp htimer.trans htimeout.trans_lt
    · exact .inr (sets_proper hproper hthread hsets).1
  · dsimp only
    split_ifs with hnew
    · exact .inl le_rfl
    have hsame := (hpasses.io i).resolve_left fun h => hnew ⟨h.before, h.after⟩
    exact h.timeouts_after hguard hproper hthread hpasses hsame
  · rcases List.mem_append.mp hc with hold | hnew
    · exact h.idles c hold
    · exact h.closing_idle hguard hthread (Option.mem_toList.mp hnew)

/-- The timeout callbacks close idle ios only, in every run in which the code does not lose track of
the idle time. -/
theorem idles_along (now timers_num : ℕ) (timer : ℕ → Timer) (epoll : EpollSet) (io : ℕ → LoopIo)
    (run : List Timed)
    (h : Meets step Punctual (start now timers_num timer epoll io) run) :
    Along step Idles (start now timers_num timer epoll io) run := by
  have hstart : (start now timers_num timer epoll io).Paced := by
    refine ⟨le_rfl, ?_, ?_, fun i d => .inr ?_, ?_, fun i d => .inl le_rfl, ?_⟩ <;>
      simp [start, LoopThread.start, Idles]
  exact (along_of_meets (fun _ _ _ h hguard hstep => h.step hguard hstep) hstart h).mono
    fun _ h => h.idles

/-- A new loop at the time `0`. -/
def fresh : IdleWatch :=
  start 0 0 (fun _ => { Timer.zero with allocated := false }) (fun _ => none)
    fun _ => .new 0 (fun _ => 0) LoopThread.bare

/-- `process_pending_event` comes to its next event. -/
def visits (now : ℕ) : Timed :=
  ⟨now, .visit { LoopThread.quiet with now := now }⟩

/-- The thread goes on; if it comes to `io_read_cb`, there are bytes. -/
def goesOn (now : ℕ) : Timed :=
  ⟨now, .resume { LoopThread.quiet with now := now, read := .got }⟩

/-- One byte is written. -/
def writes (now : ℕ) : Timed :=
  ⟨now, .ioWrite 0 ⟨[1], by decide⟩ ⟨1, .other, .other⟩ now⟩

def sets (kind : Timeout) (timeout : ℤ) (now x : ℕ) : Timed :=
  ⟨now, .setTimeout kind 0 timeout now (some x)⟩

/-- An io, and a timer of the user that keeps `process_timer` away from an empty heap. -/
def opens (type : IoType) : List Timed :=
  [⟨0, .getIo 0 5 (fun _ => 0) { LoopThread.bare with type := type }⟩,
    ⟨0, .addTimer 100000 0 1 0 (some 9)⟩]

/-- A byte is written at `300`; the write timeout is checked at `1000` and closes the io later. -/
def idlesLong : List Timed :=
  opens .tcp ++ [sets .write 1000 0 1, writes 300, ⟨1000, .tick 1000⟩, ⟨1000, .expire⟩,
    ⟨1000, .walk⟩, visits 1000, goesOn 1001, visits 1001, ⟨2000, .tick 2000⟩, ⟨2001, .expire⟩]

theorem idles_along_idlesLong : Along step Idles fresh idlesLong ∧
    (exec step fresh idlesLong).map (·.closes) = some [⟨.write, 1000, [300], 2001⟩] :=
  ⟨idles_along 0 0 _ _ _ idlesLong (by decide +kernel), by decide +kernel⟩

/-- The callback of a timer that expires together with the write timeout writes a byte. -/
def writesLate : List Timed :=
  opens .tcp ++ [sets .write 1000 0 1, ⟨1, .addTimer 999 0 1 1 (some 2)⟩, ⟨1000, .tick 1000⟩,
    ⟨1000, .expire⟩, ⟨1000, .expire⟩, ⟨1000, .walk⟩, visits 1001, writes 1001, ⟨1001, .ret⟩,
    goesOn 1001, visits 1002]

/-- The same callback removes the write timeout. -/
def removesLate : List Timed :=
  opens .tcp ++ [sets .write 1000 0 1, ⟨1, .addTimer 999 0 1 1 (some 2)⟩, ⟨1000, .tick 1000⟩,
    ⟨1000, .expire⟩, ⟨1000, .expire⟩, ⟨1000, .walk⟩, visits 1000, writes 1000,
    ⟨1001, .removeTimeout true 0⟩, ⟨1001, .ret⟩, goesOn 1001, visits 1002]

/-- The write timeout is set to `10` and then to `1000`. -/
def setsLonger : List Timed :=
  opens .tcp ++ [sets .write 10 0 1, sets .write 1000 0 2, writes 900, ⟨1000, .tick 1000⟩,
    ⟨1000, .expire⟩, ⟨1000, .walk⟩, visits 1000]

/-- A byte is written with `SSL_write`. -/
def writesSsl : List Timed :=
  opens .ssl ++ [sets .write 10 0 1, writes 9, ⟨10, .tick 10⟩, ⟨10, .expire⟩, ⟨10, .walk⟩,
    visits 10]

/-- A byte is read at `9`, in a turn of the loop that has begun at `0`. -/
def readsLate : List Timed :=
  opens .tcp ++ [⟨0, .ioReadEnable 0⟩, sets .read 10 0 1, ⟨0, .dispatch 0 eventRead⟩, ⟨0, .tick 0⟩,
    ⟨0, .walk⟩, visits 0, goesOn 9, goesOn 9, visits 9, ⟨10, .tick 10⟩, ⟨10, .expire⟩, ⟨10, .walk⟩,
    visits 10]

/-- An io is closed although a byte has just been written or read on it: because the subtraction
wraps around, the timeout was removed, the longer one was not stored, `SSL_write` is not stamped, or
`cur_ms` is out of date. -/
theorem not_idles_along :
    ¬ Along step Idles fresh writesLate ∧ ¬ Along step Idles fresh removesLate ∧
      ¬ Along step Idles fresh setsLonger ∧ ¬ Along step Idles fresh writesSsl ∧
        ¬ Along step Idles fresh readsLate := by
  have hbusy : ∀ {run : List Timed} {c : TimeoutClose},
      (exec step fresh run).map (·.closes) = some [c] → ¬ c.Idle →
        ¬ Along step Idles fresh run := by
    intro run c hrun hbusy halong
    obtain ⟨s, hs, hcloses⟩ := Option.map_eq_some_iff.mp hrun
    exact hbusy (halong.exec hs c (hcloses ▸ List.mem_cons_self))
  refine ⟨hbusy (c := ⟨.write, 1000, [1001], 1002⟩) ?_ (by decide),
    hbusy (c := ⟨.write, 1000, [1000], 1002⟩) ?_ (by decide),
    hbusy (c := ⟨.write, 1000, [900], 1000⟩) ?_ (by decide),
    hbusy (c := ⟨.write, 10, [9], 10⟩) ?_ (by decide),
    hbusy (c := ⟨.read, 10, [9], 10⟩) ?_ (by decide)⟩ <;> decide +kernel

end IdleWatch

end LibConn
