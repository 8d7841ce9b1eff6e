import LibConn.Model.IdleTimeouts
import LibConn.Verification.Io.Stream
import LibConn.Verification.Loop.Soundness

/-! # Times and timeouts

What each function of the thread leaves of `cur_ms`, of the times at which an io was last read
and written, and of its read and write timeouts. A call of `write` that takes bytes is stamped. -/

namespace LibConn

variable {α : Type} {c c' c'' : Conn} {now : ℕ} {arms : Direction → ℤ → Prop}

/-! ## Calls on an io -/

/-- What a call that runs at the time `now` leaves of the clock of the loop, and of the times
and timeouts of the io. `arms` are the timeouts that it may set. -/
structure Ages (now : ℕ) (arms : Direction → ℤ → Prop) (c c' : Conn) : Prop where
  cur_ms : c'.loop.cur_ms = c.loop.cur_ms ∨ c'.loop.cur_ms = now
  closed : c.io.closed = true → c'.io.closed = true
  stamp : c'.io.last_write_time = c.io.last_write_time ∨ c'.io.last_write_time = now
  timeouts : ∀ d : Direction, c'.io.timer d.timeout = none ∨
    (c'.io.timer d.timeout = c.io.timer d.timeout ∧
      c'.io.timeout d.timeout = c.io.timeout d.timeout) ∨
    arms d (c'.io.timeout d.timeout)

theorem Ages.refl (c : Conn) : Ages now arms c c :=
  ⟨.inl rfl, id, .inl rfl, fun _ => .inr (.inl ⟨rfl, rfl⟩)⟩

theorem Ages.trans (h : Ages now arms c c') (h' : Ages now arms c' c'') : Ages now arms c c'' := by
  refine ⟨?_, h'.closed ∘ h.closed, ?_, fun d => ?_⟩
  · rcases h'.cur_ms with heq | heq
    · exact heq ▸ h.cur_ms
    · exact .inr heq
  · rcases h'.stamp with heq | heq
    · exact heq ▸ h.stamp
    · exact .inr heq
  · rcases h'.timeouts d with hnone | ⟨htimer, htimeout⟩ | harms
    · exact .inl hnone
    · rw [htimer, htimeout]
      exact h.timeouts d
    · exact .inr (.inr harms)

theorem Ages.mono {arms' : Direction → ℤ → Prop} (h : Ages now arms c c')
    (harms : ∀ d value, arms d value → arms' d value) : Ages now arms' c c' :=
  ⟨h.cur_ms, h.closed, h.stamp, fun d => (h.timeouts d).imp_right (Or.imp_right (harms d _))⟩

/-- The call changes neither the clock nor the times and timeouts. -/
theorem Ages.same (hcur_ms : c'.loop.cur_ms = c.loop.cur_ms)
    (hclosed : c.io.closed = true → c'.io.closed = true)
    (hstamp : c'.io.last_write_time = c.io.last_write_time) (htimer : c'.io.timer = c.io.timer)
    (htimeout : c'.io.timeout = c.io.timeout) : Ages now arms c c' :=
  ⟨.inl hcur_ms, hclosed, .inl hstamp, fun _ =>
    .inr (.inl ⟨congrFun htimer _, congrFun htimeout _⟩)⟩

theorem Ages.ioAdd (c : Conn) (cb : EventCb) (event : Mask) :
    Ages now arms c (ioAdd c cb event) := by
  rw [LibConn.ioAdd]
  split_ifs <;> exact .same rfl id rfl rfl rfl

theorem Ages.ioDel (c : Conn) (event : Mask) : Ages now arms c (ioDel c event) := by
  rw [LibConn.ioDel]
  split_ifs <;> exact .same rfl id rfl rfl rfl

theorem Ages.ioRemoveTimeout (kind : Timeout) (c : Conn) :
    Ages now arms c (ioRemoveTimeout kind c) := by
  rw [LibConn.ioRemoveTimeout]
  cases c.io.timer kind with
  | none => exact .refl c
  | some t =>
      refine ⟨.inl rfl, id, .inl rfl, fun d => ?_⟩
      by_cases hd : d.timeout = kind
      · exact .inl (by simp [hd])
      · exact .inr (.inl ⟨by simp [hd], by simp [hd]⟩)

theorem Ages.disarmed (c : Conn) : Ages now arms c c.disarmed :=
  have hmark : Ages now arms c { c with io := { c.io with closed := true } } :=
    .same rfl (fun _ => rfl) rfl rfl rfl
  ((((((hmark.trans (.ioDel _ _)).trans (.ioDel _ _)).trans (.ioRemoveTimeout .read _)).trans
    (.ioRemoveTimeout .write _)).trans (.ioRemoveTimeout .connect _)).trans
      (.ioRemoveTimeout .close _))

theorem Ages.ioClose (c : Conn) : Ages now arms c (ioClose c).conn := by
  cases hm : c.io.write_mutex with
  | true =>
      rw [ioClose_held hm]
      exact .refl c
  | false =>
      cases hc : c.io.closed with
      | true =>
          rw [ioClose_closed hc hm]
          exact .refl c
      | false =>
          rw [ioClose_open hm hc]
          refine (Ages.disarmed c).trans ?_
          dsimp only
          split_ifs <;> exact .same rfl id rfl rfl rfl

theorem Ages.closeAndReturn (c : Conn) (value : ℤ) :
    Ages now arms c (closeAndReturn c.unlock value).conn := by
  have hclose := ioClose_closes (c := c.unlock) rfl
  rw [LibConn.closeAndReturn, Ran.andThen_some hclose.value_eq]
  have hunlock : Ages now arms c c.unlock := .same rfl id rfl rfl rfl
  exact hunlock.trans (.ioClose _)

theorem Ages.queue (c : Conn) (write_buf : Buffer) :
    Ages now arms c (LibConn.ioAdd (c.setWriteBuf write_buf) .ioWriteCb eventWrite) := by
  have hset : Ages now arms c (c.setWriteBuf write_buf) := .same rfl id rfl rfl rfl
  exact hset.trans (.ioAdd _ _ _)

theorem Ages.ioWriteSsl (c : Conn) (buf : List UInt8) (r : WriteResult) :
    Ages now arms c (ioWriteSsl c buf r).conn := by
  rw [LibConn.ioWriteSsl, Ran.after_conn]
  dsimp only
  split_ifs
  · exact .refl c
  · exact .closeAndReturn c _
  · rw [Ran.after_conn]
    cases bufferAppendData c.io.write_buf (buf.drop (int32 r.ret).toNat) with
    | none => exact .closeAndReturn c _
    | some write_buf => exact .queue c write_buf
  · exact .same rfl id rfl rfl rfl

/-- The write is stamped if it has taken bytes. -/
theorem ioWriteDone_ages (c : Conn) (nwrite : ℤ) (now : ℕ) :
    Ages now arms c (ioWriteDone c nwrite now).conn ∧
      (0 < nwrite → (ioWriteDone c nwrite now).conn.io.last_write_time = now) := by
  rw [ioWriteDone]
  dsimp only
  split_ifs with hpos
  · exact ⟨⟨.inl rfl, id, .inr rfl, fun _ => .inr (.inl ⟨rfl, rfl⟩)⟩, fun _ => rfl⟩
  · exact ⟨.same rfl id rfl rfl rfl, fun h => absurd h hpos⟩

/-- A write that takes bytes is stamped, unless the io is closed. -/
theorem ioWriteTcp_ages (c : Conn) (buf : List UInt8) (r : WriteResult) (now : ℕ) :
    Ages now arms c (ioWriteTcp c buf r now).conn ∧
      (c.io.fd ≠ -1 → 0 < int32 r.ret → (ioWriteTcp c buf r now).conn.io.closed = true ∨
        (ioWriteTcp c buf r now).conn.io.last_write_time = now) := by
  have hclosed : ∀ value, (closeAndReturn c.unlock value).conn.io.closed = true :=
    fun value => (closeAndReturn_closes rfl value).closed
  rw [ioWriteTcp]
  by_cases hfd : c.io.fd = -1
  · rw [if_pos hfd]
    exact ⟨.same rfl id rfl rfl rfl, fun h => absurd hfd h⟩
  · rw [if_neg hfd, Ran.after_conn]
    dsimp only
    by_cases hneg : int32 r.ret < 0
    · rw [if_pos hneg]
      refine ⟨?_, fun _ hpos => absurd hpos (by omega)⟩
      split_ifs
      · cases bufferAppendData c.io.write_buf buf with
        | none => exact .closeAndReturn c _
        | some write_buf => exact (Ages.queue c write_buf).trans (.same rfl id rfl rfl rfl)
      · exact .closeAndReturn c _
    · rw [if_neg hneg]
      split_ifs
      · rw [Ran.after_conn]
        cases bufferAppendData c.io.write_buf (buf.drop (int32 r.ret).toNat) with
        | none => exact ⟨.closeAndReturn c _, fun _ _ => .inl (hclosed _)⟩
        | some write_buf =>
            obtain ⟨hages, hstamp⟩ := ioWriteDone_ages
              (LibConn.ioAdd (c.setWriteBuf write_buf) .ioWriteCb eventWrite) (int32 r.ret) now
            exact ⟨(Ages.queue c write_buf).trans hages, fun _ hpos => .inr (hstamp hpos)⟩
      · obtain ⟨hages, hstamp⟩ := ioWriteDone_ages c (int32 r.ret) now
        exact ⟨hages, fun _ hpos => .inr (hstamp hpos)⟩

theorem takes_pos {r : WriteResult} {effects : List Effect} (h : r.takes effects = true) :
    0 < r.ret ∧ ∃ bytes, .write bytes ∈ effects := by
  have hne : effects.flatMap (Effect.accepted r.ret) ≠ [] := by simpa [WriteResult.takes] using h
  obtain ⟨byte, hbyte⟩ := List.exists_mem_of_ne_nil _ hne
  obtain ⟨effect, heffect, hmem⟩ := List.mem_flatMap.mp hbyte
  cases effect with
  | write bytes =>
      refine ⟨?_, bytes, heffect⟩
      by_contra hneg
      rw [Effect.accepted, Int.toNat_of_nonpos (by omega), List.take_zero] at hmem
      exact absurd hmem List.not_mem_nil
  | writeCb source offset writebytes => exact absurd hmem List.not_mem_nil
  | closeCb => exact absurd hmem List.not_mem_nil

/-- `io_write` stamps a write of `write` that takes bytes, but not one of `SSL_write`. -/
theorem ioWrite_ages (arms : Direction → ℤ → Prop) (c : Conn) (buf : List UInt8) (r : WriteResult)
    (now : ℕ) :
    Ages now arms c (ioWrite c buf r now).conn ∧
      (r.takes (ioWrite c buf r now).effects = true → c.io.type ≠ .ssl → r.ret < 2 ^ 31 →
        (ioWrite c buf r now).conn.io.closed = true ∨
          (ioWrite c buf r now).conn.io.last_write_time = now) := by
  have hlock : Ages now arms c c.lock := .same rfl id rfl rfl rfl
  have hnone : ∀ {effects : List Effect} {P : Prop}, (∀ bytes, .write bytes ∉ effects) →
      r.takes effects = true → P := by
    intro effects P hno htakes
    obtain ⟨-, bytes, hmem⟩ := takes_pos htakes
    exact absurd hmem (hno bytes)
  rw [ioWrite]
  by_cases hm : c.io.write_mutex = true
  · rw [if_pos hm]
    exact ⟨.refl c, fun htakes => hnone (by simp) htakes⟩
  rw [if_neg hm]
  dsimp only
  by_cases hc : c.lock.io.closed = true
  · rw [if_pos hc]
    exact ⟨.same rfl id rfl rfl rfl, fun htakes => hnone (by simp) htakes⟩
  rw [if_neg hc]
  by_cases hempty : bufferIsEmpty c.lock.io.write_buf = false
  · rw [if_pos hempty]
    cases bufferAppendData c.lock.io.write_buf buf with
    | none =>
        exact ⟨hlock.trans (.closeAndReturn _ _),
          fun htakes => hnone (closeAndReturn_closes rfl _).no_write htakes⟩
    | some write_buf =>
        exact ⟨.same rfl id rfl rfl rfl, fun htakes => hnone (by simp) htakes⟩
  rw [if_neg hempty]
  by_cases hssl : c.lock.io.type = .ssl
  · rw [if_pos hssl]
    exact ⟨hlock.trans (.ioWriteSsl _ buf r), fun _ htype => absurd hssl htype⟩
  · rw [if_neg hssl]
    obtain ⟨hages, hstamp⟩ := ioWriteTcp_ages c.lock buf r now
    refine ⟨hlock.trans hages, fun htakes _ hret => ?_⟩
    obtain ⟨hpos, bytes, hmem⟩ := takes_pos htakes
    refine hstamp (fun hfd => ?_) (by rwa [int32_of_lt (by omega) hret])
    rw [ioWriteTcp, if_pos hfd] at hmem
    exact absurd hmem List.not_mem_nil

/-- `io_write_cb` stamps the io before it writes. -/
theorem ioWriteCb_ages (arms : Direction → ℤ → Prop) (c : Conn) (r : WriteResult) (now : ℕ) :
    Ages now arms c (ioWriteCb c r now).conn ∧
      (r.takes (ioWriteCb c r now).effects = true →
        (ioWriteCb c r now).conn.io.last_write_time = now) := by
  cases hc : c.io.closed with
  | true =>
      rw [ioWriteCb_closed hc]
      exact ⟨.refl c, fun htakes => absurd (takes_pos htakes).2 (by simp)⟩
  | false =>
      cases hm : c.io.write_mutex with
      | true =>
          have hrun : ioWriteCb c r now = ⟨c, none, []⟩ := by simp [ioWriteCb, hc, hm]
          rw [hrun]
          exact ⟨.refl c, fun htakes => absurd (takes_pos htakes).2 (by simp)⟩
      | false =>
          have hages : Ages now arms c (c.stamped now) :=
            ⟨.inl rfl, id, .inr rfl, fun _ => .inr (.inl ⟨rfl, rfl⟩)⟩
          have hsame : ∀ c', Ages now arms (c.stamped now) c' →
              Ages now arms c c' ∧ c'.io.last_write_time = now := by
            intro c' h
            refine ⟨hages.trans h, ?_⟩
            rcases h.stamp with hstamp | hstamp
            · exact hstamp
            · exact hstamp
          suffices h : Ages now arms c (ioWriteCb c r now).conn ∧
              (ioWriteCb c r now).conn.io.last_write_time = now from ⟨h.1, fun _ => h.2⟩
          apply hsame
          rw [ioWriteCb_open hm hc]
          split_ifs
          · exact .same rfl id rfl rfl rfl
          · exact .same rfl id rfl rfl rfl
          · exact .refl _
          · exact .same rfl id rfl rfl rfl

theorem resetTimer_cur_ms {loop loop' : Loop} {t : ℕ} {timeout : ℤ}
    (h : resetTimer loop t timeout = some loop') : loop'.cur_ms = loop.cur_ms := by
  rw [resetTimer, Option.ite_none_right_eq_some] at h
  obtain ⟨-, h⟩ := h
  obtain rfl := Option.some.inj h
  cases (loop.timer t).destory <;>
    simp [eventReset, Loop.setTimer, Loop.insertTimer, Loop.popTimer]

theorem addTimer_cur_ms (loop : Loop) (timeout : ℤ) (cb : Option TimerCb) (repeats now : ℕ)
    (mem : Option ℕ) : (addTimer loop timeout cb repeats now mem).2.cur_ms = loop.cur_ms ∨
      (addTimer loop timeout cb repeats now mem).2.cur_ms = now := by
  unfold addTimer
  by_cases hzero : timeout = 0
  · rw [if_pos hzero]
    exact .inl rfl
  · rw [if_neg hzero]
    cases mem with
    | none => exact .inl rfl
    | some t => exact .inr rfl

/-- Setting a timeout without a timer stores it; otherwise it is not stored. -/
theorem ioSetTimeoutOf_ages {kind : Timeout} {self : ℕ} {timeout : ℤ} {mem : Option ℕ}
    (h : ioSetTimeoutOf kind self c timeout now mem = some c') :
    Ages now (fun d value => d.timeout = kind ∧ value = timeout) c c' := by
  rw [ioSetTimeoutOf_timerCb, ioSetTimeout] at h
  by_cases hneg : timeout < 0
  · rw [if_pos hneg] at h
    obtain rfl := Option.some.inj h
    split_ifs
    · exact .ioRemoveTimeout kind c
    · exact .refl c
  rw [if_neg hneg] at h
  cases htimer : c.io.timer kind with
  | some t =>
      simp only [htimer, Option.map_eq_some_iff] at h
      obtain ⟨loop, hreset, rfl⟩ := h
      exact .same (resetTimer_cur_ms hreset) id rfl rfl rfl
  | none =>
      simp only [htimer, addTimer] at h
      by_cases hzero : timeout = 0
      · simp [hzero] at h
      rw [if_neg hzero] at h
      cases mem with
      | none => simp at h
      | some t =>
          obtain rfl := Option.some.inj h
          refine ⟨.inr rfl, id, .inl rfl, fun d => ?_⟩
          by_cases hd : d.timeout = kind
          · exact .inr (.inr ⟨hd, by simp [hd]⟩)
          · exact .inr (.inl ⟨by simp [hd], by simp [hd]⟩)

namespace LoopThread

variable {s t u : LoopThread} {i : ℕ} {w : World} {sets : ℕ → Direction → ℤ → Prop}

/-! ## Functions of the thread -/

/-- The io has been created; perhaps a timeout has been set on it. -/
structure NewIo (sets : ℕ → Direction → ℤ → Prop) (s t : LoopThread) (i : ℕ) : Prop where
  before : i ∉ s.ios
  after : i ∈ t.ios
  timeouts : ∀ d : Direction, (t.io i).timer d.timeout = none ∨
    sets i d ((t.io i).timeout d.timeout)

/-- What becomes of an io that there was before, and of one that there is not. -/
structure SameIo (now : ℕ) (sets : ℕ → Direction → ℤ → Prop) (s t : LoopThread) (i : ℕ) :
    Prop where
  before : i ∈ t.ios → i ∈ s.ios
  ages : Ages now (sets i) (s.conn i) (t.conn i)
  read : (t.io i).last_read_time = (s.io i).last_read_time ∨
    (t.io i).last_read_time = s.loop.cur_ms ∨ (t.io i).last_read_time = now

/-- What a function that runs at the time `now` leaves of the clock, and of the times and timeouts
of the ios. -/
structure Passes (now : ℕ) (sets : ℕ → Direction → ℤ → Prop) (s t : LoopThread) : Prop where
  cur_ms : t.loop.cur_ms = s.loop.cur_ms ∨ t.loop.cur_ms = now
  ios : s.ios ⊆ t.ios
  io : ∀ i, NewIo sets s t i ∨ SameIo now sets s t i

/-- The ios are not touched. -/
theorem Passes.clock (hios : t.ios = s.ios) (hio : t.io = s.io)
    (hcur_ms : t.loop.cur_ms = s.loop.cur_ms ∨ t.loop.cur_ms = now) : Passes now sets s t := by
  refine ⟨hcur_ms, hios ▸ Finset.Subset.refl _, fun i => .inr ⟨fun hi => hios ▸ hi, ?_, .inl ?_⟩⟩
  · refine ⟨hcur_ms, ?_, .inl ?_, fun d => .inr (.inl ⟨?_, ?_⟩)⟩ <;> simp [conn, hio]
  · rw [hio]

theorem Passes.same (hios : t.ios = s.ios) (hio : t.io = s.io)
    (hcur_ms : t.loop.cur_ms = s.loop.cur_ms) : Passes now sets s t :=
  .clock hios hio (.inl hcur_ms)

theorem Passes.refl (s : LoopThread) : Passes now sets s s :=
  .same rfl rfl rfl

theorem Passes.trans (h : Passes now sets s t) (h' : Passes now sets t u) :
    Passes now sets s u := by
  refine ⟨?_, h.ios.trans h'.ios, fun i => ?_⟩
  · rcases h'.cur_ms with heq | heq
    · exact heq ▸ h.cur_ms
    · exact .inr heq
  · rcases h'.io i with hnew' | hsame'
    · exact .inl ⟨fun hi => hnew'.before (h.ios hi), hnew'.after, hnew'.timeouts⟩
    rcases h.io i with hnew | hsame
    · refine .inl ⟨hnew.before, h'.ios hnew.after, fun d => ?_⟩
      rcases hsame'.ages.timeouts d with hnone | ⟨htimer, htimeout⟩ | hsets
      · exact .inl hnone
      · have hvalue : (u.io i).timeout d.timeout = (t.io i).timeout d.timeout := htimeout
        rw [hvalue]
        exact (hnew.timeouts d).imp_left htimer.trans
      · exact .inr hsets
    · refine .inr ⟨hsame.before ∘ hsame'.before, hsame.ages.trans hsame'.ages, ?_⟩
      rcases hsame'.read with heq | heq | heq
      · exact heq ▸ hsame.read
      · rcases h.cur_ms with hcur_ms | hcur_ms
        · exact .inr (.inl (heq.trans hcur_ms))
        · exact .inr (.inr (heq.trans hcur_ms))
      · exact .inr (.inr heq)

/-- Another io is not touched. -/
theorem SameIo.other (hios : i ∈ t.ios → i ∈ s.ios) (hio : t.io i = s.io i)
    (hcur_ms : t.loop.cur_ms = s.loop.cur_ms ∨ t.loop.cur_ms = now) : SameIo now sets s t i := by
  refine ⟨hios, ⟨hcur_ms, ?_, .inl ?_, fun d => .inr (.inl ⟨?_, ?_⟩)⟩, .inl ?_⟩ <;> simp [conn, hio]

theorem Passes.setConn {c : Conn} (h : Ages now (sets i) (s.conn i) c) :
    Passes now sets s (s.setConn i c) := by
  refine ⟨h.cur_ms, Finset.Subset.refl _, fun j => .inr ?_⟩
  by_cases hj : j = i
  · subst hj
    refine ⟨id, ?_, .inl (by simp [LoopThread.setConn, setIo])⟩
    rwa [setConn_conn]
  · exact .other id (by simp [LoopThread.setConn, setIo, hj]) h.cur_ms

/-- Members of the io are set that the timeouts do not look at, or `last_read_time`. -/
theorem Passes.setIo {io : LoopIo} (hages : ∀ arms, Ages now arms (s.conn i) ⟨io.toIo, s.loop⟩)
    (hread : io.last_read_time = (s.io i).last_read_time ∨
      io.last_read_time = s.loop.cur_ms ∨ io.last_read_time = now) :
    Passes now sets s (s.setIo i io) := by
  refine ⟨.inl rfl, Finset.Subset.refl _, fun j => .inr ?_⟩
  by_cases hj : j = i
  · subst hj
    refine ⟨id, ?_, by simpa [LoopThread.setIo] using hread⟩
    rw [setIo_conn]
    exact hages _
  · exact .other id (by simp [LoopThread.setIo, hj]) (.inl rfl)

/-- `get_io` in a new block. -/
theorem Passes.create (hnew : i ∉ s.ios) (fd : ℤ) (malloced : ℕ → UInt8) (settings : IoSettings) :
    Passes now sets s (s.create i (.new fd malloced settings)) := by
  refine ⟨.inl rfl, Finset.subset_insert _ _, fun j => ?_⟩
  by_cases hj : j = i
  · subst hj
    refine .inl ⟨hnew, Finset.mem_insert_self _ _, fun d => .inl ?_⟩
    simp [LoopThread.create, LoopThread.setIo, LoopIo.new, LoopIo.set, getIo]
  · refine .inr (.other (fun hmem => ?_) ?_ (.inl rfl))
    · exact Finset.mem_of_mem_insert_of_ne hmem hj
    · simp [LoopThread.create, LoopThread.setIo, hj]

theorem ran_conn {r : Ran α} (h : s.ran i r = some t) : t.conn i = r.conn := by
  rw [LoopThread.ran, Option.ite_none_left_eq_some] at h
  obtain ⟨-, h⟩ := h
  rw [foldl_call] at h
  obtain rfl := Option.some.inj h
  dsimp only [LoopThread.push]
  split_ifs <;> simp [conn, LoopThread.setConn, LoopThread.setIo]

theorem Passes.ran {r : Ran α} (h : s.ran i r = some t)
    (hages : Ages now (sets i) (s.conn i) r.conn) : Passes now sets s t := by
  rw [LoopThread.ran, Option.ite_none_left_eq_some] at h
  obtain ⟨-, h⟩ := h
  rw [foldl_call] at h
  obtain rfl := Option.some.inj h
  refine (Passes.setConn hages).trans (.same ?_ ?_ ?_) <;> split_ifs <;> rfl

theorem Passes.ioClose (h : s.ioClose i = some t) : Passes now sets s t :=
  .ran h (.ioClose _)

theorem Passes.ioWriteCb (h : s.ioWriteCb i w = some t) : Passes w.now sets s t :=
  .ran h (ioWriteCb_ages _ _ _ _).1

theorem Passes.ioReadEnable (s : LoopThread) (i : ℕ) : Passes now sets s (s.ioReadEnable i) :=
  .setConn (.ioAdd _ _ _)

theorem Passes.connectCb (s : LoopThread) (i : ℕ) : Passes now sets s (s.connectCb i) := by
  rw [LoopThread.connectCb]
  split_ifs
  · exact .same rfl rfl rfl
  · exact .refl s

theorem Passes.ioConnectCb (h : s.ioConnectCb i w = some t) : Passes w.now sets s t := by
  have hset : Passes w.now sets s (s.setIo i { s.io i with last_read_time := w.now }) :=
    .setIo (fun _ => .same rfl id rfl rfl rfl) (.inr (.inr rfl))
  simp only [LoopThread.ioConnectCb] at h
  by_cases hpeer : w.getpeername = false
  · rw [if_pos hpeer] at h
    exact hset.trans (.ioClose h)
  · rw [if_neg hpeer] at h
    refine hset.trans ((Passes.setConn (i := i) (.ioDel _ eventWrite)).trans ?_)
    split_ifs at h
    · cases hssl : w.sslConnect with
      | skipped =>
          simp only [hssl] at h
          obtain rfl := Option.some.inj h
          exact .refl _
      | failed =>
          simp only [hssl] at h
          obtain rfl := Option.some.inj h
          exact .setConn (.same rfl id rfl rfl rfl)
      | done =>
          simp only [hssl] at h
          obtain rfl := Option.some.inj h
          exact .connectCb _ i
    · obtain rfl := Option.some.inj h
      exact .connectCb _ i

theorem Passes.sslServerHandshake (h : s.sslServerHandshake i w = some t) :
    Passes now sets s t := by
  rw [LoopThread.sslServerHandshake] at h
  cases hshake : w.handshake with
  | done =>
      simp only [hshake] at h
      obtain rfl := Option.some.inj h
      split_ifs
      · exact .same rfl rfl rfl
      · exact .ioReadEnable s i
  | wantRead =>
      simp only [hshake] at h
      obtain rfl := Option.some.inj h
      split_ifs
      · exact .setConn (.ioAdd _ _ _)
      · exact .refl s
  | failed =>
      simp only [hshake] at h
      exact .ioClose h

theorem Passes.ioAcceptCb (h : s.ioAcceptCb i w = some t) : Passes now sets s t := by
  simp only [LoopThread.ioAcceptCb] at h
  cases haccepted : w.accepted with
  | none =>
      simp only [haccepted] at h
      obtain rfl := Option.some.inj h
      exact .refl s
  | some conn_io =>
      obtain ⟨j, fd⟩ := conn_io
      simp only [haccepted, Option.ite_none_left_eq_some] at h
      obtain ⟨hnew, h⟩ := h
      have hcreate : ∀ settings, Passes now sets s (s.create j (.new fd w.malloced settings)) :=
        .create hnew fd w.malloced
      by_cases hssl : (s.io i).type = .ssl
      · simp only [hssl, if_true] at h
        exact (hcreate _).trans (.sslServerHandshake h)
      · simp only [hssl, if_false, reduceCtorEq] at h
        obtain rfl := Option.some.inj h
        split_ifs
        · exact (hcreate _).trans ((Passes.ioReadEnable _ j).trans (.same rfl rfl rfl))
        · exact (hcreate _).trans (.ioReadEnable _ j)

theorem Passes.ioReadCb (h : s.ioReadCb i w = some t) : Passes now sets s t := by
  have hset : Passes now sets s (s.setIo i { s.io i with last_read_time := s.loop.cur_ms }) :=
    .setIo (fun _ => .same rfl id rfl rfl rfl) (.inr (.inl rfl))
  simp only [LoopThread.ioReadCb] at h
  refine hset.trans ?_
  cases hread : w.read with
  | closes =>
      simp only [hread] at h
      exact .ioClose h
  | again =>
      simp only [hread] at h
      obtain rfl := Option.some.inj h
      exact .refl _
  | got =>
      simp only [hread] at h
      obtain rfl := Option.some.inj h
      split_ifs <;> exact .same rfl rfl rfl

theorem Passes.writePart (h : s.writePart i w = some t) : Passes w.now sets s t := by
  rw [LoopThread.writePart] at h
  split_ifs at h
  · have hset : Passes w.now sets s (s.setIo i { s.io i with connect := false }) :=
      .setIo (fun _ => .same rfl id rfl rfl rfl) (.inl rfl)
    exact hset.trans (.ioConnectCb h)
  · exact .ioWriteCb h
  · obtain rfl := Option.some.inj h
    exact .refl s

theorem Passes.readPart (h : s.readPart i w = some t) : Passes now sets s t := by
  rw [LoopThread.readPart] at h
  split_ifs at h
  · exact .ioAcceptCb h
  · exact .ioReadCb h
  · obtain rfl := Option.some.inj h
    exact .refl s

theorem Passes.runIo (h : s.runIo i w = some t) : Passes w.now sets s t := by
  rw [LoopThread.runIo] at h
  cases hcb : (s.io i).cb with
  | none =>
      simp only [hcb] at h
      obtain rfl := Option.some.inj h
      exact .refl s
  | some cb =>
      cases cb with
      | handleEvent =>
          simp only [hcb] at h
          have hpush : Passes w.now sets s (s.push [.readPart i]) := .same rfl rfl rfl
          exact hpush.trans (.writePart h)
      | ioWriteCb =>
          simp only [hcb] at h
          exact .ioWriteCb h
      | sslServerHandshake =>
          simp only [hcb] at h
          exact .sslServerHandshake h

theorem Passes.ioConnect {r : ConnectResult} {mem : Option ℕ} (h : s.ioConnect i r mem w = some t) :
    Passes w.now sets s t := by
  cases r with
  | failed =>
      obtain rfl := Option.some.inj h
      exact .refl s
  | connected => exact .ioConnectCb h
  | inProgress =>
      simp only [LoopThread.ioConnect, Option.ite_none_right_eq_some, Option.map_eq_some_iff] at h
      obtain ⟨-, c, hset, rfl⟩ := h
      have hages : Ages w.now (sets i) (s.conn i) c := by
        have hset' :
            ioSetTimeoutOf .connect i (s.conn i) defaultConnectTimeout w.now mem = some c := hset
        refine (ioSetTimeoutOf_ages hset').mono fun d value hkind => ?_
        cases d <;> cases hkind.1
      let u := s.setConn i c
      let v := u.setIo i { u.io i with connect := true }
      have huv : Passes w.now sets u v := .setIo (fun _ => .same rfl id rfl rfl rfl) (.inl rfl)
      have hadd : Passes w.now sets v
          (v.setConn i (LibConn.ioAdd (v.conn i) .handleEvent eventWrite)) :=
        .setConn (.ioAdd _ _ _)
      exact (Passes.setConn hages).trans (huv.trans hadd)

/-! ## Timers -/

theorem Passes.inactive {kind : Timeout} {last x : ℕ} (h : s.inactive i kind last x = some t) :
    Passes now sets s t := by
  simp only [LoopThread.inactive] at h
  split_ifs at h
  · obtain ⟨loop, hreset, rfl⟩ := Option.map_eq_some_iff.mp h
    exact .same rfl rfl (resetTimer_cur_ms hreset)
  · exact .ioClose h

theorem Passes.runTimer {x : ℕ} (h : s.runTimer x = some t) : Passes now sets s t := by
  rw [LoopThread.runTimer] at h
  have hcall : ∀ i cb, Passes now sets s (s.call i cb) := fun _ _ => .same rfl rfl rfl
  split at h
  · obtain rfl := Option.some.inj h
    exact .refl s
  · obtain rfl := Option.some.inj h
    exact .same rfl rfl rfl
  · exact (hcall _ _).trans (.inactive h)
  · exact (hcall _ _).trans (.inactive h)
  · exact (hcall _ _).trans (.ioClose h)
  · exact (hcall _ _).trans (.ioClose h)
  · cases h

theorem Passes.expire (h : s.expire = some t) : Passes now sets s t := by
  rw [LoopThread.expire] at h
  cases hturn : processTimerTurn s.loop with
  | fault => simp [hturn] at h
  | stop => simp [hturn] at h
  | last x loop =>
      simp only [hturn, Option.ite_none_right_eq_some] at h
      obtain ⟨-, h⟩ := h
      obtain rfl := Option.some.inj h
      exact .same rfl rfl (processTimerTurn_cur_ms (.inl hturn))
  | again x loop =>
      simp only [hturn, Option.ite_none_right_eq_some] at h
      have hloop : Passes now sets s { s with loop := loop, expiring := true } :=
        .same rfl rfl (processTimerTurn_cur_ms (.inr hturn))
      exact hloop.trans (.runTimer h.2)

/-! ## Steps -/

theorem Passes.visit (h : s.visit w = some t) : Passes w.now sets s t := by
  rw [LoopThread.visit] at h
  cases hwaiting : s.waiting with
  | nil =>
      simp only [hwaiting] at h
      obtain rfl := Option.some.inj h
      exact .same rfl rfl rfl
  | cons e rest =>
      have henter : ∀ frames, Passes w.now sets s ({ s with waiting := rest }.push frames) :=
        fun _ => .same rfl rfl rfl
      cases e with
      | io i =>
          simp only [hwaiting] at h
          split_ifs at h
          · obtain rfl := Option.some.inj h
            exact .same rfl rfl rfl
          · exact (henter _).trans (.runIo h)
      | timer x =>
          simp only [hwaiting] at h
          split_ifs at h
          · obtain rfl := Option.some.inj h
            exact .same rfl rfl rfl
          · exact (henter _).trans (.runTimer h)

theorem Passes.finish (s : LoopThread) (e : LoopEvent) : Passes now sets s (s.finish e) := by
  cases e with
  | io i => exact .setIo (fun _ => .same rfl id rfl rfl rfl) (.inl rfl)
  | timer x =>
      refine .same rfl rfl ?_
      dsimp only [LoopThread.finish, pendingDone, eventDel]
      split_ifs <;> rfl

theorem Passes.resume (h : s.resume w = some t) : Passes w.now sets s t := by
  rw [LoopThread.resume] at h
  cases hstack : s.stack with
  | nil => simp [hstack] at h
  | cons frame rest =>
      have hpop : Passes w.now sets s { s with stack := rest } := .same rfl rfl rfl
      cases frame with
      | user held => simp [hstack] at h
      | closed i =>
          simp only [hstack] at h
          obtain rfl := Option.some.inj h
          exact .same rfl rfl rfl
      | readEnable i =>
          simp only [hstack] at h
          obtain rfl := Option.some.inj h
          exact hpop.trans (.ioReadEnable _ i)
      | readPart i =>
          simp only [hstack] at h
          exact hpop.trans (.readPart h)
      | done e =>
          simp only [hstack] at h
          obtain rfl := Option.some.inj h
          exact hpop.trans (.finish _ e)

end LoopThread

/-- The timeout that the action sets on the io `i`. -/
def LoopAction.Sets (a : LoopAction) (i : ℕ) (d : Direction) (value : ℤ) : Prop :=
  match a with
  | .setTimeout kind j timeout _ _ => j = i ∧ d.timeout = kind ∧ value = timeout
  | _ => False

namespace LoopThread

variable {s t : LoopThread}

theorem Passes.userCall {m : Timed} (hm : m.proper = true) (h : s.userCall m.action = some t) :
    Passes m.now m.action.Sets s t := by
  obtain ⟨now, a⟩ := m
  cases a with
  | getIo i fd malloced settings =>
      simp only [LoopThread.userCall, Option.ite_none_left_eq_some] at h
      obtain ⟨hnew, h⟩ := h
      obtain rfl := Option.some.inj h
      exact .create hnew fd malloced settings
  | set i settings =>
      simp only [LoopThread.userCall, Option.ite_none_right_eq_some] at h
      obtain rfl := Option.some.inj h.2
      exact .setIo (fun _ => .same rfl id rfl rfl rfl) (.inl rfl)
  | ioConnect i r mem w =>
      simp only [LoopThread.userCall, Option.ite_none_right_eq_some] at h
      obtain rfl : w.now = now := by simpa [Timed.proper] using hm
      exact .ioConnect h.2
  | ioAccept i =>
      simp only [LoopThread.userCall, Option.ite_none_right_eq_some] at h
      obtain rfl := Option.some.inj h.2
      have hset : Passes now (LoopAction.ioAccept i).Sets s
          (s.setIo i { s.io i with accept := true }) :=
        .setIo (fun _ => .same rfl id rfl rfl rfl) (.inl rfl)
      exact hset.trans (.ioReadEnable _ i)
  | ioReadEnable i =>
      simp only [LoopThread.userCall, Option.ite_none_right_eq_some] at h
      obtain rfl := Option.some.inj h.2
      exact .ioReadEnable s i
  | ioWrite i payload r time =>
      simp only [LoopThread.userCall, Option.ite_none_right_eq_some] at h
      obtain rfl : time = now := by simpa [Timed.proper] using hm
      exact .ran h.2 (ioWrite_ages _ _ _ _ _).1
  | ioClose i =>
      simp only [LoopThread.userCall, Option.ite_none_right_eq_some] at h
      exact .ioClose h.2
  | setTimeout kind i timeout time mem =>
      simp only [LoopThread.userCall, Option.ite_none_right_eq_some, Option.map_eq_some_iff] at h
      obtain ⟨-, c, hset, rfl⟩ := h
      obtain rfl : time = now := by
        have hproper : time = now ∧ int32 timeout = timeout := by simpa [Timed.proper] using hm
        exact hproper.1
      exact .setConn ((ioSetTimeoutOf_ages hset).mono fun d value harms => ⟨rfl, harms⟩)
  | removeTimeout write i =>
      simp only [LoopThread.userCall, Option.ite_none_right_eq_some] at h
      obtain rfl := Option.some.inj h.2
      exact .setConn (.ioRemoveTimeout _ _)
  | addTimer timeout k repeats time mem =>
      simp only [LoopThread.userCall, Option.ite_none_right_eq_some] at h
      obtain rfl : time = now := by simpa [Timed.proper] using hm
      obtain rfl := Option.some.inj h.2
      exact .clock rfl rfl (addTimer_cur_ms s.loop timeout _ repeats time mem)
  | delTimer x =>
      simp only [LoopThread.userCall, Option.ite_none_right_eq_some] at h
      obtain rfl := Option.some.inj h.2
      exact .same rfl rfl rfl
  | _ => cases h

/-- What a step of the thread leaves of the times and timeouts. -/
theorem Passes.step {m : Timed} (hm : m.proper = true) (h : s.step m.action = some t) :
    Passes m.now m.action.Sets s t := by
  obtain ⟨now, a⟩ := m
  cases a with
  | tick time =>
      simp only [LoopThread.step, Option.ite_none_right_eq_some] at h
      obtain rfl : time = now := by simpa [Timed.proper] using hm
      obtain rfl := Option.some.inj h.2
      exact .clock rfl rfl (.inr rfl)
  | expire =>
      simp only [LoopThread.step, Option.ite_none_right_eq_some] at h
      exact .expire h.2
  | dispatch i revents =>
      simp only [LoopThread.step, Option.ite_none_right_eq_some] at h
      obtain rfl := Option.some.inj h.2
      have hset : Passes now (LoopAction.dispatch i revents).Sets s
          (s.setIo i { s.io i with revents := revents, pending := true }) :=
        .setIo (fun _ => .same rfl id rfl rfl rfl) (.inl rfl)
      exact hset.trans (.same rfl rfl rfl)
  | walk =>
      simp only [LoopThread.step, Option.ite_none_right_eq_some] at h
      obtain rfl := Option.some.inj h.2
      exact .same rfl rfl rfl
  | visit w =>
      simp only [LoopThread.step, Option.ite_none_right_eq_some] at h
      obtain rfl : w.now = now := by simpa [Timed.proper] using hm
      exact .visit h.2
  | resume w =>
      obtain rfl : w.now = now := by simpa [Timed.proper] using hm
      exact .resume h
  | ret =>
      simp only [LoopThread.step] at h
      split at h
      · obtain rfl := Option.some.inj h
        exact .same rfl rfl rfl
      · cases h
  | _ =>
      simp only [LoopThread.step, Option.ite_none_right_eq_some] at h
      exact .userCall hm h.2

end LoopThread

end LibConn
