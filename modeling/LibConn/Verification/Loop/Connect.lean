import LibConn.Verification.Loop.Soundness

/-! # The timeout of a finished connect

Only `io_close` takes the connect timer of an io away: a connect that succeeds leaves it
armed, and the io is closed when the timer comes due. -/

namespace LibConn.LoopThread

open LibConn.Run

variable {s t u : LoopThread} {a : LoopAction} {i j x : ℕ} {cbs : List IoCallback}

/-- The io is closed, or the block `x` is its connect timer. -/
def ConnectArmed (i x : ℕ) (s : LoopThread) : Prop :=
  i ∈ s.ios ∧ ((s.io i).closed = true ∨ (s.io i).timer .connect = some x)

theorem ConnectArmed.congr (h : ConnectArmed i x s) (hi : s.ios ⊆ t.ios)
    (hclosed : (t.io i).closed = (s.io i).closed) (htimer : (t.io i).timer = (s.io i).timer) :
    ConnectArmed i x t := by
  refine ⟨hi h.1, ?_⟩
  rw [hclosed, htimer]
  exact h.2

theorem ConnectArmed.acts (h : ConnectArmed i x s) (hacts : Acts j cbs s t) :
    ConnectArmed i x t := by
  obtain ⟨hi, hslot⟩ := h
  refine ⟨hacts.ios ▸ hi, ?_⟩
  rcases eq_or_ne i j with rfl | hne
  · rcases hslot with hclosed | hslot
    · exact .inl (hacts.mono hclosed)
    · cases hacts.change with
      | ends hends =>
          cases hends with
          | keeps hkept => exact .inr ((congrFun hkept.timer .connect).trans hslot)
          | shuts hshut => exact .inl hshut.closed
      | resets y howns hio hreset => exact .inr ((congrFun hio.timer .connect).trans hslot)
      | arms kind y harms =>
          have hkind : Timeout.connect ≠ kind := by
            rintro rfl
            exact Option.some_ne_none x (hslot.symm.trans harms.before)
          refine .inr ((congrFun harms.timer .connect).trans ?_)
          rw [Function.update_of_ne hkind]
          exact hslot
      | disarms kind hkind hdisarms =>
          refine .inr ((congrFun hdisarms.timer .connect).trans ?_)
          rw [Function.update_of_ne hkind.symm]
          exact hslot
  · rw [hacts.others i hne]
    exact hslot

theorem ConnectArmed.enters (h : ConnectArmed i x s) (henters : Enters s u) : ConnectArmed i x u :=
  h.congr henters.ios.ge (by rw [henters.io]) (by rw [henters.io])

theorem ConnectArmed.fires {y : ℕ} (h : ConnectArmed i x s) (hfires : Fires y s t) :
    ConnectArmed i x t := by
  cases hfires with
  | user hcb hst => rcases hst with rfl | rfl <;> exact h
  | io j kind cbs hprivdata hcb hacts =>
      have hcall : ConnectArmed i x (s.call j (.timeout kind)) := h
      exact hcall.acts hacts

theorem connectArmed_step (h : ConnectArmed i x s) (hstep : s.step a = some t) :
    ConnectArmed i x t := by
  cases step_turn hstep with
  | enters henters => exact h.enters henters
  | acts j cbs hknown henters hbehind hacts => exact (h.enters henters).acts hacts
  | @creates u _ j fd malloced settings cbs hnew henters hacts =>
      have hu : ConnectArmed i x u := h.enters henters
      have hne : i ≠ j := fun heq => hnew (heq ▸ h.1)
      have hio : (u.create j (.new fd malloced settings)).io i = u.io i := by
        simp [create, setIo, hne]
      refine (hu.congr (Finset.subset_insert _ _) ?_ ?_).acts hacts
      · exact congrArg (fun io : LoopIo => io.closed) hio
      · exact congrArg (fun io : LoopIo => io.timer) hio
  | sets j settings =>
      refine h.congr (Finset.Subset.refl _) ?_ ?_
      all_goals
        rcases eq_or_ne i j with rfl | hne
        · simp [setIo, LoopIo.set]
        · simp [setIo, hne]
  | returns j rest => exact h
  | dispatches j revents =>
      refine h.congr (Finset.Subset.refl _) ?_ ?_
      all_goals
        rcases eq_or_ne i j with rfl | hne
        · simp [dispatch, setIo]
        · simp [dispatch, setIo, hne]
  | grows y loop => exact h
  | shrinks loop => exact h
  | expires y loop => exact h
  | repeats y loop ha hidle hallocated hrepeats hfires =>
      have hloop : ConnectArmed i x { s with loop := loop, expiring := true } := h
      exact hloop.fires hfires
  | fires y rest hwaiting hbehind hidle hfires =>
      have hvisit : ConnectArmed i x ({ s with waiting := rest }.push [.done (.timer y)]) := h
      exact hvisit.fires hfires
  | finishes y rest => exact h

theorem connectArmed_run {as : List LoopAction} (h : ConnectArmed i x s)
    (hrun : exec step s as = some t) : ConnectArmed i x t := by
  have halong : Along step (ConnectArmed i x) s as :=
    along_of_meets (fun s a t hs _ hstep => connectArmed_step hs hstep) h (Meets.trivial as)
  exact halong.exec hrun

/-! ## The two ways to connect -/

/-- The event at hand tells a connecting io, which is open and without TLS, that it may write. -/
structure Connecting (s : LoopThread) (i : ℕ) : Prop where
  waiting : s.waiting.head? = some (.io i)
  cb : (s.io i).cb = some .handleEvent
  connect : (s.io i).connect = true
  events : (s.io i).events &&& eventWrite ≠ 0
  revents : (s.io i).revents &&& eventWrite ≠ 0
  type : (s.io i).type ≠ .ssl
  closed : (s.io i).closed = false

/-- `connect` returns `EINPROGRESS`; some time later `io_connect_cb` finds the peer. -/
def ConnectsLater (s : LoopThread) (i : ℕ) (t : LoopThread) : Prop :=
  ∃ mem w s₁ as s₂ w₂, s.step (.ioConnect i .inProgress mem w) = some s₁ ∧
    exec step s₁ as = some s₂ ∧ Connecting s₂ i ∧ w₂.getpeername = true ∧
    s₂.step (.visit w₂) = some t

/-- `connect` returns `0` and `io_connect_cb` finds the peer. -/
def ConnectsAtOnce (s : LoopThread) (i : ℕ) (t : LoopThread) : Prop :=
  ∃ mem w, w.getpeername = true ∧ s.step (.ioConnect i .connected mem w) = some t

theorem step_ioConnect {r : ConnectResult} {mem : Option ℕ} {w : World}
    (h : s.step (.ioConnect i r mem w) = some t) : i ∈ s.ios ∧ s.ioConnect i r mem w = some t := by
  simp only [step, userCall, Option.ite_none_right_eq_some] at h
  exact h.2

theorem ioConnect_armed {mem : Option ℕ} {w : World} (hi : i ∈ s.ios)
    (h : s.ioConnect i .inProgress mem w = some t) : ∃ x, ConnectArmed i x t := by
  simp only [ioConnect, Option.ite_none_right_eq_some, Option.map_eq_some_iff] at h
  obtain ⟨hmem, c, hset, rfl⟩ := h
  have hset' : ioSetTimeoutOf .connect i (s.conn i) defaultConnectTimeout w.now mem = some c := hset
  rw [ioSetTimeoutOf_timerCb] at hset'
  have hslot : ∃ x, c.io.timer .connect = some x := by
    rcases ioSetTimeout_cases hmem hset' with ⟨hneg, -⟩ | ⟨x, hslot, hio, -⟩ | ⟨x, harms⟩
    · exact absurd hneg (by decide)
    · exact ⟨x, hio ▸ hslot⟩
    · exact ⟨x, by rw [harms.timer, Function.update_self]⟩
  obtain ⟨x, hslot⟩ := hslot
  let v := (s.setConn i c).setIo i { (s.setConn i c).io i with connect := true }
  have hv : (v.conn i).io.timer .connect = some x := by simpa [v, setConn, conn, setIo] using hslot
  refine ⟨x, hi, .inr ?_⟩
  have hadd := congrFun (Kept.ioAdd (v.conn i) .handleEvent .write).timer .connect
  have hself : ((v.setConn i (ioAdd (v.conn i) .handleEvent eventWrite)).io i).timer =
      (ioAdd (v.conn i) .handleEvent eventWrite).io.timer := by simp [setConn, setIo]
  exact (congrFun hself .connect).trans (hadd.trans hv)

/-- A connect that succeeds at once arms no timer. -/
theorem connectsAtOnce_timer (h : ConnectsAtOnce s i t)
    (hnone : (s.io i).timer .connect = none) : (t.io i).timer .connect = none := by
  obtain ⟨mem, w, -, hstep⟩ := h
  obtain ⟨cbs, hruns⟩ := ioConnectCb_runs (step_ioConnect hstep).2
  cases hruns.ends with
  | keeps hkept => exact (congrFun hkept.timer .connect).trans hnone
  | shuts hshut => exact congrFun hshut.timer .connect

theorem ioConnectCb_open {w : World} (hpeer : w.getpeername = true) (htype : (s.io i).type ≠ .ssl)
    (hopen : (s.io i).closed = false) (h : s.ioConnectCb i w = some t) :
    (t.io i).closed = false := by
  let u := s.setIo i { s.io i with last_read_time := w.now }
  let v := u.setConn i (ioDel (u.conn i) eventWrite)
  have hu : Mild i [] s u := .setIo (.refl _)
  have hv : Mild i [] s v := hu.trans (.setConn (.ioDel _ .write))
  have hvtype : (v.io i).type = (s.io i).type := by
    have hdel : (ioDel (u.conn i) eventWrite).io.type = (u.conn i).io.type :=
      (congrArg Io.type (@ioDel_rest (u.conn i) eventWrite) :)
    have hself : (v.io i).type = (ioDel (u.conn i) eventWrite).io.type := by
      simp [v, setConn, setIo]
    exact hself.trans (hdel.trans (by simp [u]))
  simp only [ioConnectCb] at h
  rw [if_neg (by simp [hpeer]), if_neg (hvtype ▸ htype)] at h
  obtain ⟨cbs, hmild⟩ := connectCb_mild v i
  have hclosed : ((v.connectCb i).io i).closed = (s.io i).closed :=
    hmild.kept.closed.trans hv.kept.closed
  exact Option.some.inj h ▸ hclosed.trans hopen

theorem Connecting.visit {w : World} (h : Connecting s i) (hpeer : w.getpeername = true)
    (hvisit : s.visit w = some t) : (t.io i).closed = false := by
  obtain ⟨rest, hwaiting⟩ := List.head?_eq_some_iff.mp h.waiting
  let u : LoopThread := ({ s with waiting := rest }.push [.done (.io i)]).push [.readPart i]
  let v := u.setIo i { u.io i with connect := false }
  have hrun : v.ioConnectCb i w = some t := by
    simp only [LoopThread.visit, hwaiting] at hvisit
    rw [if_neg (by simp [h.cb])] at hvisit
    have hcb : (({ s with waiting := rest }.push [.done (.io i)]).io i).cb = some .handleEvent :=
      h.cb
    simp only [runIo, hcb] at hvisit
    have hconnect : (u.io i).connect = true := h.connect
    rw [writePart, if_pos ⟨h.events, h.revents⟩, if_pos hconnect] at hvisit
    exact hvisit
  have hio : v.io i = { s.io i with connect := false } := by
    simp only [v, setIo, Function.update_self]
    rfl
  exact ioConnectCb_open hpeer (by rw [hio]; exact h.type) (by rw [hio]; exact h.closed) hrun

theorem connectsLater_armed (h : ConnectsLater s i t) :
    (t.io i).closed = false ∧ ∃ x, (t.io i).timer .connect = some x := by
  obtain ⟨mem, w, s₁, as, s₂, w₂, hconnect, hrun, hconnecting, hpeer, hvisit⟩ := h
  obtain ⟨hi, hconnect⟩ := step_ioConnect hconnect
  obtain ⟨x, harmed⟩ := ioConnect_armed hi hconnect
  have hend := connectArmed_step (connectArmed_run harmed hrun) hvisit
  simp only [step, Option.ite_none_right_eq_some] at hvisit
  have hopen := hconnecting.visit hpeer hvisit.2
  refine ⟨hopen, x, hend.2.resolve_left fun hclosed => ?_⟩
  exact absurd (hopen.symm.trans hclosed) (by decide)

/-! ## Runs in which the timer does not come due -/

/-- The block `x` holds a connect timer of the io. -/
def ConnectTimer (s : LoopThread) (i x : ℕ) : Prop :=
  (s.loop.timer x).cb = some .connectTimeout ∧ (s.loop.timer x).privdata = some i

/-- `process_timer` does not find a connect timer of the io due. -/
def NotDue (i : ℕ) (s : LoopThread) (a : LoopAction) : Prop :=
  a = .expire → ∀ x, Due x s.loop → ¬ s.ConnectTimer i x

/-- `__connect_timeout_cb` has not run for the io. -/
def Spared (i : ℕ) (s : LoopThread) : Prop :=
  ∀ called, (i, .timeout .connect, called) ∉ s.calls

/-- Nor is it about to run. -/
structure Unfired (i : ℕ) (s : LoopThread) : Prop where
  spared : Spared i s
  waiting : ∀ x, .timer x ∈ s.waiting → ¬ s.ConnectTimer i x

theorem Unfired.same (h : Unfired i s) (hcalls : t.calls = s.calls)
    (hwaiting : ∀ x, .timer x ∈ t.waiting → t.ConnectTimer i x →
      .timer x ∈ s.waiting ∧ s.ConnectTimer i x) : Unfired i t := by
  refine ⟨fun called hmem => h.spared called (hcalls ▸ hmem), fun x hx hconnect => ?_⟩
  obtain ⟨hx', hconnect'⟩ := hwaiting x hx hconnect
  exact h.waiting x hx' hconnect'

theorem Unfired.enters (h : Unfired i s) (henters : Enters s u) : Unfired i u := by
  refine h.same henters.calls fun x hx hconnect => ⟨henters.sublist.mem hx, ?_⟩
  rwa [ConnectTimer, henters.memory] at hconnect

theorem Unfired.acts {exempt : Option ℕ} (h : Unfired i s) (hsound : Sound exempt s)
    (hacts : Acts j cbs s t) : Unfired i t := by
  refine ⟨fun called hmem => ?_, fun x hx hconnect => ?_⟩
  · rw [hacts.calls] at hmem
    rcases List.mem_append.mp hmem with hold | hnew
    · exact h.spared called hold
    · obtain ⟨cb, hcb, heq⟩ := List.mem_map.mp hnew
      obtain rfl : cb = .timeout .connect := congrArg (fun call => call.2.1) heq
      exact hacts.timeouts .connect hcb
  · rw [hacts.waiting] at hx
    obtain ⟨hcb, hprivdata⟩ := hacts.owner (hsound.waiting x hx).1
    exact h.waiting x hx ⟨hcb ▸ hconnect.1, hprivdata ▸ hconnect.2⟩

theorem Unfired.fires {exempt : Option ℕ} (h : Unfired i s) (hsound : Sound exempt s)
    (hx : ¬ s.ConnectTimer i x) (hfires : Fires x s t) : Unfired i t := by
  cases hfires with
  | user hcb hst => rcases hst with rfl | rfl <;> exact ⟨h.spared, h.waiting⟩
  | io j kind cbs hprivdata hcb hacts =>
      have hcall : Unfired i (s.call j (.timeout kind)) := by
        refine ⟨fun called hmem => ?_, h.waiting⟩
        rcases List.mem_append.mp hmem with hold | hnew
        · exact h.spared called hold
        · obtain ⟨rfl, hrest⟩ := Prod.mk.inj (List.mem_singleton.mp hnew)
          obtain rfl : Timeout.connect = kind := IoCallback.timeout.inj (Prod.mk.inj hrest).1
          exact hx ⟨hcb, hprivdata⟩
      exact hcall.acts (hsound.call j (.timeout kind)) hacts

theorem Unfired.write {loop : Loop} {stack : List Frame} {timer : Timer} (h : Unfired i s)
    (hmemory : loop.timer = Function.update s.loop.timer x timer) (hx : .timer x ∉ s.waiting) :
    Unfired i { s with loop := loop, stack := stack } := by
  refine h.same rfl fun y hy hconnect => ⟨hy, ?_⟩
  have hne : y ≠ x := by
    rintro rfl
    exact hx hy
  rw [ConnectTimer, hmemory, Function.update_of_ne hne] at hconnect
  exact hconnect

theorem ConnectTimer.owner {timer : Timer} {y : ℕ} (howner : SameOwner (s.loop.timer x) timer)
    (hmemory : t.loop.timer = Function.update s.loop.timer x timer) (h : t.ConnectTimer i y) :
    s.ConnectTimer i y := by
  obtain ⟨hcb, hprivdata⟩ := h
  rw [hmemory] at hcb hprivdata
  rcases eq_or_ne y x with rfl | hne
  · rw [Function.update_self] at hcb hprivdata
    exact ⟨howner.cb ▸ hcb, howner.privdata ▸ hprivdata⟩
  · rw [Function.update_of_ne hne] at hcb hprivdata
    exact ⟨hcb, hprivdata⟩

theorem unfired_step (h : Unfired i s) (hsound : Sound none s) (hguard : NotDue i s a)
    (hstep : s.step a = some t) : Unfired i t := by
  cases step_turn hstep with
  | enters henters => exact h.enters henters
  | acts j cbs hknown henters hbehind hacts =>
      exact (h.enters henters).acts (hsound.enters henters) hacts
  | @creates u _ j fd malloced settings cbs hnew henters hacts =>
      have hu := h.enters henters
      have hcreated : Unfired i (u.create j (.new fd malloced settings)) := ⟨hu.spared, hu.waiting⟩
      exact hcreated.acts
        ((hsound.enters henters).create (henters.ios ▸ hnew) fd malloced settings) hacts
  | sets j settings => exact ⟨h.spared, h.waiting⟩
  | returns j rest => exact ⟨h.spared, h.waiting⟩
  | dispatches j revents =>
      refine h.same rfl fun x hx hconnect => ⟨?_, hconnect⟩
      simp only [dispatch] at hx
      split_ifs at hx
      · exact hx
      · exact (List.mem_cons.mp hx).resolve_left (by simp)
  | grows x loop hgrows =>
      obtain ⟨timer, -, hmemory⟩ := hgrows.memory
      refine h.write hmemory fun hx => ?_
      exact absurd ((hsound.waiting x hx).1.symm.trans hgrows.free) (by decide)
  | shrinks loop hmemory hheap =>
      refine h.same rfl fun x hx hconnect => ⟨hx, ?_⟩
      rwa [ConnectTimer, hmemory] at hconnect
  | expires x loop ha hidle hallocated hexpires =>
      obtain ⟨timer, howner, -, hmemory⟩ := hexpires.memory
      refine h.same rfl fun y hy hconnect => ?_
      have hold : s.ConnectTimer i y := hconnect.owner howner hmemory
      refine ⟨?_, hold⟩
      dsimp only at hy
      split_ifs at hy
      · exact hy
      · refine (List.mem_cons.mp hy).resolve_left fun heq => ?_
        obtain rfl := LoopEvent.timer.inj heq
        exact hguard ha y hexpires.toDue hold
  | repeats x loop ha hidle hallocated hrepeats hfires =>
      obtain ⟨timer, howner, -, -, -, hmemory⟩ := hrepeats.memory
      have hu : Unfired i { s with loop := loop, expiring := true } :=
        h.same rfl fun y hy hconnect => ⟨hy, hconnect.owner howner hmemory⟩
      refine hu.fires (hsound.repeats hrepeats) (fun hconnect => ?_) hfires
      exact hguard ha x hrepeats.toDue (hconnect.owner howner hmemory)
  | fires x rest hwaiting hbehind hidle hfires =>
      have hmem : .timer x ∈ s.waiting := hwaiting ▸ List.mem_cons_self
      have hu : Unfired i ({ s with waiting := rest }.push [.done (.timer x)]) :=
        h.same rfl fun y hy hconnect => ⟨hwaiting ▸ List.mem_cons_of_mem _ hy, hconnect⟩
      exact hu.fires (hsound.visits hidle hwaiting) (h.waiting x hmem) hfires
  | finishes x rest hstack =>
      obtain ⟨timer, hmemory, -, -⟩ := pendingDone_memory s.loop x
      exact h.write hmemory (hsound.done x (hstack ▸ List.mem_cons_self))

/-- A run that never finds the timer due never runs its callback. -/
theorem spared_along (loop : Loop) (io : ℕ → LoopIo) (i : ℕ) {as : List LoopAction}
    (h : Meets step (NotDue i) (start loop io) as) : Along step (Spared i) (start loop io) as := by
  have hrun : Along step (fun s => Unfired i s ∧ Sound none s) (start loop io) as := by
    refine along_of_meets (fun s a t hs hguard hstep =>
      ⟨unfired_step hs.1 hs.2 hguard hstep, sound_step hs.2 hstep⟩) ⟨⟨?_, ?_⟩, .start loop io⟩ h
    · exact fun called hmem => List.not_mem_nil hmem
    · exact fun x hx => absurd hx List.not_mem_nil
  exact hrun.mono fun s hs => hs.1.spared

/-! ## The timer comes due -/

theorem processTimerTurn_due {loop : Loop} (h : Due x loop) :
    ∃ loop', processTimerTurn loop = .last x loop' ∨ processTimerTurn loop = .again x loop' := by
  simp only [processTimerTurn, h.top]
  rw [if_neg (Nat.not_lt.mpr h.due)]
  split_ifs
  · exact ⟨_, .inl rfl⟩
  · exact ⟨_, .inr rfl⟩

theorem runTimer_connect (hx : s.ConnectTimer i x) (hheld : s.held i = false)
    (hfree : (s.io i).write_mutex = false) : ∃ t, s.runTimer x = some t ∧
      (t.io i).closed = true ∧ ∃ called, (i, .timeout .connect, called) ∈ t.calls := by
  let u := s.call i (.timeout .connect)
  have hclose := ioClose_closes (c := u.conn i) hfree
  obtain ⟨t, ht⟩ : ∃ t, u.ioClose i = some t := by
    have hheld' : u.held i = false := hheld
    rw [LoopThread.ioClose, ran, if_neg (by simp [hheld', hclose.value_eq])]
    exact ⟨_, rfl⟩
  obtain ⟨hclosed, cbs, hruns⟩ := ioClose_runs ht
  refine ⟨t, ?_, hclosed, decide (i ∈ s.returned), ?_⟩
  · simp only [runTimer, hx.1, hx.2]
    exact ht
  · rw [hruns.calls]
    exact List.mem_append_left _ (List.mem_append_right _ List.mem_cons_self)

/-- There is a timer behind the one at the top, and none of those behind it is due. -/
structure OthersWait (loop : Loop) : Prop where
  ne_nil : loop.timers.array.tail ≠ []
  waits : ∀ y ∈ loop.timers.array.tail, loop.cur_ms < (loop.timer y).next_timeout

theorem stops_of_last (hdue : Due x s.loop) (hothers : OthersWait s.loop) {loop : Loop}
    (hlast : processTimerTurn s.loop = .last x loop) : processTimerTurn loop = .stop := by
  have hperm := processTimerTurn_last_perm hlast
  obtain ⟨timer, -, -, hmemory⟩ := (processTimerTurn_last hlast).memory
  cases htop : heapTop loop.timers with
  | none =>
      rw [List.head?_eq_none_iff.mp htop] at hperm
      exact absurd (List.nil_perm.mp hperm) hothers.ne_nil
  | some y =>
      have hmem : y ∈ s.loop.timers.array.tail :=
        hperm.mem_iff.mp (List.mem_of_mem_head? htop)
      have hlater := hothers.waits y hmem
      have hne : y ≠ x := by
        rintro rfl
        exact absurd hdue.due (Nat.not_le.mpr hlater)
      rw [processTimerTurn, htop]
      dsimp only
      rw [hmemory, Function.update_of_ne hne, processTimerTurn_cur_ms (.inl hlast), if_pos hlater]

theorem due_closes (hsound : Sound none s) (hidle : s.idle = true) (hwaiting : s.waiting = [])
    (hi : i ∈ s.ios) (hopen : (s.io i).closed = false) (hfree : (s.io i).write_mutex = false)
    (hslot : (s.io i).timer .connect = some x) (hdue : Due x s.loop)
    (hothers : OthersWait s.loop) (w : World) :
    ∃ as t, (as = [.expire] ∨ as = [.expire, .walk, .visit w]) ∧ exec step s as = some t ∧
      (t.io i).closed = true ∧ ∃ called, (i, .timeout .connect, called) ∈ t.calls := by
  have howned := hsound.slots i hi hopen .connect x hslot
  have hbetween : s.betweenTurns = true := (Bool.and_eq_true_iff.mp hidle).1
  have hstack : s.stack = [] := by simpa using (Bool.and_eq_true_iff.mp hbetween).1
  obtain ⟨loop, hlast | hagain⟩ := processTimerTurn_due hdue
  · have hexpires := processTimerTurn_last hlast
    obtain ⟨timer, howner, -, hmemory⟩ := hexpires.memory
    obtain ⟨-, hpending, -⟩ := howned.expires hexpires
    have htimer : loop.timer x = timer := by rw [hmemory, Function.update_self]
    let t₁ : LoopThread := { s with loop := loop, expiring := true, waiting := [.timer x] }
    let t₂ : LoopThread := { t₁ with expiring := false, walking := true }
    let u : LoopThread := { t₂ with waiting := [] }.push [.done (.timer x)]
    have h₁ : s.step .expire = some t₁ := by
      simp only [step, hbetween, if_true, LoopThread.expire, hlast, howned.allocated, hpending,
        hwaiting]
      rfl
    have hwaits : t₁.timersWait = true := by
      rw [timersWait, show processTimerTurn t₁.loop = .stop from stops_of_last hdue hothers hlast]
    have h₂ : t₁.step .walk = some t₂ := if_pos ⟨hbetween, fun _ => hwaits⟩
    have hconnect : u.ConnectTimer i x := by
      refine ⟨?_, ?_⟩
      · exact (congrArg Timer.cb htimer).trans (howner.cb.trans howned.cb)
      · exact (congrArg Timer.privdata htimer).trans (howner.privdata.trans howned.privdata)
    have hallocated : (loop.timer x).allocated = true :=
      (congrArg Timer.allocated htimer).trans (howner.allocated.trans howned.allocated)
    have hheld : u.held i = false := by simp [held, u, t₂, t₁, push, hstack]
    obtain ⟨t, hrun, hclosed, hcalls⟩ := runTimer_connect hconnect hheld hfree
    have hcb : (loop.timer x).cb ≠ none := by
      intro hnone
      exact Option.some_ne_none _ (hconnect.1.symm.trans hnone)
    have h₃ : t₂.step (.visit w) = some t := by
      have hwalks : t₂.walking = true ∧ t₂.stack = [] := ⟨rfl, hstack⟩
      have hgone : ¬ (t₂.loop.timer x).allocated = false := by
        intro hfreed
        exact absurd (hallocated.symm.trans hfreed) (by decide)
      have hvisit : t₂.visit w = u.runTimer x := by
        rw [LoopThread.visit]
        exact (if_neg hgone).trans (if_neg hcb)
      exact (if_pos hwalks).trans (hvisit.trans hrun)
    exact ⟨_, t, .inr rfl, by simp [exec, h₁, h₂, h₃], hclosed, hcalls⟩
  · have hrepeats := processTimerTurn_again hagain
    obtain ⟨timer, howner, -, -, -, hmemory⟩ := hrepeats.memory
    have htimer : loop.timer x = timer := by rw [hmemory, Function.update_self]
    let u : LoopThread := { s with loop := loop, expiring := true }
    have hconnect : u.ConnectTimer i x := by
      refine ⟨?_, ?_⟩
      · exact (congrArg Timer.cb htimer).trans (howner.cb.trans howned.cb)
      · exact (congrArg Timer.privdata htimer).trans (howner.privdata.trans howned.privdata)
    have hheld : u.held i = false := by simp [held, u, hstack]
    obtain ⟨t, hrun, hclosed, hcalls⟩ := runTimer_connect hconnect hheld hfree
    have h₁ : s.step .expire = some t := by
      simp only [step, hbetween, if_true, LoopThread.expire, hagain, howned.allocated]
      exact hrun
    exact ⟨_, t, .inl rfl, by simp [exec, h₁], hclosed, hcalls⟩

/-- A connect that takes its time leaves its timer with the io, where one that succeeds at once
leaves none. The io is spared by `__connect_timeout_cb` in the runs in which the timer does not
come due; when the loop finds it due, and no other timer with it, the io is closed. -/
theorem finishedConnect {cur_ms timers_num : ℕ} {timer : ℕ → Timer} {epoll : EpollSet}
    {io : ℕ → LoopIo} {as : List LoopAction}
    (hrun : exec step (start (loopInit cur_ms timers_num timer epoll) io) as = some s) (i : ℕ) :
    (∀ t, ConnectsLater s i t → (t.io i).closed = false ∧ (t.io i).timer .connect ≠ none ∧
        ∀ t', (s.io i).timer .connect = none → ConnectsAtOnce s i t' →
          (t.io i).timer ≠ (t'.io i).timer) ∧
      (Meets step (NotDue i) (start (loopInit cur_ms timers_num timer epoll) io) as →
        Along step (Spared i) (start (loopInit cur_ms timers_num timer epoll) io) as) ∧
      ∀ x w, s.idle = true → s.waiting = [] → i ∈ s.ios → (s.io i).closed = false →
        (s.io i).write_mutex = false → (s.io i).timer .connect = some x → Due x s.loop →
        OthersWait s.loop →
          ∃ bs t, (bs = [.expire] ∨ bs = [.expire, .walk, .visit w]) ∧ exec step s bs = some t ∧
            (t.io i).closed = true ∧ ∃ called, (i, .timeout .connect, called) ∈ t.calls := by
  refine ⟨fun t hlater => ?_, spared_along _ io i, ?_⟩
  · obtain ⟨hopen, x, hslot⟩ := connectsLater_armed hlater
    refine ⟨hopen, fun hnone => Option.some_ne_none x (hslot.symm.trans hnone), ?_⟩
    intro t' hnone honce hsame
    have hslot' := connectsAtOnce_timer honce hnone
    rw [← hsame, hslot] at hslot'
    exact Option.some_ne_none x hslot'
  · exact fun x w hidle hwaiting hi hopen hfree hslot hdue hothers =>
      due_closes (sound_run _ io hrun) hidle hwaiting hi hopen hfree hslot hdue hothers w

/-- A client whose connect is in progress at first, and a timer of the user that keeps
`process_timer` away from an empty heap. -/
def opens : List LoopAction :=
  [.getIo 0 5 (fun _ => 0) bare, .addTimer 100000 0 1 0 (some 2)]

/-- The connection is there at once, and then nothing happens for five seconds. -/
def timesOut : List LoopAction :=
  [.resume quiet, .resume quiet, .visit quiet, .tick 5000, .expire, .walk, .visit quiet]

theorem connectsLater_opens : ∃ s t, exec step fresh opens = some s ∧ ConnectsLater s 0 t ∧
    (exec step t timesOut).map (fun u => ((u.io 0).closed, u.calls)) =
      some (true, [(0, .timeout .connect, false)]) := by
  let s := (exec step fresh opens).get (by decide +kernel)
  let s₁ := (s.step (.ioConnect 0 .inProgress (some 1) quiet)).get (by decide +kernel)
  let s₂ := (exec step s₁ [.dispatch 0 eventWrite, .walk]).get (by decide +kernel)
  let t := (s₂.step (.visit quiet)).get (by decide +kernel)
  have hconnecting : Connecting s₂ 0 := by
    refine ⟨?_, ?_, ?_, ?_, ?_, ?_, ?_⟩
    all_goals decide +kernel
  exact ⟨s, t, (Option.some_get _).symm, ⟨some 1, quiet, s₁, _, s₂, quiet, (Option.some_get _).symm,
    (Option.some_get _).symm, hconnecting, rfl, (Option.some_get _).symm⟩, by decide +kernel⟩

theorem finishedConnect_opens : ∃ s t, exec step fresh opens = some s ∧ ConnectsLater s 0 t ∧
    (t.io 0).closed = false ∧ (t.io 0).timer .connect ≠ none := by
  obtain ⟨s, t, hrun, hlater, -⟩ := connectsLater_opens
  obtain ⟨hopen, harmed, -⟩ := (finishedConnect hrun 0).1 t hlater
  exact ⟨s, t, hrun, hlater, hopen, harmed⟩

/-- Five seconds after the connect the io is closed by `__connect_timeout_cb`. -/
theorem not_spared_timesOut : ∃ s t u, exec step fresh opens = some s ∧ ConnectsLater s 0 t ∧
    exec step t timesOut = some u ∧ (u.io 0).closed = true ∧ ¬ Spared 0 u := by
  obtain ⟨s, t, hrun, hlater, hend⟩ := connectsLater_opens
  obtain ⟨u, hu, heq⟩ := Option.map_eq_some_iff.mp hend
  obtain ⟨hclosed, hcalls⟩ := Prod.mk.inj heq
  refine ⟨s, t, u, hrun, hlater, hu, hclosed, fun hspared => hspared false ?_⟩
  rw [hcalls]
  exact List.mem_cons_self

end LibConn.LoopThread
