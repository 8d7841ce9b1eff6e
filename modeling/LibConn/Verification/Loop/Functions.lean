import LibConn.Model.LoopThread
import LibConn.Verification.Loop.Outcomes

/-! # What the functions of the thread do

A function that the thread runs concerns one io: it leaves the others alone, calls callbacks
of that io only, and changes its timers in one of a few ways. On a closed io most of them do
nothing. -/

namespace LibConn

/-- The frame is about the io `i`, or a callback of the user. -/
def Frame.Of (i : ℕ) : Frame → Prop
  | .user _ => True
  | .closed j => j = i
  | .readEnable j => j = i
  | .readPart j => j = i
  | .done _ => False

/-- The io that is handled when the frame is resumed. -/
def Frame.io : Frame → Option ℕ
  | .user _ => none
  | .closed i => some i
  | .readEnable i => some i
  | .readPart i => some i
  | .done (.io i) => some i
  | .done (.timer _) => none

theorem Frame.Of.io_eq {i : ℕ} {frame : Frame} (h : frame.Of i) :
    frame.io = none ∨ frame.io = some i := by
  cases frame with
  | user held => exact .inl rfl
  | done e => exact h.elim
  | closed j => exact .inr (congrArg some h)
  | readEnable j => exact .inr (congrArg some h)
  | readPart j => exact .inr (congrArg some h)

namespace LoopThread

variable {s t u : LoopThread} {i : ℕ} {cbs cbs' : List IoCallback} {w : World}

/-! ## Functions on one io -/

/-- Only the io `i` is touched, and of its callbacks `cbs` are called. -/
structure Touches (i : ℕ) (cbs : List IoCallback) (s t : LoopThread) : Prop where
  ios : t.ios = s.ios
  others : ∀ j, j ≠ i → t.io j = s.io j
  waiting : t.waiting = s.waiting
  calls : t.calls = s.calls ++ cbs.map fun cb => (i, cb, decide (i ∈ s.returned))
  stack : ∃ frames, t.stack = frames ++ s.stack ∧
    ∀ frame ∈ frames, frame.Of i ∧ (frame = .closed i → (t.io i).closed = true)
  mono : (s.io i).closed = true → (t.io i).closed = true
  returned : t.returned =
    if (t.io i).closed && !(s.io i).closed && !(t.io i).close_cb then insert i s.returned
    else s.returned

theorem Touches.returned_eq (h : Touches i cbs s t) (hclosed : (t.io i).closed = (s.io i).closed) :
    t.returned = s.returned := by
  rw [h.returned, hclosed]
  simp

theorem Touches.trans (h : Touches i cbs s t) (hclosed : (t.io i).closed = (s.io i).closed)
    (h' : Touches i cbs' t u) : Touches i (cbs ++ cbs') s u := by
  have hreturned := h.returned_eq hclosed
  obtain ⟨frames, hstack, hframes⟩ := h.stack
  obtain ⟨frames', hstack', hframes'⟩ := h'.stack
  refine ⟨h'.ios.trans h.ios, fun j hj => (h'.others j hj).trans (h.others j hj),
    h'.waiting.trans h.waiting, ?_, ⟨frames' ++ frames, ?_, ?_⟩, h'.mono ∘ h.mono, ?_⟩
  · rw [h'.calls, h.calls, hreturned, List.map_append, List.append_assoc]
  · rw [hstack', hstack, List.append_assoc]
  · intro frame hframe
    rcases List.mem_append.mp hframe with hmem | hmem
    · exact hframes' frame hmem
    · exact ⟨(hframes frame hmem).1, h'.mono ∘ (hframes frame hmem).2⟩
  · rw [h'.returned, hclosed, hreturned]

/-- A function that changes no timers and closes nothing. -/
structure Mild (i : ℕ) (cbs : List IoCallback) (s t : LoopThread) : Prop extends
    Touches i cbs s t where
  kept : Kept (s.conn i) (t.conn i)
  plain : ∀ cb ∈ cbs, cb ≠ .close ∧ ∀ kind, cb ≠ .timeout kind

/-- A function that changes no timers, unless it closes the io. -/
structure Runs (i : ℕ) (cbs : List IoCallback) (s t : LoopThread) : Prop extends
    Touches i cbs s t where
  ends : Ends (cbs.count .close) (s.conn i) (t.conn i)
  timeouts : ∀ kind, .timeout kind ∉ cbs

/-- What a function does to the io `i`. -/
structure Acts (i : ℕ) (cbs : List IoCallback) (s t : LoopThread) : Prop extends
    Touches i cbs s t where
  change : Change i (cbs.count .close) (s.conn i) (t.conn i)
  timeouts : ∀ kind, .timeout kind ∉ cbs

theorem Mild.closes (h : Mild i cbs s t) : cbs.count .close = 0 :=
  List.count_eq_zero.mpr fun hmem => (h.plain _ hmem).1 rfl

theorem Mild.runs (h : Mild i cbs s t) : Runs i cbs s t :=
  ⟨h.toTouches, .keeps h.kept h.closes, fun kind hmem => (h.plain _ hmem).2 kind rfl⟩

theorem Runs.acts (h : Runs i cbs s t) : Acts i cbs s t :=
  ⟨h.toTouches, .ends h.ends, h.timeouts⟩

theorem Mild.trans (h : Mild i cbs s t) (h' : Mild i cbs' t u) : Mild i (cbs ++ cbs') s u := by
  refine ⟨h.toTouches.trans h.kept.closed h'.toTouches, h.kept.trans h'.kept, ?_⟩
  intro cb hcb
  rcases List.mem_append.mp hcb with hmem | hmem
  · exact h.plain cb hmem
  · exact h'.plain cb hmem

theorem Mild.trans_runs (h : Mild i cbs s t) (h' : Runs i cbs' t u) : Runs i (cbs ++ cbs') s u := by
  refine ⟨h.toTouches.trans h.kept.closed h'.toTouches, ?_, ?_⟩
  · rw [List.count_append, h.closes, zero_add]
    exact h.kept.ends h'.ends
  · intro kind hmem
    rcases List.mem_append.mp hmem with hmild | hruns
    · exact (h.plain _ hmild).2 kind rfl
    · exact h'.timeouts kind hruns

/-! ## The pieces -/

@[simp] theorem setIo_conn (s : LoopThread) (i : ℕ) (io : LoopIo) :
    (s.setIo i io).conn i = ⟨io.toIo, s.loop⟩ := by
  simp [conn, setIo]

@[simp] theorem setConn_conn (s : LoopThread) (i : ℕ) (c : Conn) : (s.setConn i c).conn i = c := by
  simp [conn, setConn, setIo]

theorem Mild.refl (i : ℕ) (s : LoopThread) : Mild i [] s s :=
  ⟨⟨rfl, fun _ _ => rfl, rfl, by simp, ⟨[], rfl, by simp⟩, id, by simp⟩, .refl _, by simp⟩

theorem Touches.call (s : LoopThread) (i : ℕ) (cb : IoCallback) : Touches i [cb] s (s.call i cb) :=
  ⟨rfl, fun _ _ => rfl, rfl, by simp [LoopThread.call], ⟨[], rfl, by simp⟩, id,
    by simp [LoopThread.call]⟩

theorem Mild.call (s : LoopThread) (i : ℕ) {cb : IoCallback} (hclose : cb ≠ .close)
    (htimeout : ∀ kind, cb ≠ .timeout kind) : Mild i [cb] s (s.call i cb) :=
  ⟨.call s i cb, .refl _, by simpa using ⟨hclose, htimeout⟩⟩

theorem Mild.push (s : LoopThread) {frames : List Frame}
    (h : ∀ frame ∈ frames, frame.Of i ∧ frame ≠ .closed i) : Mild i [] s (s.push frames) :=
  ⟨⟨rfl, fun _ _ => rfl, rfl, by simp [LoopThread.push],
    ⟨frames, rfl, fun frame hmem => ⟨(h frame hmem).1, fun heq => absurd heq (h frame hmem).2⟩⟩, id,
    by simp [LoopThread.push]⟩, .refl _, by simp⟩

theorem Touches.setConn {c : Conn} (hclosed : c.io.closed = (s.io i).closed) :
    Touches i [] s (s.setConn i c) := by
  refine ⟨rfl, fun j hj => ?_, rfl, by simp [LoopThread.setConn, setIo], ⟨[], rfl, by simp⟩, ?_, ?_⟩
  · simp [LoopThread.setConn, setIo, hj]
  · simp [LoopThread.setConn, setIo, hclosed]
  · simp [LoopThread.setConn, setIo, hclosed]

theorem Mild.setConn {c : Conn} (h : Kept (s.conn i) c) : Mild i [] s (s.setConn i c) :=
  ⟨.setConn h.closed, by rwa [setConn_conn], by simp⟩

theorem Mild.setIo {io : LoopIo} (h : SameTimers (s.io i).toIo io.toIo) :
    Mild i [] s (s.setIo i io) := by
  have hclosed : io.closed = (s.io i).closed := h.closed
  refine ⟨⟨rfl, fun j hj => ?_, rfl, by simp [LoopThread.setIo], ⟨[], rfl, by simp⟩, ?_, ?_⟩, ?_,
    by simp⟩
  · simp [LoopThread.setIo, hj]
  · simp [LoopThread.setIo, hclosed]
  · simp [LoopThread.setIo, hclosed]
  · rw [setIo_conn]
    exact ⟨h, rfl, rfl⟩

theorem callback_count (effects : List Effect) :
    (effects.filterMap Effect.callback).count .close = effects.count .closeCb := by
  induction effects with
  | nil => rfl
  | cons effect effects ih =>
      cases effect <;> simp [Effect.callback, List.filterMap_cons, ih]

theorem callback_timeouts (effects : List Effect) (kind : Timeout) :
    .timeout kind ∉ effects.filterMap Effect.callback := by
  intro hmem
  obtain ⟨effect, -, heffect⟩ := List.mem_filterMap.mp hmem
  cases effect <;> simp [Effect.callback] at heffect

theorem frames_of (effects : List Effect) : ∀ frame ∈ effects.flatMap (Effect.frames i),
    frame.Of i ∧ (frame = .closed i → .closeCb ∈ effects) := by
  intro frame hframe
  obtain ⟨effect, heffect, hmem⟩ := List.mem_flatMap.mp hframe
  cases effect with
  | write bytes => simp [Effect.frames] at hmem
  | writeCb source offset writebytes =>
      obtain rfl : frame = .user (some i) := by simpa [Effect.frames] using hmem
      exact ⟨trivial, fun heq => by cases heq⟩
  | closeCb =>
      have hcases : frame = .user none ∨ frame = .closed i := by simpa [Effect.frames] using hmem
      rcases hcases with rfl | rfl
      · exact ⟨trivial, fun heq => by cases heq⟩
      · exact ⟨rfl, fun _ => heffect⟩

theorem foldl_call (s : LoopThread) (i : ℕ) (cbs : List IoCallback) :
    cbs.foldl (fun s cb => s.call i cb) s =
      { s with calls := s.calls ++ cbs.map fun cb => (i, cb, decide (i ∈ s.returned)) } := by
  induction cbs generalizing s with
  | nil => simp
  | cons cb cbs ih =>
      rw [List.foldl_cons, ih, LoopThread.call, List.append_assoc]
      rfl

theorem ran_runs {α : Type} {r : Ran α} (h : s.ran i r = some t)
    (houtcome : r.value ≠ none → Outcome (s.conn i) r) :
    r.value ≠ none ∧ t.conn i = r.conn ∧ Runs i (r.effects.filterMap Effect.callback) s t := by
  rw [ran, Option.ite_none_left_eq_some] at h
  obtain ⟨hreturns, h⟩ := h
  have hvalue : r.value ≠ none := by
    intro hnone
    simp [hnone] at hreturns
  rw [foldl_call] at h
  obtain rfl := Option.some.inj h
  have hends : Ends (r.effects.count .closeCb) (s.conn i) r.conn := houtcome hvalue
  have hmono : (s.io i).closed = true → r.conn.io.closed = true := by
    intro hclosed
    cases hends with
    | keeps hkept => exact hkept.closed.trans hclosed
    | shuts hshut => exact hshut.closed
  have hframes : ∀ frame ∈ r.effects.flatMap (Effect.frames i),
      frame.Of i ∧ (frame = .closed i → r.conn.io.closed = true) := by
    intro frame hmem
    refine ⟨(frames_of r.effects frame hmem).1, fun heq => ?_⟩
    have hpos := List.count_pos_iff.mpr ((frames_of r.effects frame hmem).2 heq)
    cases hends with
    | keeps hkept hcloses => omega
    | shuts hshut => exact hshut.closed
  refine ⟨hvalue, ?_, ⟨?_, ?_, ?_, ?_, ?_, ?_, ?_⟩, ?_, callback_timeouts _⟩
  all_goals dsimp only [push]
  · split_ifs <;> simp [conn, setConn, setIo]
  · split_ifs <;> rfl
  · intro j hj
    split_ifs <;> simp [setConn, setIo, hj]
  · split_ifs <;> rfl
  · split_ifs <;> rfl
  · refine ⟨r.effects.flatMap (Effect.frames i), ?_, fun frame hmem => ?_⟩
    · split_ifs <;> rfl
    · split_ifs <;> simpa [setConn, setIo] using hframes frame hmem
  · split_ifs <;> simpa [setConn, setIo] using hmono
  · split_ifs with hcond hcond' hcond' <;> simp_all [setConn, setIo]
  · rw [callback_count]
    convert hends using 1
    split_ifs <;> simp [conn, setConn, setIo]

/-! ## The functions on an io -/

theorem ioClose_runs (h : s.ioClose i = some t) :
    (t.io i).closed = true ∧ ∃ cbs, Runs i cbs s t := by
  have hfree : (LibConn.ioClose (s.conn i)).value ≠ none → (s.conn i).io.write_mutex = false := by
    intro hvalue
    by_contra hheld
    exact hvalue (by rw [ioClose_held (by simpa using hheld)])
  obtain ⟨hvalue, hconn, hruns⟩ := ran_runs h fun hvalue => ioClose_outcome (hfree hvalue)
  refine ⟨?_, _, hruns⟩
  have hclosed : (t.conn i).io.closed = true := hconn ▸ (ioClose_closes (hfree hvalue)).closed
  exact hclosed

theorem ioWriteCb_runs (h : s.ioWriteCb i w = some t) : ∃ cbs, Runs i cbs s t :=
  ⟨_, (ran_runs h ioWriteCb_outcome).2.2⟩

theorem ioReadEnable_mild (s : LoopThread) (i : ℕ) : Mild i [] s (s.ioReadEnable i) :=
  Mild.setConn (.ioAdd _ .handleEvent .read)

theorem connectCb_mild (s : LoopThread) (i : ℕ) : ∃ cbs, Mild i cbs s (s.connectCb i) := by
  rw [connectCb]
  split_ifs
  · exact ⟨_, (Mild.call s i (by decide) (by simp)).trans (.push _ (by simp [Frame.Of]))⟩
  · exact ⟨[], .refl i s⟩

theorem ioConnectCb_runs (h : s.ioConnectCb i w = some t) : ∃ cbs, Runs i cbs s t := by
  have hset : Mild i [] s (s.setIo i { s.io i with last_read_time := w.now }) := .setIo (.refl _)
  simp only [ioConnectCb] at h
  by_cases hpeer : w.getpeername = false
  · rw [if_pos hpeer] at h
    obtain ⟨-, cbs, hruns⟩ := ioClose_runs h
    exact ⟨_, hset.trans_runs hruns⟩
  · rw [if_neg hpeer] at h
    have hdel := hset.trans (Mild.setConn (Kept.ioDel _ .write))
    have hconnect : ∀ {u : LoopThread}, Mild i [] s u → some (u.connectCb i) = some t →
        ∃ cbs, Runs i cbs s t := by
      intro u hu ht
      obtain rfl := Option.some.inj ht
      obtain ⟨cbs, hmild⟩ := connectCb_mild u i
      exact ⟨_, (hu.trans hmild).runs⟩
    split_ifs at h
    · cases hssl : w.sslConnect with
      | skipped =>
          simp only [hssl] at h
          obtain rfl := Option.some.inj h
          exact ⟨_, hdel.runs⟩
      | failed =>
          simp only [hssl] at h
          obtain rfl := Option.some.inj h
          exact ⟨_, (hdel.trans (.setConn (.freeIo _))).runs⟩
      | done =>
          simp only [hssl] at h
          exact hconnect hdel h
    · exact hconnect hdel h

theorem sslServerHandshake_runs (h : s.sslServerHandshake i w = some t) :
    ∃ cbs, Runs i cbs s t := by
  rw [sslServerHandshake] at h
  cases hshake : w.handshake with
  | done =>
      simp only [hshake] at h
      obtain rfl := Option.some.inj h
      split_ifs
      · exact ⟨_, ((Mild.call s i (by decide) (by simp)).trans
          (.push _ (by simp [Frame.Of]))).runs⟩
      · exact ⟨_, (ioReadEnable_mild s i).runs⟩
  | wantRead =>
      simp only [hshake] at h
      obtain rfl := Option.some.inj h
      split_ifs
      · exact ⟨_, (Mild.setConn (.ioAdd _ .sslServerHandshake .read)).runs⟩
      · exact ⟨_, (Mild.refl i s).runs⟩
  | failed =>
      simp only [hshake] at h
      obtain ⟨-, hruns⟩ := ioClose_runs h
      exact hruns

theorem ioReadCb_runs (h : s.ioReadCb i w = some t) : ∃ cbs, Runs i cbs s t := by
  have hset : Mild i [] s (s.setIo i { s.io i with last_read_time := s.loop.cur_ms }) :=
    .setIo (.refl _)
  simp only [ioReadCb] at h
  cases hread : w.read with
  | closes =>
      simp only [hread] at h
      obtain ⟨-, cbs, hruns⟩ := ioClose_runs h
      exact ⟨_, hset.trans_runs hruns⟩
  | again =>
      simp only [hread] at h
      obtain rfl := Option.some.inj h
      exact ⟨_, hset.runs⟩
  | got =>
      simp only [hread] at h
      obtain rfl := Option.some.inj h
      split_ifs
      · exact ⟨_, (hset.trans ((Mild.call _ i (by decide) (by simp)).trans
          (.push _ (by simp [Frame.Of])))).runs⟩
      · exact ⟨_, hset.runs⟩

theorem writePart_runs (h : s.writePart i w = some t) : ∃ cbs, Runs i cbs s t := by
  rw [writePart] at h
  split_ifs at h
  · have hset : Mild i [] s (s.setIo i { s.io i with connect := false }) := .setIo (.refl _)
    obtain ⟨cbs, hruns⟩ := ioConnectCb_runs h
    exact ⟨_, hset.trans_runs hruns⟩
  · exact ioWriteCb_runs h
  · obtain rfl := Option.some.inj h
    exact ⟨_, (Mild.refl i s).runs⟩

theorem runIo_runs (h : s.runIo i w = some t) : ∃ cbs, Runs i cbs s t := by
  rw [runIo] at h
  cases hcb : (s.io i).cb with
  | none =>
      simp only [hcb] at h
      obtain rfl := Option.some.inj h
      exact ⟨_, (Mild.refl i s).runs⟩
  | some cb =>
      cases cb with
      | handleEvent =>
          simp only [hcb] at h
          obtain ⟨cbs, hruns⟩ := writePart_runs h
          exact ⟨_, (Mild.push s (by simp [Frame.Of])).trans_runs hruns⟩
      | ioWriteCb =>
          simp only [hcb] at h
          exact ioWriteCb_runs h
      | sslServerHandshake =>
          simp only [hcb] at h
          exact sslServerHandshake_runs h

theorem setTimeout_acts {kind : Timeout} {timeout : ℤ} {now : ℕ} {mem : Option ℕ} {c : Conn}
    (hmem : s.loop.memFree mem)
    (h : ioSetTimeoutOf kind i (s.conn i) timeout now mem = some c) :
    Acts i [] s (s.setConn i c) := by
  rw [ioSetTimeoutOf_timerCb] at h
  rcases ioSetTimeout_cases hmem h with ⟨-, rfl⟩ | ⟨x, hslot, hio, hreset⟩ | ⟨x, harms⟩
  · split_ifs with hkind
    · have hdisarms := ioRemoveTimeout_disarms kind (s.conn i)
      refine ⟨.setConn hdisarms.closed, ?_, by simp⟩
      rw [setConn_conn]
      exact .disarms kind (by rcases hkind with rfl | rfl <;> decide) hdisarms rfl
    · exact (Mild.setConn (Kept.refl _)).runs.acts
  · refine ⟨.setConn (congrArg Io.closed hio), ?_, by simp⟩
    rw [setConn_conn]
    exact .resets x (.inl ⟨kind, hslot⟩) (hio ▸ .refl _) hreset rfl
  · refine ⟨.setConn harms.closed, ?_, by simp⟩
    rw [setConn_conn]
    exact .arms kind x harms rfl

theorem removeTimeout_acts (s : LoopThread) (i : ℕ) {kind : Timeout} (hkind : kind ≠ .connect) :
    Acts i [] s (s.setConn i (ioRemoveTimeout kind (s.conn i))) := by
  have hdisarms := ioRemoveTimeout_disarms kind (s.conn i)
  refine ⟨.setConn hdisarms.closed, ?_, by simp⟩
  rw [setConn_conn]
  exact .disarms kind hkind hdisarms rfl

theorem ioConnect_acts {r : ConnectResult} {mem : Option ℕ} (h : s.ioConnect i r mem w = some t) :
    ∃ cbs, Acts i cbs s t := by
  cases r with
  | failed =>
      obtain rfl := Option.some.inj h
      exact ⟨[], (Mild.refl i s).runs.acts⟩
  | connected =>
      obtain ⟨cbs, hruns⟩ := ioConnectCb_runs h
      exact ⟨cbs, hruns.acts⟩
  | inProgress =>
      simp only [ioConnect, Option.ite_none_right_eq_some, Option.map_eq_some_iff] at h
      obtain ⟨hmem, c, hset, rfl⟩ := h
      have hset' : ioSetTimeoutOf .connect i (s.conn i) defaultConnectTimeout w.now mem = some c :=
        hset
      let u := s.setConn i c
      let v := u.setIo i { u.io i with connect := true }
      have huv : Mild i [] u v := .setIo (.refl _)
      have hmild := huv.trans (Mild.setConn (.ioAdd (v.conn i) .handleEvent .write))
      have hkept := hmild.kept
      have hu : u.conn i = c := setConn_conn s i c
      rw [hu] at hkept
      rw [ioSetTimeoutOf_timerCb] at hset'
      rcases ioSetTimeout_cases hmem hset' with ⟨hneg, -⟩ | ⟨x, hslot, hio, hreset⟩ | ⟨x, harms⟩
      · exact absurd hneg (by decide)
      · have hclosed : c.io.closed = (s.io i).closed := congrArg Io.closed hio
        refine ⟨[], (Touches.setConn hclosed).trans ?_ hmild.toTouches, ?_, by simp⟩
        · simp [setConn, setIo, hclosed]
        · have hsame : SameTimers (s.conn i).io c.io := hio ▸ .refl _
          exact .resets x (.inl ⟨.connect, hslot⟩) (hsame.trans hkept.toSameTimers)
            (hreset.kept hkept) rfl
      · have hclosed : c.io.closed = (s.io i).closed := harms.closed
        refine ⟨[], (Touches.setConn hclosed).trans ?_ hmild.toTouches, ?_, by simp⟩
        · simp [setConn, setIo, hclosed]
        · exact .arms .connect x (harms.kept hkept) rfl

/-! ## Timer callbacks -/

theorem inactive_acts {kind : Timeout} {last x : ℕ} (hprivdata : (s.loop.timer x).privdata = some i)
    (h : s.inactive i kind last x = some t) :
    ((t.io i).closed = true ∨ (t.loop.timer x).destory = false) ∧ ∃ cbs, Acts i cbs s t := by
  simp only [inactive] at h
  split_ifs at h
  · obtain ⟨loop, hloop, rfl⟩ := Option.map_eq_some_iff.mp h
    have hreset := resetTimer_reset hloop
    obtain ⟨next_timeout, hmemory⟩ := hreset.memory
    refine ⟨.inr ?_, [], ⟨rfl, fun _ _ => rfl, rfl, by simp, ⟨[], rfl, by simp⟩, id, by simp⟩, ?_,
      by simp⟩
    · simp [hmemory, Timer.reset]
    · exact .resets x (.inr hprivdata) (.refl _) hreset rfl
  · obtain ⟨hclosed, cbs, hruns⟩ := ioClose_runs h
    exact ⟨.inl hclosed, cbs, hruns.acts⟩

/-- What the callback of the timer `x` does: a timeout of an io closes the io or is reset. -/
inductive Fires (x : ℕ) (s t : LoopThread) : Prop where
  | user (hcb : ∀ kind, (s.loop.timer x).cb ≠ some (Timeout.timerCb kind))
      (h : t = s ∨ t = s.push [.user none])
  | io (i : ℕ) (kind : Timeout) (cbs : List IoCallback)
      (hprivdata : (s.loop.timer x).privdata = some i)
      (hcb : (s.loop.timer x).cb = some kind.timerCb)
      (h : Acts i cbs (s.call i (.timeout kind)) t)
      (hends : (t.io i).closed = true ∨ (t.loop.timer x).destory = false)

theorem runTimer_fires {x : ℕ} (h : s.runTimer x = some t) : Fires x s t := by
  have hclose : ∀ i kind, (s.loop.timer x).privdata = some i →
      (s.loop.timer x).cb = some kind.timerCb →
      (s.call i (.timeout kind)).ioClose i = some t → Fires x s t := by
    intro i kind hprivdata hcb h
    obtain ⟨hclosed, cbs, hruns⟩ := ioClose_runs h
    exact .io i kind cbs hprivdata hcb hruns.acts (.inl hclosed)
  have hinactive : ∀ i kind last, (s.loop.timer x).privdata = some i →
      (s.loop.timer x).cb = some kind.timerCb →
      (s.call i (.timeout kind)).inactive i kind last x = some t → Fires x s t := by
    intro i kind last hprivdata hcb h
    obtain ⟨hends, cbs, hacts⟩ := inactive_acts (s := s.call i (.timeout kind)) hprivdata h
    exact .io i kind cbs hprivdata hcb hacts hends
  rw [runTimer] at h
  cases hcb : (s.loop.timer x).cb with
  | none =>
      simp only [hcb] at h
      exact .user (by simp [hcb]) (.inl (Option.some.inj h).symm)
  | some cb =>
      cases hprivdata : (s.loop.timer x).privdata with
      | none =>
          cases cb <;> simp only [hcb, hprivdata] at h
          case user k =>
            refine .user (fun kind => ?_) (.inr (Option.some.inj h).symm)
            cases kind <;> simp [hcb, Timeout.timerCb]
          all_goals cases h
      | some i =>
          cases cb with
          | readTimeout =>
              simp only [hcb, hprivdata] at h
              exact hinactive i .read _ hprivdata hcb h
          | writerTimeout =>
              simp only [hcb, hprivdata] at h
              exact hinactive i .write _ hprivdata hcb h
          | closeTimeout =>
              simp only [hcb, hprivdata] at h
              exact hclose i .close hprivdata hcb h
          | connectTimeout =>
              simp only [hcb, hprivdata] at h
              exact hclose i .connect hprivdata hcb h
          | user k =>
              simp only [hcb] at h
              refine .user (fun kind => ?_) (.inr (Option.some.inj h).symm)
              cases kind <;> simp [hcb, Timeout.timerCb]

/-! ## New ios -/

/-- `get_io` in the block `i`. -/
def create (s : LoopThread) (i : ℕ) (io : LoopIo) : LoopThread :=
  { s with ios := insert i s.ios }.setIo i io

/-- The second half of `handle_event` is about the io, or about one that it accepts. -/
theorem readPart_runs (h : s.readPart i w = some t) :
    (∃ cbs, Runs i cbs s t) ∨
      ∃ j fd malloced settings cbs, j ∉ s.ios ∧
        Runs j cbs (s.create j (.new fd malloced settings)) t := by
  rw [readPart] at h
  split_ifs at h
  · simp only [ioAcceptCb] at h
    cases haccepted : w.accepted with
    | none =>
        simp only [haccepted] at h
        obtain rfl := Option.some.inj h
        exact .inl ⟨_, (Mild.refl i s).runs⟩
    | some conn_io =>
        obtain ⟨j, fd⟩ := conn_io
        simp only [haccepted, Option.ite_none_left_eq_some] at h
        obtain ⟨hnew, h⟩ := h
        by_cases hssl : (s.io i).type = .ssl
        · simp only [hssl, if_true] at h
          obtain ⟨cbs, hruns⟩ := sslServerHandshake_runs h
          exact .inr ⟨j, fd, w.malloced, _, cbs, hnew, hruns⟩
        · simp only [hssl, if_false, reduceCtorEq] at h
          split_ifs at h
          · obtain rfl := Option.some.inj h
            exact .inr ⟨j, fd, w.malloced, _, _, hnew, ((ioReadEnable_mild _ j).trans
              ((Mild.call _ j (by decide) (by simp)).trans (.push _ (by simp [Frame.Of])))).runs⟩
          · obtain rfl := Option.some.inj h
            exact .inr ⟨j, fd, w.malloced, _, _, hnew, (ioReadEnable_mild _ j).runs⟩
  · exact .inl (ioReadCb_runs h)
  · obtain rfl := Option.some.inj h
    exact .inl ⟨_, (Mild.refl i s).runs⟩

/-! ## Closed ios -/

/-- The io is closed, and no event is awaited for it. -/
structure Asleep (s : LoopThread) (i : ℕ) : Prop where
  closed : (s.io i).closed = true
  events : (s.io i).events = 0

/-- The io stays asleep and calls nothing. -/
structure Drowses (i : ℕ) (s t : LoopThread) : Prop extends Touches i [] s t where
  closed : (t.io i).closed = true
  close_cb : (t.io i).close_cb = (s.io i).close_cb
  events : (t.io i).events = 0
  memory : t.loop.timer = s.loop.timer
  heap : ∀ x ∈ t.loop.timers.array, x ∈ s.loop.timers.array

theorem Asleep.mild (h : Asleep s i) (hmild : Mild i [] s t)
    (hevents : (t.io i).events = (s.io i).events) : Drowses i s t := by
  have hheap : t.loop.timers = s.loop.timers := hmild.kept.heap
  exact ⟨hmild.toTouches, hmild.kept.closed.trans h.closed, hmild.kept.close_cb,
    hevents.trans h.events, hmild.kept.memory, fun x hx => hheap ▸ hx⟩

theorem Asleep.removeTimeout (h : Asleep s i) (kind : Timeout) :
    Drowses i s (s.setConn i (ioRemoveTimeout kind (s.conn i))) := by
  have hdisarms := ioRemoveTimeout_disarms kind (s.conn i)
  refine ⟨.setConn hdisarms.closed, ?_, ?_, ?_, hdisarms.memory, hdisarms.heap⟩
  · simpa [setConn, setIo] using hdisarms.closed.trans h.closed
  · have hclose_cb : (ioRemoveTimeout kind (s.conn i)).io.close_cb = (s.io i).close_cb :=
      hdisarms.close_cb
    simpa [setConn, setIo] using hclose_cb
  · simpa [setConn, setIo] using hdisarms.events.trans h.events

/-- A call that has no effects leaves a closed io asleep. -/
theorem Asleep.ran {α : Type} {r : Ran α} (h : Asleep s i) (hran : s.ran i r = some t)
    (houtcome : r.value ≠ none →
      Outcome (s.conn i) r ∧ r.effects = [] ∧ r.conn.io.events = (s.io i).events) :
    Drowses i s t := by
  obtain ⟨hvalue, hconn, hruns⟩ := ran_runs hran fun hvalue => (houtcome hvalue).1
  obtain ⟨-, heffects, hevents⟩ := houtcome hvalue
  rw [heffects] at hruns
  have hkept : Kept (s.conn i) (t.conn i) := by
    cases hruns.ends with
    | keeps hkept => exact hkept
    | shuts hshut => exact absurd (hshut.before.symm.trans h.closed) (by decide)
  refine h.mild ⟨hruns.toTouches, hkept, by simp⟩ ?_
  have heq : (t.conn i).io.events = (s.io i).events := hconn ▸ hevents
  exact heq

theorem Asleep.ioWriteCb (h : Asleep s i) (hrun : s.ioWriteCb i w = some t) : Drowses i s t := by
  refine h.ran hrun fun hvalue => ⟨ioWriteCb_outcome hvalue, ?_⟩
  rw [ioWriteCb_closed (c := s.conn i) h.closed]
  exact ⟨rfl, rfl⟩

theorem Asleep.ioClose (h : Asleep s i) (hrun : s.ioClose i = some t) : Drowses i s t := by
  refine h.ran hrun fun hvalue => ?_
  have hfree : (s.conn i).io.write_mutex = false := by
    by_contra hheld
    exact hvalue (by rw [ioClose_held (by simpa using hheld)])
  refine ⟨ioClose_outcome hfree, ?_⟩
  rw [ioClose_closed (c := s.conn i) h.closed hfree]
  exact ⟨rfl, rfl⟩

theorem Asleep.ioWrite {buf : List UInt8} {r : WriteResult} {now : ℕ} (h : Asleep s i)
    (hrun : s.ran i (LibConn.ioWrite (s.conn i) buf r now) = some t) : Drowses i s t := by
  refine h.ran hrun fun hvalue => ⟨ioWrite_outcome hvalue, ?_⟩
  have hfree : (s.conn i).io.write_mutex = false := by
    by_contra hheld
    exact hvalue (by simp [LibConn.ioWrite, hheld])
  rw [ioWrite_closed (c := s.conn i) h.closed hfree]
  exact ⟨rfl, rfl⟩

theorem Asleep.readPart (h : Asleep s i) (hrun : s.readPart i w = some t) : t = s := by
  rw [LoopThread.readPart, h.events, if_neg (by simp)] at hrun
  exact (Option.some.inj hrun).symm

theorem Asleep.runIo (h : Asleep s i) (hcb : (s.io i).cb ≠ some .sslServerHandshake)
    (hrun : s.runIo i w = some t) : Drowses i s t := by
  rw [LoopThread.runIo] at hrun
  cases hevent : (s.io i).cb with
  | none =>
      simp only [hevent] at hrun
      obtain rfl := Option.some.inj hrun
      exact h.mild (.refl i s) rfl
  | some cb =>
      cases cb with
      | handleEvent =>
          have hevents : ((s.push [.readPart i]).io i).events = 0 := h.events
          simp only [hevent, writePart] at hrun
          rw [hevents, if_neg (by simp)] at hrun
          obtain rfl := Option.some.inj hrun
          exact h.mild (.push s (by simp [Frame.Of])) rfl
      | ioWriteCb =>
          simp only [hevent] at hrun
          exact h.ioWriteCb hrun
      | sslServerHandshake => exact absurd hevent hcb

end LoopThread

end LibConn
