import LibConn.Model.IoTable

/-! # Creations that fail

A `create_` function that fails behind `get_io` calls `free_io`, which frees the buffers of the
io only. -/

namespace LibConn

/-- The loop is as before, and the socket that the call has opened is closed. -/
structure Untouched (p q : Process) (l : ℕ) (socket : ℤ) : Prop where
  io_array : (q.loop l).io_array = (p.loop l).io_array
  io_num : (q.loop l).io_num = (p.loop l).io_num
  timers : (q.loop l).timers = (p.loop l).timers
  epoll : (q.loop l).epoll = (p.loop l).epoll
  closed : ∀ fd : ℕ, socket = fd → fd ∉ q.fds

namespace Process

variable {p q : Process} {i l : ℕ} {w : CreateWorld}

/-! ## The counter -/

@[simp] theorem setIo_loop (io : TableIo) : (p.setIo i io).loop = p.loop := rfl

@[simp] theorem setConn_io_num (c : Conn) :
    ((p.setConn i c).loop l).io_num = (p.loop l).io_num := by
  rcases eq_or_ne l (p.io i).loop with rfl | hne
  · simp [setConn, setLoop]
  · simp [setConn, setLoop, hne]

@[simp] theorem freeIo_io_num : ((p.freeIo i).loop l).io_num = (p.loop l).io_num := by
  simp [freeIo]

@[simp] theorem openFd_loop (fd : ℤ) : (p.openFd fd).loop = p.loop := by
  rw [openFd]
  split_ifs <;> rfl

@[simp] theorem openFd_loops (fd : ℤ) : (p.openFd fd).loops = p.loops := by
  rw [openFd]
  split_ifs <;> rfl

@[simp] theorem openFd_ios (fd : ℤ) : (p.openFd fd).ios = p.ios := by
  rw [openFd]
  split_ifs <;> rfl

@[simp] theorem openFd_io (fd : ℤ) : (p.openFd fd).io = p.io := by
  rw [openFd]
  split_ifs <;> rfl

theorem getIo_counted {fd : ℤ} {mem : GetIoMem} {o : Option ℕ} (h : p.getIo l fd mem = (q, o)) :
    mem.io = none ∧ q = p ∧ o = none ∨
      mem.io ≠ none ∧ (q.loop l).io_num = u32 ((p.loop l).io_num + 1) := by
  rw [getIo] at h
  cases hio : mem.io with
  | none =>
      rw [hio] at h
      obtain ⟨rfl, rfl⟩ := Prod.mk.inj h
      exact .inl ⟨rfl, rfl, rfl⟩
  | some i =>
      rw [hio] at h
      obtain ⟨rfl, -⟩ := Prod.mk.inj h
      refine .inr ⟨by simp, ?_⟩
      simp [register, setLoop, access]

/-! ## Failures -/

theorem ioConnect_failed {ret : ℤ} (h : p.ioConnect i w = some (q, ret)) (hret : ret ≠ 0) :
    q = p := by
  rw [ioConnect] at h
  split_ifs at h with haddr
  · exact (Prod.mk.inj (Option.some.inj h)).1.symm
  · cases hconnect : w.connect with
    | failed =>
        rw [hconnect] at h
        exact (Prod.mk.inj (Option.some.inj h)).1.symm
    | connected =>
        rw [hconnect] at h
        obtain ⟨_, -, heq⟩ := Option.map_eq_some_iff.mp h
        exact absurd (Prod.mk.inj heq).2.symm hret
    | inProgress =>
        rw [hconnect] at h
        obtain ⟨_, -, heq⟩ := Option.map_eq_some_iff.mp h
        exact absurd (Prod.mk.inj heq).2.symm hret

theorem createClient_null {type : IoType} {connect_cb close_cb : Bool}
    (h : p.createClient type l connect_cb close_cb w = some (q, none)) :
    w.mem.io = none ∧ q = p.openFd w.socket ∨
      w.mem.io ≠ none ∧ (q.loop l).io_num = u32 ((p.loop l).io_num + 1) := by
  rw [createClient] at h
  generalize hget : (p.openFd w.socket).getIo l w.socket w.mem = got at h
  obtain ⟨r, o⟩ := got
  have hcounted := getIo_counted hget
  rw [openFd_loop] at hcounted
  cases o with
  | none =>
      obtain ⟨rfl, -⟩ := Prod.mk.inj (Option.some.inj h)
      exact hcounted.imp_left fun hnone => ⟨hnone.1, hnone.2.1⟩
  | some i =>
      obtain ⟨⟨r', ret⟩, hconnect, heq⟩ := Option.map_eq_some_iff.mp h
      dsimp only at heq
      split_ifs at heq with hret
      · rw [ioConnect_failed hconnect hret] at heq
        obtain ⟨rfl, -⟩ := Prod.mk.inj heq
        rcases hcounted with ⟨-, -, hnone⟩ | hcounted
        · cases hnone
        · exact .inr (by simpa using hcounted)
      · cases (Prod.mk.inj heq).2

theorem createServer_null {type : IoType} {accept_cb : Bool} {thread_num : ℤ}
    (h : p.createServer type l accept_cb thread_num w = some (q, none)) :
    w.mem.io = none ∧ q = p.openFd w.socket ∨
      w.mem.io ≠ none ∧ (q.loop l).io_num = u32 ((p.loop l).io_num + 1) := by
  rw [createServer] at h
  generalize hget : (p.openFd w.socket).getIo l w.socket w.mem = got at h
  obtain ⟨r, o⟩ := got
  have hcounted := getIo_counted hget
  rw [openFd_loop] at hcounted
  cases o with
  | none =>
      obtain ⟨rfl, -⟩ := Prod.mk.inj (Option.some.inj h)
      exact hcounted.imp_left fun hnone => ⟨hnone.1, hnone.2.1⟩
  | some i =>
      have hnum := hcounted.resolve_left fun hnone => (by cases hnone.2.2)
      refine .inr ⟨hnum.1, ?_⟩
      rw [← hnum.2]
      dsimp only at h
      split_ifs at h
      all_goals
        obtain ⟨rfl, hnull⟩ := Prod.mk.inj (Option.some.inj h)
      · simp
      · simp
      · simp
      · cases hnull

theorem create_null {creation : Creation} (h : p.create l w creation = some (q, none)) :
    w.mem.io = none ∧ q = p.openFd w.socket ∨
      w.mem.io ≠ none ∧ (q.loop l).io_num = u32 ((p.loop l).io_num + 1) := by
  cases creation with
  | tcpClient connect_cb close_cb => exact createClient_null h
  | sslClient connect_cb close_cb => exact createClient_null h
  | tcpServer accept_cb thread_num => exact createServer_null h
  | sslServer accept_cb thread_num => exact createServer_null h

theorem u32_succ_ne (n : ℕ) : u32 (n + 1) ≠ n := by
  rw [u32]
  omega

end Process

/-- A creation that returns `NULL` leaves its loop untouched only where there was nothing to
undo: no socket, and no memory for the io. -/
theorem untouched_iff {p q : Process} {l : ℕ} {w : CreateWorld} {creation : Creation}
    (h : p.create l w creation = some (q, none)) :
    Untouched p q l w.socket ↔ w.mem.io = none ∧ w.socket < 0 := by
  constructor
  · intro huntouched
    rcases Process.create_null h with ⟨hnone, rfl⟩ | ⟨-, hcounted⟩
    · refine ⟨hnone, ?_⟩
      by_contra hsocket
      refine huntouched.closed w.socket.toNat (by omega) ?_
      rw [Process.openFd, if_neg hsocket]
      exact Finset.mem_insert_self _ _
    · exact absurd (hcounted.symm.trans huntouched.io_num) (Process.u32_succ_ne _)
  · rintro ⟨hnone, hsocket⟩
    rcases Process.create_null h with ⟨-, rfl⟩ | ⟨hio, -⟩
    · rw [Process.openFd, if_pos hsocket]
      exact ⟨rfl, rfl, rfl, rfl, fun fd hfd => by omega⟩
    · exact absurd hnone hio

/-- A process with one loop, and nothing in it. -/
def oneLoop : Process where
  loops := {1}
  loop := fun _ =>
    { toLoop := loopInit 0 0 (fun _ => Timer.zero) fun _ => none
      io_array := fun _ => none
      io_num := 0
      io_maxsize := 1024 }
  ios := ∅
  io := fun _ => Process.newIo 0 0 ⟨none, false, fun _ => 0⟩
  fds := {0, 1, 2}
  accesses := []

/-- A client whose socket is 3. -/
def refused : CreateWorld where
  socket := 3
  mem := ⟨some 7, true, fun _ => 0⟩
  addr := true
  connect := .failed
  getpeername := true
  sslConnect := .done
  timer := none
  now := 0
  pool := true
  setsockopt := true
  bind := true
  listen := true

theorem untouched_noSocket : Untouched oneLoop oneLoop 1 (-1) :=
  (@untouched_iff oneLoop oneLoop 1
    { refused with socket := -1, mem := ⟨none, false, fun _ => 0⟩ } (.tcpClient true true)
    rfl).mpr ⟨rfl, by decide⟩

/-- A client whose `connect` is refused. -/
theorem not_untouched_refused :
    ∃ q, oneLoop.create 1 refused (.tcpClient true true) = some (q, none) ∧
      ¬ Untouched oneLoop q 1 refused.socket := by
  refine ⟨_, rfl, fun h => ?_⟩
  exact absurd h.io_num (by decide)

end LibConn
