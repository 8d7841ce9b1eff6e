import LibConn.Verification.Io.Calls
import LibConn.Verification.Table.Creation
import Mathlib.Data.Finset.Card

/-! # The io table over whole runs

`io_array` and `io_num` start with what `malloc` left, the table has one place for each of 1024
descriptors, and nothing takes an io out of it. -/

namespace LibConn

open LibConn.Run

namespace Process

/-- The ios of a loop that are set up and neither closed nor freed. -/
def openIos (p : Process) (l : ℕ) : Finset ℕ :=
  p.ios.filter fun i => (p.io i).loop = l ∧ (p.io i).live = true ∧ (p.io i).closed = false

end Process

/-- Accesses stay in bounds, `io_num` counts the open ios of its loop, and an entry is an open
io with its descriptor. -/
structure TableSound (p : Process) : Prop where
  bounds : ∀ access ∈ p.accesses, 0 ≤ access.1 ∧ access.1 < access.2
  count : ∀ l ∈ p.loops, (p.loop l).io_num = (p.openIos l).card
  entries : ∀ l ∈ p.loops, ∀ fd : ℤ, 0 ≤ fd → fd < (p.loop l).io_maxsize →
    ∀ i, (p.loop l).io_array fd = some i → i ∈ p.openIos l ∧ (p.io i).fd = fd

/-- What is called behind `get_io` does not fail. -/
def CreateWorld.Succeeds (w : CreateWorld) : Creation → Prop
  | .tcpClient _ _ => w.addr = true ∧ w.connect ≠ .failed ∧
      (w.connect = .connected → w.getpeername = true)
  | .sslClient _ _ => w.addr = true ∧ w.connect ≠ .failed ∧
      (w.connect = .connected → w.getpeername = true ∧ w.sslConnect ≠ .failed)
  | .tcpServer _ _ => w.setsockopt = true ∧ w.bind = true ∧ w.listen = true
  | .sslServer _ _ => w.setsockopt = true ∧ w.bind = true ∧ w.listen = true

/-- A loop starts in memory that is zero; descriptors are below 1024; an io that has memory is
set up to the end, also where that is done later; no open io is closed. -/
def TableGuard (p : Process) : TableAction → Prop
  | .init _ w => w.loop = true → w.array = true →
      (∀ fd : ℤ, 0 ≤ fd → fd < 1024 → w.io_array fd = none) ∧ w.io_num = 0 ∧
        ∃ fd₀ fd₁, w.pipe = some (fd₀, fd₁) ∧ fd₀ < 1024
  | .create _ w creation => w.mem.io ≠ none →
      0 ≤ w.socket ∧ w.socket < 1024 ∧ w.mem.buffers = true ∧ w.Succeeds creation
  | .accept i _ w => w.conn_fd < 1024 ∧ ((p.io i).type = .ssl → w.handshake ≠ .failed)
  | .close i => (p.io i).live = false ∨ (p.io i).closed = true
  | .connected i w => w.getpeername = true ∧ ((p.io i).type = .ssl → w.sslConnect ≠ .failed)
  | .handshake _ handshake => handshake ≠ .failed
  | _ => True

/-- All ios are open and entered under their descriptors, which are theirs alone. -/
structure Tabled (p : Process) : Prop where
  alive : ∀ i ∈ p.ios, (p.io i).live = true ∧ (p.io i).closed = false
  home : ∀ i ∈ p.ios, (p.io i).loop ∈ p.loops
  size : ∀ l ∈ p.loops, (p.loop l).io_maxsize = 1024
  inRange : ∀ i ∈ p.ios, 0 ≤ (p.io i).fd ∧ (p.io i).fd < 1024
  found : ∀ i ∈ p.ios, (p.loop (p.io i).loop).io_array (p.io i).fd = some i
  kernel : ∀ i ∈ p.ios, (p.io i).fd.toNat ∈ p.fds
  entries : ∀ l ∈ p.loops, ∀ fd : ℤ, 0 ≤ fd → fd < 1024 →
    ∀ i, (p.loop l).io_array fd = some i → i ∈ p.ios ∧ (p.io i).loop = l ∧ (p.io i).fd = fd
  num : ∀ l ∈ p.loops, (p.loop l).io_num = (p.ios.filter fun i => (p.io i).loop = l).card
  bounds : ∀ access ∈ p.accesses, 0 ≤ access.1 ∧ access.1 < access.2
  interest : ∀ l ∈ p.loops, ∀ fd, (p.loop l).epoll fd ≠ none → 0 ≤ fd ∧ fd < 1024

variable {p q : Process} {i j l : ℕ} {fd : ℤ}

theorem Tabled.mem_openIos (h : Tabled p) :
    i ∈ p.openIos l ↔ i ∈ p.ios ∧ (p.io i).loop = l := by
  rw [Process.openIos, Finset.mem_filter]
  constructor
  · rintro ⟨hi, hl, -⟩
    exact ⟨hi, hl⟩
  · rintro ⟨hi, hl⟩
    exact ⟨hi, hl, h.alive i hi⟩

theorem Tabled.sound (h : Tabled p) : TableSound p := by
  refine ⟨h.bounds, fun l hl => ?_, fun l hl fd h₀ h₁ i hentry => ?_⟩
  · rw [h.num l hl]
    congr 1
    ext i
    rw [h.mem_openIos, Finset.mem_filter]
  · rw [h.size l hl] at h₁
    obtain ⟨hi, hloop, hfd⟩ := h.entries l hl fd h₀ h₁ i hentry
    exact ⟨h.mem_openIos.mpr ⟨hi, hloop⟩, hfd⟩

theorem Tabled.card_le (h : Tabled p) (l : ℕ) :
    (p.ios.filter fun i => (p.io i).loop = l).card ≤ 1024 := by
  have hinto : ∀ i ∈ p.ios.filter fun i => (p.io i).loop = l,
      (p.io i).fd.toNat ∈ Finset.range 1024 := by
    intro i hi
    obtain ⟨h₀, h₁⟩ := h.inRange i (Finset.mem_filter.mp hi).1
    rw [Finset.mem_range]
    omega
  have hcard := Finset.card_le_card_of_injOn (fun i => (p.io i).fd.toNat) hinto ?_
  · rwa [Finset.card_range] at hcard
  · intro i hi j hj heq
    obtain ⟨hi, hli⟩ := Finset.mem_filter.mp hi
    obtain ⟨hj, hlj⟩ := Finset.mem_filter.mp hj
    have hfd : (p.io i).fd = (p.io j).fd := by
      have hi₀ := (h.inRange i hi).1
      have hj₀ := (h.inRange j hj).1
      dsimp only at heq
      omega
    have hfound := h.found i hi
    rw [hli, hfd, ← hlj, h.found j hj] at hfound
    exact (Option.some.inj hfound).symm

/-! ## What leaves the table alone -/

section Calls

variable {c c' : Conn} {event : Mask}

theorem epollCtl_some {set new : EpollSet} {op : EpollOp} {events : Mask}
    (h : epollCtl set op fd events = some new) :
    (∀ fd', fd' ≠ fd → new fd' = set fd') ∧ (op = .del → new fd = none) := by
  have hupdate : ∀ mask, Function.update set fd mask = new → (op = .del → mask = none) →
      (∀ fd', fd' ≠ fd → new fd' = set fd') ∧ (op = .del → new fd = none) := by
    rintro mask rfl hmask
    exact ⟨fun fd' hne => Function.update_of_ne hne _ _,
      fun hop => (Function.update_self ..).trans (hmask hop)⟩
  simp only [epollCtl, Option.ite_none_left_eq_some] at h
  obtain ⟨-, h⟩ := h
  cases op with
  | add =>
      cases hset : set fd with
      | none => exact hupdate _ (by simpa [hset] using h) (by simp)
      | some mask => simp [hset] at h
  | mod =>
      cases hset : set fd with
      | none => simp [hset] at h
      | some mask => exact hupdate _ (by simpa [hset] using h) (by simp)
  | del =>
      cases hset : set fd with
      | none => simp [hset] at h
      | some mask => exact hupdate none (by simpa [hset] using h) fun _ => rfl

theorem epollAdd_ne_none {set : EpollSet} {fd' : ℤ}
    (h : (epollAdd set fd event).getD set fd' ≠ none) : set fd' ≠ none ∨ fd' = fd := by
  cases hnew : epollAdd set fd event with
  | none =>
      rw [hnew] at h
      exact .inl h
  | some new =>
      rw [hnew, Option.getD_some] at h
      by_cases hfd : fd' = fd
      · exact .inr hfd
      · rw [(epollCtl_some hnew).1 fd' hfd] at h
        exact .inl h

theorem epollDel_ne_none {set : EpollSet} {fd' : ℤ}
    (h : (epollDel set fd event).getD set fd' ≠ none) : set fd' ≠ none := by
  cases hnew : epollDel set fd event with
  | none =>
      rw [hnew] at h
      exact h
  | some new =>
      rw [hnew, Option.getD_some] at h
      by_cases hfd : fd' = fd
      · rw [hfd, (epollCtl_some hnew).2 rfl] at h
        exact absurd rfl h
      · rwa [(epollCtl_some hnew).1 fd' hfd] at h

theorem ioAdd_epoll (cb : EventCb) (h : (ioAdd c cb event).loop.epoll fd ≠ none) :
    c.loop.epoll fd ≠ none ∨ fd = c.io.fd := by
  rw [ioAdd] at h
  dsimp only at h
  split_ifs at h
  · exact epollAdd_ne_none h
  · exact .inl h

theorem ioDel_epoll (h : (ioDel c event).loop.epoll fd ≠ none) : c.loop.epoll fd ≠ none := by
  rw [ioDel] at h
  split_ifs at h
  · exact epollDel_ne_none h
  · exact h

theorem resetTimer_epoll {loop loop' : Loop} {t : ℕ} {timeout : ℤ}
    (h : resetTimer loop t timeout = some loop') : loop'.epoll = loop.epoll := by
  rw [resetTimer, Option.ite_none_right_eq_some] at h
  obtain rfl := Option.some.inj h.2
  dsimp only [eventReset, Loop.setTimer, Loop.insertTimer]
  split_ifs <;> rfl

theorem addTimer_epoll {loop loop' : Loop} {timeout : ℤ} {cb : Option TimerCb}
    {repeats now t : ℕ} {mem : Option ℕ}
    (h : addTimer loop timeout cb repeats now mem = (some t, loop')) :
    loop'.epoll = loop.epoll := by
  unfold addTimer at h
  by_cases hzero : timeout = 0
  · rw [if_pos hzero] at h
    cases (Prod.mk.inj h).1
  · rw [if_neg hzero] at h
    cases mem with
    | none => cases (Prod.mk.inj h).1
    | some _ =>
        obtain ⟨-, rfl⟩ := Prod.mk.inj h
        rfl

theorem ioSetConnectTimeout_frame {self : ℕ} {timeout : ℤ} {now : ℕ} {mem : Option ℕ}
    (h : ioSetConnectTimeout self c timeout now mem = some c') :
    c'.io.fd = c.io.fd ∧ c'.io.closed = c.io.closed ∧ c'.loop.epoll = c.loop.epoll := by
  rw [ioSetConnectTimeout, ioSetTimeout] at h
  split_ifs at h
  · obtain rfl := Option.some.inj h
    exact ⟨rfl, rfl, rfl⟩
  · cases htimer : c.io.timer .connect with
    | some t =>
        rw [htimer] at h
        obtain ⟨loop, hloop, rfl⟩ := Option.map_eq_some_iff.mp h
        exact ⟨rfl, rfl, resetTimer_epoll hloop⟩
    | none =>
        rw [htimer] at h
        dsimp only at h
        generalize hadd : addTimer c.loop timeout (some .connectTimeout) 1 now mem = added at h
        obtain ⟨_ | t, loop⟩ := added
        · cases h
        · have hepoll := addTimer_epoll hadd
          obtain rfl := Option.some.inj h
          exact ⟨rfl, rfl, hepoll⟩

end Calls

/-- The tables are the same, and so are the descriptors and the state of the ios. Only
descriptors of ios are new in an interest list. -/
structure SameTable (p q : Process) : Prop where
  loops : q.loops = p.loops
  ios : q.ios = p.ios
  fds : q.fds = p.fds
  accesses : q.accesses = p.accesses
  fd : ∀ i, (q.io i).fd = (p.io i).fd
  closed : ∀ i, (q.io i).closed = (p.io i).closed
  live : ∀ i, (q.io i).live = (p.io i).live
  loop : ∀ i, (q.io i).loop = (p.io i).loop
  array : ∀ l, (q.loop l).io_array = (p.loop l).io_array
  num : ∀ l, (q.loop l).io_num = (p.loop l).io_num
  size : ∀ l, (q.loop l).io_maxsize = (p.loop l).io_maxsize
  interest : ∀ l fd, (q.loop l).epoll fd ≠ none →
    (p.loop l).epoll fd ≠ none ∨ ∃ i ∈ p.ios, (p.io i).loop = l ∧ fd = (p.io i).fd

theorem SameTable.trans {r : Process} (h : SameTable p q) (h' : SameTable q r) :
    SameTable p r := by
  refine ⟨h'.loops.trans h.loops, h'.ios.trans h.ios, h'.fds.trans h.fds,
    h'.accesses.trans h.accesses, fun i => (h'.fd i).trans (h.fd i),
    fun i => (h'.closed i).trans (h.closed i), fun i => (h'.live i).trans (h.live i),
    fun i => (h'.loop i).trans (h.loop i), fun l => (h'.array l).trans (h.array l),
    fun l => (h'.num l).trans (h.num l), fun l => (h'.size l).trans (h.size l), ?_⟩
  intro l fd hfd
  rcases h'.interest l fd hfd with hold | ⟨i, hi, hl, heq⟩
  · exact h.interest l fd hold
  · exact .inr ⟨i, h.ios ▸ hi, (h.loop i).symm.trans hl, heq.trans (h.fd i)⟩

theorem SameTable.tabled (h : SameTable p q) (hp : Tabled p) : Tabled q := by
  refine ⟨?_, ?_, ?_, ?_, ?_, ?_, ?_, ?_, ?_, ?_⟩
  · intro i hi
    rw [h.live, h.closed]
    exact hp.alive i (h.ios ▸ hi)
  · intro i hi
    rw [h.loop, h.loops]
    exact hp.home i (h.ios ▸ hi)
  · intro l hl
    rw [h.size]
    exact hp.size l (h.loops ▸ hl)
  · intro i hi
    rw [h.fd]
    exact hp.inRange i (h.ios ▸ hi)
  · intro i hi
    rw [h.loop, h.array, h.fd]
    exact hp.found i (h.ios ▸ hi)
  · intro i hi
    rw [h.fd, h.fds]
    exact hp.kernel i (h.ios ▸ hi)
  · intro l hl fd h₀ h₁ i hentry
    rw [h.array] at hentry
    rw [h.ios, h.loop, h.fd]
    exact hp.entries l (h.loops ▸ hl) fd h₀ h₁ i hentry
  · intro l hl
    simp only [h.num, h.ios, h.loop]
    exact hp.num l (h.loops ▸ hl)
  · rw [h.accesses]
    exact hp.bounds
  · intro l hl fd hfd
    rw [h.loops] at hl
    rcases h.interest l fd hfd with hold | ⟨i, hi, -, rfl⟩
    · exact hp.interest l hl fd hold
    · exact hp.inRange i hi

theorem SameTable.setIo {io : TableIo} (hfd : io.fd = (p.io i).fd)
    (hclosed : io.closed = (p.io i).closed) (hlive : io.live = (p.io i).live)
    (hloop : io.loop = (p.io i).loop) : SameTable p (p.setIo i io) := by
  have hio : ∀ {α : Type} (member : TableIo → α), member io = member (p.io i) →
      ∀ j, member ((p.setIo i io).io j) = member (p.io j) := by
    intro α member hsame j
    rcases eq_or_ne j i with rfl | hne
    · simpa [Process.setIo] using hsame
    · simp [Process.setIo, hne]
  exact ⟨rfl, rfl, rfl, rfl, hio (fun io => io.fd) hfd, hio (fun io => io.closed) hclosed,
    hio (fun io => io.live) hlive, hio (fun io => io.loop) hloop, fun _ => rfl, fun _ => rfl,
    fun _ => rfl, fun _ _ h => .inl h⟩

theorem SameTable.setConn {c : Conn} (hi : i ∈ p.ios) (hfd : c.io.fd = (p.io i).fd)
    (hclosed : c.io.closed = (p.io i).closed)
    (hepoll : ∀ fd, c.loop.epoll fd ≠ none →
      (p.loop (p.io i).loop).epoll fd ≠ none ∨ fd = (p.io i).fd) :
    SameTable p (p.setConn i c) := by
  have hloop : SameTable p
      (p.setLoop (p.io i).loop { p.loop (p.io i).loop with toLoop := c.loop }) := by
    refine ⟨rfl, rfl, rfl, rfl, fun _ => rfl, fun _ => rfl, fun _ => rfl, fun _ => rfl, ?_, ?_, ?_,
      fun l fd h => ?_⟩
    · exact fun l => by rcases eq_or_ne l (p.io i).loop with rfl | hne <;> simp [Process.setLoop, *]
    · exact fun l => by rcases eq_or_ne l (p.io i).loop with rfl | hne <;> simp [Process.setLoop, *]
    · exact fun l => by rcases eq_or_ne l (p.io i).loop with rfl | hne <;> simp [Process.setLoop, *]
    · rcases eq_or_ne l (p.io i).loop with rfl | hne
      · simp only [Process.setLoop, Function.update_self] at h
        exact (hepoll fd h).imp_right fun heq => ⟨i, hi, rfl, heq⟩
      · simp only [Process.setLoop, Function.update_of_ne hne] at h
        exact .inl h
  exact hloop.trans (.setIo hfd hclosed rfl rfl)

/-! ## What enters the table -/

theorem Tabled.openFd (h : Tabled p) (fd : ℤ) : Tabled (p.openFd fd) := by
  rw [Process.openFd]
  split_ifs
  · exact h
  · exact ⟨h.alive, h.home, h.size, h.inRange, h.found,
      fun i hi => Finset.mem_insert_of_mem (h.kernel i hi), h.entries, h.num, h.bounds, h.interest⟩

theorem openFd_subset (fd : ℤ) : p.fds ⊆ (p.openFd fd).fds := by
  rw [Process.openFd]
  split_ifs
  · exact Finset.Subset.refl _
  · exact Finset.subset_insert _ _

theorem mem_openFd (h₀ : 0 ≤ fd) : fd.toNat ∈ (p.openFd fd).fds := by
  rw [Process.openFd, if_neg (Int.not_lt.mpr h₀)]
  exact Finset.mem_insert_self _ _

/-- The process with the new io `i` of the loop `l`. -/
def Process.entered (p : Process) (l : ℕ) (fd : ℤ) (mem : GetIoMem) (i : ℕ) : Process :=
  ({ p with ios := insert i p.ios }.setIo i (Process.newIo l fd mem)).register l fd i

theorem entered_io_of_ne {mem : GetIoMem} (hne : j ≠ i) :
    (p.entered l fd mem i).io j = p.io j := by
  simp [Process.entered, Process.register, Process.setLoop, Process.access, Process.setIo, hne]

@[simp] theorem entered_io {mem : GetIoMem} :
    (p.entered l fd mem i).io i = Process.newIo l fd mem := by
  simp [Process.entered, Process.register, Process.setLoop, Process.access, Process.setIo]

theorem entered_loop_of_ne {mem : GetIoMem} {l' : ℕ} (hne : l' ≠ l) :
    (p.entered l fd mem i).loop l' = p.loop l' := by
  simp [Process.entered, Process.register, Process.setLoop, Process.access, Process.setIo, hne]

@[simp] theorem entered_loop {mem : GetIoMem} :
    (p.entered l fd mem i).loop l = { p.loop l with
      io_array := Function.update (p.loop l).io_array fd (some i)
      io_num := u32 ((p.loop l).io_num + 1) } := by
  simp [Process.entered, Process.register, Process.setLoop, Process.access, Process.setIo]

theorem Tabled.entered_found (h : Tabled p) (hfree : ∀ j ∈ p.ios, (p.io j).fd ≠ fd)
    {mem : GetIoMem} (hj : j ∈ p.ios) :
    ((p.entered l fd mem i).loop (p.io j).loop).io_array (p.io j).fd = some j := by
  rcases eq_or_ne (p.io j).loop l with hloop | hne
  · rw [hloop, entered_loop]
    dsimp only
    rw [Function.update_of_ne (hfree j hj), ← hloop]
    exact h.found j hj
  · rw [entered_loop_of_ne hne]
    exact h.found j hj

theorem Tabled.entered_num (h : Tabled p) (hl : l ∈ p.loops) (hnew : i ∉ p.ios) {mem : GetIoMem} :
    ∀ l' ∈ p.loops, ((p.entered l fd mem i).loop l').io_num =
      ((insert i p.ios).filter fun j => ((p.entered l fd mem i).io j).loop = l').card := by
  intro l' hl'
  have hothers : (p.ios.filter fun j => ((p.entered l fd mem i).io j).loop = l') =
      p.ios.filter fun j => (p.io j).loop = l' := by
    refine Finset.filter_congr fun j hj => ?_
    have hne : j ≠ i := fun heq => hnew (heq ▸ hj)
    rw [entered_io_of_ne hne]
  rw [Finset.filter_insert, hothers, entered_io]
  rcases eq_or_ne l' l with rfl | hne
  · have hnone : i ∉ p.ios.filter fun j => (p.io j).loop = l' :=
      fun hmem => hnew (Finset.mem_filter.mp hmem).1
    rw [if_pos (show (Process.newIo l' fd mem).loop = l' from rfl),
      Finset.card_insert_of_notMem hnone, entered_loop]
    dsimp only
    have hle := h.card_le l'
    rw [h.num l' hl', u32]
    omega
  · rw [if_neg (show (Process.newIo l fd mem).loop ≠ l' from hne.symm), entered_loop_of_ne hne]
    exact h.num l' hl'

theorem forall_entered {P : ℕ → TableIo → Prop} {mem : GetIoMem} (hnew : i ∉ p.ios)
    (hself : P i (Process.newIo l fd mem)) (hothers : ∀ j ∈ p.ios, P j (p.io j)) :
    ∀ j ∈ insert i p.ios, P j ((p.entered l fd mem i).io j) := by
  intro j hj
  rcases Finset.mem_insert.mp hj with rfl | hj
  · rw [entered_io]
    exact hself
  · have hne : j ≠ i := fun heq => hnew (heq ▸ hj)
    rw [entered_io_of_ne hne]
    exact hothers j hj

theorem Tabled.entered (h : Tabled p) (hl : l ∈ p.loops) {mem : GetIoMem} (hnew : i ∉ p.ios)
    (hbuffers : mem.buffers = true) (h₀ : 0 ≤ fd) (h₁ : fd < 1024) (hopen : fd.toNat ∈ p.fds)
    (hfree : ∀ j ∈ p.ios, (p.io j).fd ≠ fd) : Tabled (p.entered l fd mem i) := by
  have hne : ∀ j ∈ p.ios, j ≠ i := fun j hj heq => hnew (heq ▸ hj)
  refine ⟨?_, ?_, ?_, ?_, ?_, ?_, ?_, h.entered_num hl hnew, ?_, ?_⟩
  · exact forall_entered (P := fun _ io => io.live = true ∧ io.closed = false) hnew
      ⟨hbuffers, rfl⟩ h.alive
  · exact forall_entered (P := fun _ io => io.loop ∈ p.loops) hnew hl h.home
  · intro l' hl'
    rcases eq_or_ne l' l with rfl | hloop
    · rw [entered_loop]
      exact h.size l' hl'
    · rw [entered_loop_of_ne hloop]
      exact h.size l' hl'
  · exact forall_entered (P := fun _ io => 0 ≤ io.fd ∧ io.fd < 1024) hnew ⟨h₀, h₁⟩ h.inRange
  · refine forall_entered
      (P := fun j io => ((p.entered l fd mem i).loop io.loop).io_array io.fd = some j)
      hnew ?_ fun j hj => h.entered_found hfree hj
    dsimp only [Process.newIo, getIo]
    rw [entered_loop]
    exact Function.update_self ..
  · exact forall_entered (P := fun _ io => io.fd.toNat ∈ p.fds) hnew hopen h.kernel
  · intro l' hl' fd' h₀' h₁' j hentry
    have hold : (p.loop l').io_array fd' = some j →
        j ∈ insert i p.ios ∧ ((p.entered l fd mem i).io j).loop = l' ∧
          ((p.entered l fd mem i).io j).fd = fd' := by
      intro hentry
      obtain ⟨hj, hloop, hfd⟩ := h.entries l' hl' fd' h₀' h₁' j hentry
      rw [entered_io_of_ne (hne j hj)]
      exact ⟨Finset.mem_insert_of_mem hj, hloop, hfd⟩
    rcases eq_or_ne l' l with rfl | hloop
    · rw [entered_loop] at hentry
      rcases eq_or_ne fd' fd with rfl | hfd
      · dsimp only at hentry
        rw [Function.update_self] at hentry
        obtain rfl := Option.some.inj hentry
        rw [entered_io]
        exact ⟨Finset.mem_insert_self _ _, rfl, rfl⟩
      · dsimp only at hentry
        rw [Function.update_of_ne hfd] at hentry
        exact hold hentry
    · rw [entered_loop_of_ne hloop] at hentry
      exact hold hentry
  · intro access haccess
    rcases List.mem_append.mp haccess with haccess | haccess
    · exact h.bounds access haccess
    · obtain rfl := List.mem_singleton.mp haccess
      refine ⟨h₀, ?_⟩
      change fd < (p.loop l).io_maxsize
      rw [h.size l hl]
      exact h₁
  · intro l' hl' fd' hfd'
    rcases eq_or_ne l' l with rfl | hloop
    · rw [entered_loop] at hfd'
      exact h.interest l' hl' fd' hfd'
    · rw [entered_loop_of_ne hloop] at hfd'
      exact h.interest l' hl' fd' hfd'

theorem getIo_eq {mem : GetIoMem} (hi : mem.io = some i) (hbuffers : mem.buffers = true) :
    p.getIo l fd mem = (p.entered l fd mem i, some i) := by
  rw [Process.getIo, hi]
  exact congrArg _ (if_pos hbuffers)

/-! ## Creation -/

section Create

variable {w : CreateWorld}

theorem SameTable.refl (p : Process) : SameTable p p :=
  ⟨rfl, rfl, rfl, rfl, fun _ => rfl, fun _ => rfl, fun _ => rfl, fun _ => rfl, fun _ => rfl,
    fun _ => rfl, fun _ => rfl, fun _ _ h => .inl h⟩

theorem SameTable.ioAdd (hi : i ∈ p.ios) (cb : EventCb) (event : Mask) :
    SameTable p (p.setConn i (ioAdd (p.conn i) cb event)) :=
  .setConn hi (ioAdd_fd cb event) (ioAdd_closed cb event) fun _ h => ioAdd_epoll cb h

theorem SameTable.ioDel (hi : i ∈ p.ios) (event : Mask) :
    SameTable p (p.setConn i (ioDel (p.conn i) event)) := by
  refine .setConn hi ?_ ?_ fun fd h => .inl (ioDel_epoll h)
  · exact (congrArg Io.fd (ioDel_rest (c := p.conn i) event) :)
  · exact (congrArg Io.closed (ioDel_rest (c := p.conn i) event) :)

theorem SameTable.ioAccept (hi : i ∈ p.ios) : SameTable p (p.ioAccept i) := by
  have hio : SameTable p (p.setIo i { p.io i with accept := true }) := .setIo rfl rfl rfl rfl
  exact hio.trans (.ioAdd (hio.ios.symm ▸ hi) _ _)

theorem ioConnectCb_same (hi : i ∈ p.ios) (hpeer : w.getpeername = true)
    (hssl : (p.io i).type = .ssl → w.sslConnect ≠ .failed) (h : p.ioConnectCb i w = some q) :
    SameTable p q := by
  rw [Process.ioConnectCb, if_neg (by simp [hpeer])] at h
  have hdel := SameTable.ioDel hi eventWrite
  have htype : ((p.setConn i (ioDel (p.conn i) eventWrite)).io i).type = (p.io i).type := by
    have hrest : (ioDel (p.conn i) eventWrite).io.type = (p.io i).type :=
      (congrArg Io.type (ioDel_rest (c := p.conn i) eventWrite) :)
    simpa [Process.setConn, Process.setIo] using hrest
  dsimp only at h
  rw [htype, if_neg fun hfailed => hssl hfailed.1 hfailed.2] at h
  obtain rfl := Option.some.inj h
  exact hdel

theorem ioConnect_same {ret : ℤ} (hi : i ∈ p.ios) (haddr : w.addr = true)
    (hconnect : w.connect ≠ .failed)
    (hconnected : w.connect = .connected → w.getpeername = true ∧
      ((p.io i).type = .ssl → w.sslConnect ≠ .failed))
    (h : p.ioConnect i w = some (q, ret)) : ret = 0 ∧ SameTable p q := by
  rw [Process.ioConnect, if_neg (by simp [haddr])] at h
  cases hresult : w.connect with
  | failed => exact absurd hresult hconnect
  | connected =>
      rw [hresult] at h
      obtain ⟨q', hcb, heq⟩ := Option.map_eq_some_iff.mp h
      obtain ⟨rfl, rfl⟩ := Prod.mk.inj heq
      obtain ⟨hpeer, hssl⟩ := hconnected hresult
      exact ⟨rfl, ioConnectCb_same hi hpeer hssl hcb⟩
  | inProgress =>
      rw [hresult] at h
      obtain ⟨c, hc, heq⟩ := Option.map_eq_some_iff.mp h
      obtain ⟨rfl, rfl⟩ := Prod.mk.inj heq
      obtain ⟨hfd, hclosed, hepoll⟩ := ioSetConnectTimeout_frame hc
      have htimer : SameTable p (p.setConn i c) :=
        .setConn hi hfd hclosed fun fd h => .inl (by rwa [hepoll] at h)
      have hio : SameTable (p.setConn i c)
          ((p.setConn i c).setIo i { (p.setConn i c).io i with connect := true }) :=
        .setIo rfl rfl rfl rfl
      have hi' : i ∈ ((p.setConn i c).setIo i { (p.setConn i c).io i with connect := true }).ios :=
        hi
      exact ⟨rfl, (htimer.trans hio).trans (.ioAdd hi' _ _)⟩

/-- What a `create_` function does behind `get_io`, when nothing fails. -/
theorem Tabled.opened (h : Tabled p) (hl : l ∈ p.loops) {mem : GetIoMem} (hi : mem.io = some i)
    (hfree : p.MemFree mem) (hbuffers : mem.buffers = true) (h₀ : 0 ≤ fd) (h₁ : fd < 1024)
    (hlowest : Process.Lowest p.fds fd) : Tabled ((p.openFd fd).entered l fd mem i) := by
  refine (h.openFd fd).entered (by simpa using hl) (by simpa using hfree i hi) hbuffers h₀ h₁
    (mem_openFd h₀) fun j hj heq => ?_
  rw [Process.openFd_ios] at hj
  rw [Process.openFd_io] at heq
  exact hlowest.2.1 (heq ▸ h.kernel j hj)

theorem Tabled.createClient (h : Tabled p) (hl : l ∈ p.loops) {type : IoType}
    {connect_cb close_cb : Bool} {o : Option ℕ} (hfree : p.MemFree w.mem)
    (hlowest : w.socket = -1 ∨ Process.Lowest p.fds w.socket)
    (hguard : w.mem.io ≠ none → 0 ≤ w.socket ∧ w.socket < 1024 ∧ w.mem.buffers = true ∧
      w.addr = true ∧ w.connect ≠ .failed ∧
      (w.connect = .connected → w.getpeername = true ∧ (type = .ssl → w.sslConnect ≠ .failed)))
    (hcreate : p.createClient type l connect_cb close_cb w = some (q, o)) : Tabled q := by
  rw [Process.createClient] at hcreate
  cases hio : w.mem.io with
  | none =>
      rw [Process.getIo, hio] at hcreate
      obtain ⟨rfl, -⟩ := Prod.mk.inj (Option.some.inj hcreate)
      exact h.openFd _
  | some i =>
      obtain ⟨h₀, h₁, hbuffers, haddr, hconnect, hconnected⟩ := hguard (by simp [hio])
      have hsocket : Process.Lowest p.fds w.socket := hlowest.resolve_left (by omega)
      rw [getIo_eq hio hbuffers] at hcreate
      obtain ⟨⟨q', ret⟩, hret, heq⟩ := Option.map_eq_some_iff.mp hcreate
      have hopened := h.opened hl hio hfree hbuffers h₀ h₁ hsocket
      generalize hr : (p.openFd w.socket).entered l w.socket w.mem i = r at hret hopened
      have hi : i ∈ r.ios := hr ▸ Finset.mem_insert_self _ _
      have hset : SameTable r (r.setIo i
          { r.io i with type := type, connect_cb := connect_cb, close_cb := close_cb }) :=
        .setIo rfl rfl rfl rfl
      have htype : ((r.setIo i
          { r.io i with type := type, connect_cb := connect_cb, close_cb := close_cb }).io i).type =
            type := by
        simp [Process.setIo]
      obtain ⟨rfl, hsame⟩ := ioConnect_same (hset.ios.symm ▸ hi) haddr hconnect
        (by rwa [htype]) hret
      obtain ⟨rfl, -⟩ := Prod.mk.inj heq
      exact hsame.tabled (hset.tabled hopened)

/-- So does a server. -/
theorem Tabled.createServer (h : Tabled p) (hl : l ∈ p.loops) {type : IoType} {accept_cb : Bool}
    {thread_num : ℤ} {o : Option ℕ} (hfree : p.MemFree w.mem)
    (hlowest : w.socket = -1 ∨ Process.Lowest p.fds w.socket)
    (hguard : w.mem.io ≠ none → 0 ≤ w.socket ∧ w.socket < 1024 ∧ w.mem.buffers = true ∧
      w.setsockopt = true ∧ w.bind = true ∧ w.listen = true)
    (hcreate : p.createServer type l accept_cb thread_num w = some (q, o)) : Tabled q := by
  rw [Process.createServer] at hcreate
  cases hio : w.mem.io with
  | none =>
      rw [Process.getIo, hio] at hcreate
      obtain ⟨rfl, -⟩ := Prod.mk.inj (Option.some.inj hcreate)
      exact h.openFd _
  | some i =>
      obtain ⟨h₀, h₁, hbuffers, hsetsockopt, hbind, hlisten⟩ := hguard (by simp [hio])
      have hsocket : Process.Lowest p.fds w.socket := hlowest.resolve_left (by omega)
      rw [getIo_eq hio hbuffers] at hcreate
      have hopened := h.opened hl hio hfree hbuffers h₀ h₁ hsocket
      generalize hr : (p.openFd w.socket).entered l w.socket w.mem i = r at hcreate hopened
      have hi : i ∈ r.ios := hr ▸ Finset.mem_insert_self _ _
      simp only [hsetsockopt, hbind, hlisten, Bool.true_eq_false, if_false] at hcreate
      split_ifs at hcreate
      obtain ⟨rfl, -⟩ := Prod.mk.inj (Option.some.inj hcreate)
      have hset : SameTable r (r.setIo i { r.io i with
          type := type, accept_cb := accept_cb, threadPool := decide (thread_num > 0) }) :=
        .setIo rfl rfl rfl rfl
      exact (hset.trans (.ioAccept (hset.ios.symm ▸ hi))).tabled hopened

end Create

/-! ## The other steps -/

theorem sslServerHandshake_same {handshake : Handshake} (hi : i ∈ p.ios)
    (hok : handshake ≠ .failed) (h : p.sslServerHandshake i handshake = some q) :
    SameTable p q := by
  cases handshake with
  | done =>
      obtain rfl := Option.some.inj h
      exact .refl p
  | wantRead =>
      obtain rfl := Option.some.inj h
      split_ifs
      · exact .ioAdd hi _ _
      · exact .refl p
  | failed => exact absurd rfl hok

theorem Tabled.accept (h : Tabled p) {i l : ℕ} {w : AcceptWorld} (hi : i ∈ p.ios)
    (hl : if (p.io i).threadPool then l ∈ p.loops else l = (p.io i).loop)
    (hfree : p.MemFree w.mem) (hlowest : w.conn_fd < 0 ∨ Process.Lowest p.fds w.conn_fd)
    (hrange : w.conn_fd < 1024) (hhandshake : (p.io i).type = .ssl → w.handshake ≠ .failed)
    (haccept : p.ioAcceptCb i l w = some q) : Tabled q := by
  have hloop : l ∈ p.loops := by
    split_ifs at hl
    · exact hl
    · rw [hl]
      exact h.home i hi
  rw [Process.ioAcceptCb] at haccept
  by_cases hneg : w.conn_fd < 0
  · rw [if_pos hneg] at haccept
    obtain rfl := Option.some.inj haccept
    exact h
  rw [if_neg hneg] at haccept
  cases hio : w.mem.io with
  | none =>
      rw [Process.getIo, hio] at haccept
      cases haccept
  | some j =>
      cases hbuffers : w.mem.buffers with
      | false =>
          rw [Process.getIo, hio] at haccept
          simp [hbuffers] at haccept
      | true =>
          rw [getIo_eq hio hbuffers] at haccept
          have hopened := h.opened hloop hio hfree hbuffers (Int.not_lt.mp hneg) hrange
            (hlowest.resolve_left hneg)
          generalize hr : (p.openFd w.conn_fd).entered l w.conn_fd w.mem j = r at haccept hopened
          have hj : j ∈ r.ios := hr ▸ Finset.mem_insert_self _ _
          have hset : SameTable r (r.setIo j { r.io j with accept_cb := (p.io i).accept_cb }) :=
            .setIo rfl rfl rfl rfl
          dsimp only at haccept
          generalize r.setIo j { r.io j with accept_cb := (p.io i).accept_cb } = r' at hset haccept
          have hj' : j ∈ r'.ios := hset.ios.symm ▸ hj
          refine SameTable.tabled (hset.trans ?_) hopened
          split_ifs at haccept with hssl
          · have htype : SameTable r' (r'.setIo j { r'.io j with type := .ssl }) :=
              .setIo rfl rfl rfl rfl
            exact htype.trans
              (sslServerHandshake_same (htype.ios.symm ▸ hj') (hhandshake hssl) haccept)
          · obtain rfl := Option.some.inj haccept
            exact .ioAdd hj' _ _

theorem Tabled.newLoop (h : Tabled p) (hl : l ∉ p.loops) {loop : TableLoop}
    (harray : ∀ fd : ℤ, 0 ≤ fd → fd < 1024 → loop.io_array fd = none) (hnum : loop.io_num = 0)
    (hsize : loop.io_maxsize = 1024) (hepoll : ∀ fd, loop.epoll fd = none) :
    Tabled ({ p with loops := insert l p.loops }.setLoop l loop) := by
  have hother : ∀ l' ∈ p.loops, Function.update p.loop l loop l' = p.loop l' := by
    intro l' hl'
    have hne : l' ≠ l := fun heq => hl (heq ▸ hl')
    exact Function.update_of_ne hne _ _
  refine ⟨h.alive, fun i hi => Finset.mem_insert_of_mem (h.home i hi), ?_, h.inRange, ?_, h.kernel,
    ?_, ?_, h.bounds, ?_⟩
  · intro l' hl'
    rcases Finset.mem_insert.mp hl' with rfl | hl'
    · exact (congrArg TableLoop.io_maxsize (Function.update_self ..)).trans hsize
    · exact (congrArg TableLoop.io_maxsize (hother l' hl')).trans (h.size l' hl')
  · intro i hi
    dsimp only [Process.setLoop]
    rw [hother _ (h.home i hi)]
    exact h.found i hi
  · intro l' hl' fd h₀ h₁ i hentry
    dsimp only [Process.setLoop] at hentry
    rcases Finset.mem_insert.mp hl' with rfl | hl'
    · rw [Function.update_self, harray fd h₀ h₁] at hentry
      cases hentry
    · rw [hother l' hl'] at hentry
      exact h.entries l' hl' fd h₀ h₁ i hentry
  · intro l' hl'
    dsimp only [Process.setLoop]
    rcases Finset.mem_insert.mp hl' with rfl | hl'
    · have hnone : (p.ios.filter fun i => (p.io i).loop = l') = ∅ :=
        Finset.filter_eq_empty_iff.mpr fun i hi heq => hl (heq ▸ h.home i hi)
      rw [Function.update_self, hnum]
      exact (Finset.card_eq_zero.mpr hnone).symm
    · rw [hother l' hl']
      exact h.num l' hl'
  · intro l' hl' fd hfd
    dsimp only [Process.setLoop] at hfd
    rcases Finset.mem_insert.mp hl' with rfl | hl'
    · rw [Function.update_self, hepoll fd] at hfd
      exact absurd rfl hfd
    · rw [hother l' hl'] at hfd
      exact h.interest l' hl' fd hfd

/-- A loop is freed while it has one io only. -/
theorem Tabled.dropLoop (h : Tabled p) (hloop : (p.io i).loop = l)
    (honly : ∀ j ∈ p.ios, (p.io j).loop = l → j = i) :
    Tabled { p with loops := p.loops.erase l, ios := p.ios.erase i } := by
  have hmem : ∀ {j}, j ∈ p.ios.erase i → j ∈ p.ios := fun hj => Finset.mem_of_mem_erase hj
  have hkeep : ∀ {l'}, l' ∈ p.loops.erase l → l' ∈ p.loops := fun hl => Finset.mem_of_mem_erase hl
  refine ⟨fun j hj => h.alive j (hmem hj), ?_, fun l' hl' => h.size l' (hkeep hl'),
    fun j hj => h.inRange j (hmem hj), fun j hj => h.found j (hmem hj),
    fun j hj => h.kernel j (hmem hj), ?_, ?_, h.bounds, fun l' hl' => h.interest l' (hkeep hl')⟩
  · intro j hj
    refine Finset.mem_erase.mpr ⟨fun heq => ?_, h.home j (hmem hj)⟩
    exact Finset.ne_of_mem_erase hj (honly j (hmem hj) heq)
  · intro l' hl' fd h₀ h₁ j hentry
    obtain ⟨hj, hjl, hfd⟩ := h.entries l' (hkeep hl') fd h₀ h₁ j hentry
    refine ⟨Finset.mem_erase.mpr ⟨?_, hj⟩, hjl, hfd⟩
    rintro rfl
    exact Finset.ne_of_mem_erase hl' (hjl.symm.trans hloop)
  · intro l' hl'
    have hne : l' ≠ l := Finset.ne_of_mem_erase hl'
    have hnot : i ∉ p.ios.filter fun j => (p.io j).loop = l' := by
      intro hi
      exact hne ((Finset.mem_filter.mp hi).2.symm.trans hloop)
    dsimp only
    rw [h.num l' (hkeep hl'), Finset.filter_erase, Finset.erase_eq_of_notMem hnot]

theorem SameTable.epollAdd (hi : i ∈ p.ios) (hloop : (p.io i).loop = l) (hfd : (p.io i).fd = fd)
    (event : Mask) :
    SameTable p (p.setLoop l { p.loop l with
      epoll := (epollAdd (p.loop l).epoll fd event).getD (p.loop l).epoll }) := by
  refine ⟨rfl, rfl, rfl, rfl, fun _ => rfl, fun _ => rfl, fun _ => rfl, fun _ => rfl, ?_, ?_, ?_,
    fun l' fd' h => ?_⟩
  · exact fun l' => by rcases eq_or_ne l' l with rfl | hne <;> simp [Process.setLoop, *]
  · exact fun l' => by rcases eq_or_ne l' l with rfl | hne <;> simp [Process.setLoop, *]
  · exact fun l' => by rcases eq_or_ne l' l with rfl | hne <;> simp [Process.setLoop, *]
  · rcases eq_or_ne l' l with rfl | hne
    · simp only [Process.setLoop, Function.update_self] at h
      exact (epollAdd_ne_none h).imp_right fun heq => ⟨i, hi, hloop, heq.trans hfd.symm⟩
    · simp only [Process.setLoop, Function.update_of_ne hne] at h
      exact .inl h

/-- The loop of `event_loop_init` before `get_io`, with the descriptors that it opens. -/
theorem Tabled.begun (h : Tabled p) {w : InitWorld} (loop : TableLoop) (fd₀ fd₁ : ℤ)
    (hl : l ∉ p.loops) (harray : ∀ fd : ℤ, 0 ≤ fd → fd < 1024 → loop.io_array fd = none)
    (hnum : loop.io_num = 0) (hsize : loop.io_maxsize = 1024) (hepoll : ∀ fd, loop.epoll fd = none)
    (hfree : p.MemFree w.mem) (hi : w.mem.io = some i) (hbuffers : w.mem.buffers = true)
    (hrange : fd₀ < 1024) (hlowest : Process.Lowest p.fds fd₀) :
    Tabled (Process.entered (((({ p with loops := insert l p.loops }.setLoop l loop).openFd
      fd₀).openFd fd₁).openFd w.epfd) l fd₀ w.mem i) := by
  have hnew := (((h.newLoop hl harray hnum hsize hepoll).openFd fd₀).openFd fd₁).openFd w.epfd
  refine hnew.entered ?_ ?_ hbuffers hlowest.1 hrange ?_ fun j hj heq => ?_
  · simp [Process.setLoop]
  · simpa [Process.setLoop] using hfree i hi
  · exact openFd_subset _ (openFd_subset _ (mem_openFd hlowest.1))
  · simp only [Process.openFd_ios, Process.openFd_io] at hj heq
    exact hlowest.2.1 (heq ▸ h.kernel j hj)

theorem Tabled.init (h : Tabled p) {w : InitWorld} (hl : l ∉ p.loops) (hfree : p.MemFree w.mem)
    (hfds : p.InitFds w) (hguard : TableGuard p (.init l w))
    (hinit : p.eventLoopInit l w = some q) : Tabled q := by
  rw [Process.eventLoopInit] at hinit
  by_cases hnone : w.loop = false ∨ w.array = false
  · rw [if_pos hnone] at hinit
    obtain rfl := Option.some.inj hinit
    exact h
  rw [if_neg hnone] at hinit
  rw [not_or, Bool.not_eq_false, Bool.not_eq_false] at hnone
  obtain ⟨harray, hnum, fd₀, fd₁, hpipe, hrange⟩ := hguard hnone.1 hnone.2
  rw [Process.InitFds, hpipe] at hfds
  simp only [hpipe, Option.map_some, Option.getD_some] at hinit
  cases hio : w.mem.io with
  | none =>
      rw [Process.getIo, hio] at hinit
      cases hinit
  | some i =>
      cases hbuffers : w.mem.buffers with
      | false =>
          rw [Process.getIo, hio] at hinit
          simp [hbuffers] at hinit
      | true =>
          rw [getIo_eq hio hbuffers] at hinit
          generalize hloop : TableLoop.mk (loopInit w.now w.timers_num w.timer fun _ => none)
            w.io_array w.io_num 1024 = loop at hinit
          have hbegun := h.begun loop fd₀ fd₁ hl (hloop ▸ harray) (hloop ▸ hnum) (hloop ▸ rfl)
            (hloop ▸ fun _ => rfl) hfree hio hbuffers hrange hfds.1
          generalize hr : Process.entered (((({ p with loops := insert l p.loops }.setLoop l
            loop).openFd fd₀).openFd fd₁).openFd w.epfd) l fd₀ w.mem i = r at hinit hbegun
          have hi : i ∈ r.ios := hr ▸ Finset.mem_insert_self _ _
          have hhome : (r.io i).loop = l := by rw [← hr, entered_io]; rfl
          have hfd : (r.io i).fd = fd₀ := by rw [← hr, entered_io]; rfl
          have honly : ∀ j ∈ r.ios, (r.io j).loop = l → j = i := by
            intro j hj hjl
            by_contra hne
            rw [← hr] at hj hjl
            rw [entered_io_of_ne hne] at hjl
            have hold : j ∈ p.ios := by
              simpa [Process.setLoop, hne] using Finset.mem_insert.mp hj
            simp only [Process.openFd_io] at hjl
            exact hl (hjl ▸ h.home j hold)
          have hpipe : SameTable r (r.setIo i { r.io i with type := .pipe }) :=
            .setIo rfl rfl rfl rfl
          dsimp only at hinit
          generalize r.setIo i { r.io i with type := .pipe } = r₁ at hpipe hinit
          have hadd := hpipe.trans (.ioAdd (hpipe.ios.symm ▸ hi) .handleEvent eventRead)
          generalize r₁.setConn i (ioAdd (r₁.conn i) .handleEvent eventRead) = r₂ at hadd hinit
          have hagain := hadd.trans (.epollAdd (hadd.ios.symm ▸ hi)
            ((hadd.loop i).trans hhome) ((hadd.fd i).trans hfd) eventRead)
          generalize r₂.setLoop l { r₂.loop l with
            epoll := (epollAdd (r₂.loop l).epoll fd₀ eventRead).getD (r₂.loop l).epoll } = r₃
            at hagain hinit
          split_ifs at hinit
          · obtain rfl := Option.some.inj hinit
            exact hagain.tabled hbegun
          · obtain rfl := Option.some.inj hinit
            refine (hagain.tabled hbegun).dropLoop ((hagain.loop i).trans hhome) ?_
            intro j hj hjl
            rw [hagain.ios] at hj
            exact honly j hj ((hagain.loop j).symm.trans hjl)

/-! ## Runs -/

theorem Tabled.step {a : TableAction} (h : Tabled p) (hg : TableGuard p a)
    (hstep : p.step a = some q) : Tabled q := by
  cases a with
  | init l w =>
      rw [Process.step, Option.ite_none_right_eq_some] at hstep
      obtain ⟨⟨hl, hfree, hfds⟩, hstep⟩ := hstep
      exact h.init hl hfree hfds hg hstep
  | create l w creation =>
      rw [Process.step, Option.ite_none_right_eq_some] at hstep
      obtain ⟨⟨hl, hfree, hlowest⟩, hstep⟩ := hstep
      obtain ⟨⟨q', o⟩, hcreate, rfl⟩ := Option.map_eq_some_iff.mp hstep
      cases creation with
      | tcpClient connect_cb close_cb =>
          refine h.createClient hl hfree hlowest (fun hio => ?_) hcreate
          obtain ⟨h₀, h₁, hbuffers, haddr, hconnect, hconnected⟩ := hg hio
          exact ⟨h₀, h₁, hbuffers, haddr, hconnect, fun hc => ⟨hconnected hc, by simp⟩⟩
      | sslClient connect_cb close_cb =>
          refine h.createClient hl hfree hlowest (fun hio => ?_) hcreate
          obtain ⟨h₀, h₁, hbuffers, haddr, hconnect, hconnected⟩ := hg hio
          exact ⟨h₀, h₁, hbuffers, haddr, hconnect,
            fun hc => ⟨(hconnected hc).1, fun _ => (hconnected hc).2⟩⟩
      | tcpServer accept_cb thread_num => exact h.createServer hl hfree hlowest hg hcreate
      | sslServer accept_cb thread_num => exact h.createServer hl hfree hlowest hg hcreate
  | accept i l w =>
      rw [Process.step, Option.ite_none_right_eq_some] at hstep
      obtain ⟨⟨hi, -, -, hl, hfree, hlowest⟩, hstep⟩ := hstep
      exact h.accept hi hl hfree hlowest hg.1 hg.2 hstep
  | close i =>
      rw [Process.step, Option.ite_none_right_eq_some] at hstep
      obtain ⟨hlive, hclosed⟩ := h.alive i hstep.1
      rcases hg with hdead | hshut
      · exact absurd (hlive.symm.trans hdead) (by simp)
      · exact absurd (hclosed.symm.trans hshut) (by simp)
  | readEnable i =>
      rw [Process.step, Option.ite_none_right_eq_some] at hstep
      obtain ⟨hi, hstep⟩ := hstep
      obtain rfl := Option.some.inj hstep
      exact (SameTable.ioAdd hi _ _).tabled h
  | epollRun l fd =>
      rw [Process.step, Option.ite_none_right_eq_some] at hstep
      obtain ⟨⟨hl, hfd⟩, hstep⟩ := hstep
      obtain rfl := Option.some.inj hstep
      refine ⟨h.alive, h.home, h.size, h.inRange, h.found, h.kernel, h.entries, h.num, ?_,
        h.interest⟩
      intro access haccess
      rcases List.mem_append.mp haccess with haccess | haccess
      · exact h.bounds access haccess
      · obtain rfl := List.mem_singleton.mp haccess
        dsimp only
        rw [h.size l hl]
        exact h.interest l hl fd hfd
  | connected i w =>
      rw [Process.step, Option.ite_none_right_eq_some] at hstep
      obtain ⟨⟨hi, -, -⟩, hstep⟩ := hstep
      have hset : SameTable p (p.setIo i { p.io i with connect := false }) :=
        .setIo rfl rfl rfl rfl
      have htype : ((p.setIo i { p.io i with connect := false }).io i).type = (p.io i).type := by
        simp [Process.setIo]
      have hcb := ioConnectCb_same (hset.ios.symm ▸ hi) hg.1 (by rw [htype]; exact hg.2) hstep
      exact (hset.trans hcb).tabled h
  | handshake i handshake =>
      rw [Process.step, Option.ite_none_right_eq_some] at hstep
      obtain ⟨⟨hi, -, -⟩, hstep⟩ := hstep
      exact (sslServerHandshake_same hi hg hstep).tabled h
  | openFd fd =>
      rw [Process.step, Option.ite_none_right_eq_some] at hstep
      obtain rfl := Option.some.inj hstep.2
      exact h.openFd fd
  | closeFd fd =>
      rw [Process.step, Option.ite_none_right_eq_some] at hstep
      obtain ⟨hnot, hstep⟩ := hstep
      obtain rfl := Option.some.inj hstep
      rw [Process.closeFd, if_neg (by omega)]
      refine ⟨h.alive, h.home, h.size, h.inRange, h.found, fun i hi => ?_, h.entries, h.num,
        h.bounds, h.interest⟩
      refine Finset.mem_erase.mpr ⟨fun heq => ?_, h.kernel i hi⟩
      have h₀ := (h.inRange i hi).1
      have hfd : (p.io i).fd.toNat = (fd : ℤ).toNat := heq
      exact hnot i hi (h.alive i hi).2 (by omega)

/-! ## Closing -/

/-- A close leaves the table as it was, and live is only what is still open. -/
theorem ioClose_left (hopen : (p.io i).closed = false) (h : p.ioClose i = some q) :
    q.loops = p.loops ∧ (q.io i).live = false ∧
      ∀ l, (q.loop l).io_array = (p.loop l).io_array ∧
        (q.loop l).io_maxsize = (p.loop l).io_maxsize := by
  rw [Process.ioClose] at h
  dsimp only at h
  rw [Option.ite_none_left_eq_some, if_neg (by simp [hopen])] at h
  obtain ⟨-, h⟩ := h
  obtain rfl := Option.some.inj h
  have hloop : ∀ c l, ((p.setConn i c).loop l).io_array = (p.loop l).io_array ∧
      ((p.setConn i c).loop l).io_maxsize = (p.loop l).io_maxsize := by
    intro c l
    by_cases hl : l = (p.io i).loop
    · subst hl
      simp [Process.setConn, Process.setIo, Process.setLoop]
    · simp [Process.setConn, Process.setIo, Process.setLoop, Function.update_of_ne hl]
  split_ifs
  · simpa [Process.closeFd, Process.setIo, apply_ite] using ⟨rfl, hloop _⟩
  · exact ⟨rfl, by simp [Process.setIo], hloop _⟩

/-- No open io can be closed: its entry stays. -/
theorem Tabled.not_sound_of_close (h : Tabled p) (hi : i ∈ p.ios) (hclose : p.ioClose i = some q) :
    ¬ TableSound q := by
  intro hsound
  obtain ⟨hloops, hdead, hleft⟩ := ioClose_left (h.alive i hi).2 hclose
  obtain ⟨harray, hsize⟩ := hleft (p.io i).loop
  have hhome := h.home i hi
  obtain ⟨h₀, h₁⟩ := h.inRange i hi
  have hentry := (hsound.entries (p.io i).loop (hloops ▸ hhome) (p.io i).fd h₀
    (by rwa [hsize, h.size _ hhome]) i (harray ▸ h.found i hi)).1
  have hlive := (Finset.mem_filter.mp hentry).2.2.1
  exact absurd (hlive.symm.trans hdead) (by simp)

/-- A process before its first loop; the memory may hold anything. -/
def Process.start (loop : ℕ → TableLoop) (io : ℕ → TableIo) (fds : Finset ℕ) : Process :=
  ⟨∅, loop, ∅, io, fds, []⟩

theorem Tabled.start (loop : ℕ → TableLoop) (io : ℕ → TableIo) (fds : Finset ℕ) :
    Tabled (.start loop io fds) := by
  constructor <;> simp [Process.start]

/-- The io table stays sound in every run whose steps meet the guard. -/
theorem tableSound_along (loop : ℕ → TableLoop) (io : ℕ → TableIo) (fds : Finset ℕ)
    (run : List TableAction) (h : Meets Process.step TableGuard (.start loop io fds) run) :
    Along Process.step TableSound (.start loop io fds) run :=
  (along_of_meets (fun _ _ _ => Tabled.step) (Tabled.start loop io fds) h).mono
    fun _ => Tabled.sound

/-- A loop in zeroed memory, its pipe at 3 and 4. -/
def zeroed : InitWorld where
  loop := true
  array := true
  io_array := fun _ => none
  io_num := 0
  timers_num := 0
  timer := fun _ => Timer.zero
  now := 0
  pipe := some (3, 4)
  pipefd := 0
  epfd := 5
  mem := ⟨some 1, true, fun _ => 0⟩
  custom_events := true

/-- A client on socket 6 that waits for its connection. -/
def dialing : CreateWorld :=
  { refused with socket := 6, connect := .inProgress, timer := some 0 }

theorem tableSound_dialing :
    Along Process.step TableSound (.start oneLoop.loop oneLoop.io {0, 1, 2})
      [.init 1 zeroed, .create 1 dialing (.tcpClient true true), .epollRun 1 6] :=
  tableSound_along _ _ _ _
    (.cons rfl (fun _ _ => ⟨fun _ _ _ => rfl, rfl, 3, 4, rfl, by decide⟩)
      (.cons rfl (fun _ => ⟨by decide, by decide, rfl, rfl, by decide, fun h => (by cases h)⟩)
        (.cons rfl True.intro True.intro)))

/-- A client that is closed while it waits. -/
theorem not_tableSound_closed :
    ¬ Along Process.step TableSound (.start oneLoop.loop oneLoop.io {0, 1, 2})
      [.init 1 zeroed, .create 1 dialing (.tcpClient true true), .close 7] := by
  intro h
  have hcount := (h.exec rfl).count 1 (by decide)
  exact absurd hcount (by decide)

end LibConn
