import LibConn.Shared.Run
import LibConn.Verification.Loop.Turns

/-! # The timers that the thread can reach

Whatever the user calls, a timer of an open io stays in memory and stays a timer of that io,
and the events on the pending list are timers that are still there, each of them once. A
timer that has fired is freed only when its callback has closed the io. -/

namespace LibConn

namespace LoopThread

variable {s t u : LoopThread} {a : LoopAction} {i x : ℕ} {kind : Timeout}
  {cbs : List IoCallback} {exempt : Option ℕ}

/-- A timer of the io `i`: it is armed, or it has fired. While it is marked to be freed it
waits for its callback, unless it is the exempt one, whose callback is about to run. -/
structure Owned (exempt : Option ℕ) (s : LoopThread) (i : ℕ) (kind : Timeout) (x : ℕ) : Prop where
  allocated : (s.loop.timer x).allocated = true
  privdata : (s.loop.timer x).privdata = some i
  cb : (s.loop.timer x).cb = some kind.timerCb
  armed : ¬ (s.loop.timer x).Spent → (s.loop.timer x).repeats = 1 ∧
    (s.loop.timer x).pending = false ∧ (s.loop.timer x).destory = false
  fired : (s.loop.timer x).destory = true → .timer x ∈ s.waiting ∨ exempt = some x

/-- The timers of the open ios, and those whose callbacks are to run. -/
structure Sound (exempt : Option ℕ) (s : LoopThread) : Prop where
  slots : ∀ i ∈ s.ios, (s.io i).closed = false → ∀ kind x, (s.io i).timer kind = some x →
    Owned exempt s i kind x
  waiting : ∀ x, .timer x ∈ s.waiting →
    (s.loop.timer x).allocated = true ∧ (s.loop.timer x).Spent
  once : ∀ x, s.waiting.count (.timer x) ≤ 1
  done : ∀ x, .done (.timer x) ∈ s.stack → .timer x ∉ s.waiting

theorem Owned.congr (h : Owned exempt s i kind x) (hx : t.loop.timer x = s.loop.timer x)
    (hwaiting : .timer x ∈ s.waiting → .timer x ∈ t.waiting ∨ exempt = some x) :
    Owned exempt t i kind x := by
  refine ⟨?_, ?_, ?_, ?_, ?_⟩
  all_goals rw [hx]
  · exact h.allocated
  · exact h.privdata
  · exact h.cb
  · exact h.armed
  · exact fun hdestory => (h.fired hdestory).elim hwaiting .inr

theorem Sound.start (loop : Loop) (io : ℕ → LoopIo) : Sound none (start loop io) :=
  ⟨fun i hi => absurd hi (Finset.notMem_empty i), fun _ hx => absurd hx List.not_mem_nil,
    fun _ => Nat.zero_le 1, fun _ hx => absurd hx List.not_mem_nil⟩

/-! ## Steps that arm nothing -/

/-- The open ios of `t` and their timers are some of those of `s`, and the same timers wait. -/
structure Thins (s t : LoopThread) : Prop where
  slots : ∀ i ∈ t.ios, (t.io i).closed = false → ∀ kind x, (t.io i).timer kind = some x →
    i ∈ s.ios ∧ (s.io i).closed = false ∧ (s.io i).timer kind = some x
  waiting : ∀ x, t.waiting.count (.timer x) = s.waiting.count (.timer x)
  done : ∀ x, .done (.timer x) ∈ t.stack → .done (.timer x) ∈ s.stack

theorem Thins.mem_waiting (h : Thins s t) (x : ℕ) :
    .timer x ∈ t.waiting ↔ .timer x ∈ s.waiting := by
  rw [← List.count_pos_iff, ← List.count_pos_iff, h.waiting]

theorem Sound.write {timer : Timer} (h : Sound exempt s) (hthins : Thins s t)
    (hmemory : t.loop.timer = Function.update s.loop.timer x timer)
    (howned : ∀ i kind, Owned exempt s i kind x → Owned exempt t i kind x)
    (hwaits : (s.loop.timer x).allocated = true → (s.loop.timer x).Spent →
      timer.allocated = true ∧ timer.Spent) : Sound exempt t := by
  have hother : ∀ y, y ≠ x → t.loop.timer y = s.loop.timer y := by
    intro y hy
    rw [hmemory, Function.update_of_ne hy]
  have hself : t.loop.timer x = timer := by rw [hmemory, Function.update_self]
  refine ⟨?_, ?_, fun y => (hthins.waiting y).trans_le (h.once y), ?_⟩
  · intro i hi hopen kind y hslot
    obtain ⟨hi', hopen', hslot'⟩ := hthins.slots i hi hopen kind y hslot
    have hy := h.slots i hi' hopen' kind y hslot'
    rcases eq_or_ne y x with rfl | hne
    · exact howned i kind hy
    · exact hy.congr (hother y hne) fun hmem => .inl ((hthins.mem_waiting y).mpr hmem)
  · intro y hy
    have hy' := h.waiting y ((hthins.mem_waiting y).mp hy)
    rcases eq_or_ne y x with rfl | hne
    · rw [hself]
      exact hwaits hy'.1 hy'.2
    · rw [hother y hne]
      exact hy'
  · intro y hy
    rw [hthins.mem_waiting]
    exact h.done y (hthins.done y hy)

theorem Sound.thins (h : Sound exempt s) (hthins : Thins s t)
    (hmemory : t.loop.timer = s.loop.timer) : Sound exempt t := by
  refine h.write (x := 0) hthins (by rw [hmemory, Function.update_eq_self]) ?_ fun h h' => ⟨h, h'⟩
  exact fun i kind howned => howned.congr (congrFun hmemory 0) fun hmem =>
    .inl ((hthins.mem_waiting 0).mpr hmem)

/-- Nothing owns a block that is free. -/
theorem Owned.absurd_free {p : Prop} (h : Owned exempt s i kind x)
    (hfree : (s.loop.timer x).allocated = false) : p :=
  absurd (h.allocated.symm.trans hfree) (by decide)

theorem Owned.unique {j : ℕ} {kind' : Timeout} (h : Owned exempt s i kind x)
    (h' : Owned exempt s j kind' x) : i = j ∧ kind = kind' := by
  refine ⟨Option.some.inj (h.privdata.symm.trans h'.privdata), ?_⟩
  exact Timeout.timerCb_injective (Option.some.inj (h.cb.symm.trans h'.cb))

theorem Touches.waiting_count (h : Touches i cbs s t) (x : ℕ) :
    t.waiting.count (.timer x) = s.waiting.count (.timer x) := by
  rw [h.waiting]

theorem Touches.done (h : Touches i cbs s t) (hdone : .done (.timer x) ∈ t.stack) :
    .done (.timer x) ∈ s.stack := by
  obtain ⟨frames, hstack, hframes⟩ := h.stack
  rw [hstack] at hdone
  rcases List.mem_append.mp hdone with hmem | hmem
  · exact (hframes _ hmem).1.elim
  · exact hmem

theorem Touches.thins (h : Touches i cbs s t)
    (hslots : (t.io i).closed = false → (s.io i).closed = false ∧
      ∀ kind x, (t.io i).timer kind = some x → (s.io i).timer kind = some x) : Thins s t := by
  refine ⟨?_, h.waiting_count, fun x => h.done⟩
  intro j hj hopen kind x hslot
  rw [h.ios] at hj
  rcases eq_or_ne j i with rfl | hne
  · obtain ⟨hopen', hslots'⟩ := hslots hopen
    exact ⟨hj, hopen', hslots' kind x hslot⟩
  · rw [h.others j hne] at hopen hslot
    exact ⟨hj, hopen, hslot⟩

theorem Touches.thins_same (h : Touches i cbs s t)
    (hio : SameTimers (s.conn i).io (t.conn i).io) : Thins s t := by
  have hclosed : (t.io i).closed = (s.io i).closed := hio.closed
  have htimer : (t.io i).timer = (s.io i).timer := hio.timer
  refine h.thins fun hopen => ⟨hclosed ▸ hopen, fun kind x hslot => ?_⟩
  rwa [htimer] at hslot

theorem Owned.reset (h : Owned exempt s i kind x) (hreset : Reset x s.loop t.loop) :
    Owned exempt t i kind x := by
  obtain ⟨next_timeout, hmemory⟩ := hreset.memory
  have hself : t.loop.timer x = (s.loop.timer x).reset next_timeout := by
    rw [hmemory, Function.update_self]
  refine ⟨?_, ?_, ?_, ?_, ?_⟩
  all_goals rw [hself]
  · exact h.allocated
  · exact h.privdata
  · exact h.cb
  · exact fun hspent => ⟨(h.armed hspent).1, rfl, rfl⟩
  · exact fun hdestory => absurd hdestory Bool.false_ne_true

theorem Sound.arms (h : Sound exempt s) (htouches : Touches i cbs s t)
    (harms : Arms i kind x (s.conn i) (t.conn i)) : Sound exempt t := by
  obtain ⟨timer, harmed, hmemory⟩ := harms.memory
  have hself : t.loop.timer x = timer := (congrFun hmemory x).trans (Function.update_self ..)
  have hother : ∀ y, y ≠ x → t.loop.timer y = s.loop.timer y :=
    fun y hy => (congrFun hmemory y).trans (Function.update_of_ne hy ..)
  have hfree : (s.loop.timer x).allocated = false := harms.free
  have htimer : (t.io i).timer = Function.update (s.io i).timer kind (some x) := harms.timer
  have hclosed : (t.io i).closed = (s.io i).closed := harms.closed
  -- whatever was a timer before is not the new one
  have hold : ∀ j kind' y, Owned exempt s j kind' y → Owned exempt t j kind' y := by
    intro j kind' y howned
    rcases eq_or_ne y x with rfl | hne
    · exact howned.absurd_free hfree
    · exact howned.congr (hother y hne) fun hmem => .inl (htouches.waiting ▸ hmem)
  refine ⟨?_, ?_, fun y => (htouches.waiting_count y).trans_le (h.once y), ?_⟩
  · intro j hj hopen kind' y hslot
    rw [htouches.ios] at hj
    rcases eq_or_ne j i with rfl | hne
    · rw [htimer] at hslot
      rw [hclosed] at hopen
      rcases eq_or_ne kind' kind with rfl | hkind
      · obtain rfl : x = y := by simpa using hslot
        refine ⟨?_, ?_, ?_, ?_, ?_⟩
        all_goals rw [hself]
        · exact harmed.allocated
        · exact harmed.privdata
        · exact harmed.cb
        · exact fun _ => ⟨harmed.repeats, harmed.pending, harmed.destory⟩
        · exact fun hdestory => absurd (harmed.destory.symm.trans hdestory) (by decide)
      · rw [Function.update_of_ne hkind] at hslot
        exact hold j kind' y (h.slots j hj hopen kind' y hslot)
    · rw [htouches.others j hne] at hopen hslot
      exact hold j kind' y (h.slots j hj hopen kind' y hslot)
  · intro y hy
    rw [htouches.waiting] at hy
    have hy' := h.waiting y hy
    rcases eq_or_ne y x with rfl | hne
    · exact absurd (hy'.1.symm.trans hfree) (by decide)
    · rw [hother y hne]
      exact hy'
  · intro y hy
    rw [htouches.waiting]
    exact h.done y (htouches.done hy)

theorem Sound.acts (h : Sound exempt s) (hacts : Acts i cbs s t) : Sound exempt t := by
  cases hacts.change with
  | ends hends =>
      cases hends with
      | keeps hkept => exact h.thins (hacts.thins_same hkept.toSameTimers) hkept.memory
      | shuts hshut =>
          refine h.thins (hacts.thins fun hopen => ?_) hshut.memory
          have hclosed : (t.io i).closed = true := hshut.closed
          exact absurd (hclosed.symm.trans hopen) (by decide)
  | resets y howns hio hreset =>
      obtain ⟨next_timeout, hmemory⟩ := hreset.memory
      have hthins := hacts.thins_same hio
      refine h.write hthins hmemory ?_ fun halloc hspent => ⟨halloc, hspent⟩
      exact fun j kind howned => howned.reset hreset
  | arms kind y harms => exact h.arms hacts.toTouches harms
  | disarms kind hkind hdisarms =>
      have hclosed : (t.io i).closed = (s.io i).closed := hdisarms.closed
      have htimer : (t.io i).timer = Function.update (s.io i).timer kind none := hdisarms.timer
      refine h.thins (hacts.thins fun hopen => ⟨hclosed ▸ hopen, ?_⟩) hdisarms.memory
      intro kind' y hslot
      rw [htimer] at hslot
      rcases eq_or_ne kind' kind with rfl | hne
      · simp at hslot
      · rwa [Function.update_of_ne hne] at hslot

/-! ## The pending list and the stack -/

theorem Enters.sublist (h : Enters s u) : u.waiting.Sublist s.waiting := by
  rcases h.waiting with heq | ⟨e, heq, -⟩
  · rw [heq]
  · rw [heq]
    exact List.sublist_cons_self _ _

theorem Sound.enters (h : Sound exempt s) (henters : Enters s u) : Sound exempt u := by
  refine ⟨?_, ?_, fun x => (henters.sublist.count_le _).trans (h.once x), ?_⟩
  · intro i hi hopen kind x hslot
    rw [henters.ios] at hi
    rw [henters.io] at hopen hslot
    have howned := h.slots i hi hopen kind x hslot
    refine howned.congr (congrFun henters.memory x) fun hmem => ?_
    rcases henters.waiting with heq | ⟨e, heq, hcb⟩
    · exact .inl (heq ▸ hmem)
    · rw [heq] at hmem
      rcases List.mem_cons.mp hmem with rfl | hmem
      · exact absurd ((hcb x rfl).symm.trans howned.cb) (Option.some_ne_none _).symm
      · exact .inl hmem
  · intro x hx
    rw [henters.memory]
    exact h.waiting x (henters.sublist.mem hx)
  · intro x hx hmem
    rcases henters.stack _ hx with hold | ⟨i, hnew, -⟩
    · exact h.done x hold (henters.sublist.mem hmem)
    · cases hnew

theorem Sound.call (h : Sound exempt s) (i : ℕ) (cb : IoCallback) : Sound exempt (s.call i cb) :=
  h.thins ⟨fun _ hi hopen _ _ hslot => ⟨hi, hopen, hslot⟩, fun _ => rfl, fun _ hx => hx⟩ rfl

theorem Sound.create (h : Sound exempt s) (hnew : i ∉ s.ios) (fd : ℤ) (malloced : ℕ → UInt8)
    (settings : IoSettings) : Sound exempt (s.create i (.new fd malloced settings)) := by
  refine h.thins ⟨?_, fun _ => rfl, fun _ hx => hx⟩ rfl
  intro j hj hopen kind x hslot
  rcases eq_or_ne j i with rfl | hne
  · simp [LoopThread.create, setIo, LoopIo.new, LoopIo.set, getIo] at hslot
  · have hj' : j ∈ s.ios := by simpa [LoopThread.create, setIo, hne] using hj
    have hio : (s.create i (.new fd malloced settings)).io j = s.io j := by
      simp [LoopThread.create, setIo, hne]
    rw [hio] at hopen hslot
    exact ⟨hj', hopen, hslot⟩

theorem Sound.sets (h : Sound exempt s) (i : ℕ) (settings : IoSettings) :
    Sound exempt (s.setIo i ((s.io i).set settings)) := by
  refine h.thins ⟨?_, fun _ => rfl, fun _ hx => hx⟩ rfl
  intro j hj hopen kind x hslot
  rcases eq_or_ne j i with rfl | hne
  · simp only [setIo, Function.update_self] at hopen hslot
    exact ⟨hj, hopen, hslot⟩
  · simp only [setIo, Function.update_of_ne hne] at hopen hslot
    exact ⟨hj, hopen, hslot⟩

theorem Sound.dispatches (h : Sound exempt s) (i : ℕ) (revents : Mask) :
    Sound exempt (s.dispatch i revents) := by
  refine h.thins ⟨?_, fun x => ?_, fun _ hx => hx⟩ rfl
  · intro j hj hopen kind x hslot
    rcases eq_or_ne j i with rfl | hne
    · simp only [dispatch, setIo, Function.update_self] at hopen hslot
      exact ⟨hj, hopen, hslot⟩
    · simp only [dispatch, setIo, Function.update_of_ne hne] at hopen hslot
      exact ⟨hj, hopen, hslot⟩
  · rw [dispatch]
    dsimp only
    split_ifs
    · rfl
    · exact List.count_cons_of_ne (by simp)

theorem Sound.grows {loop : Loop} (h : Sound exempt s) (hgrows : Grows x s.loop loop) :
    Sound exempt { s with loop := loop } := by
  obtain ⟨timer, -, hmemory⟩ := hgrows.memory
  refine h.write ⟨fun _ hi hopen _ _ hslot => ⟨hi, hopen, hslot⟩, fun _ => rfl, fun _ hx => hx⟩
    hmemory ?_ ?_
  · exact fun i kind howned => howned.absurd_free hgrows.free
  · exact fun halloc => absurd (halloc.symm.trans hgrows.free) (by decide)

/-! ## Timers that expire -/

/-- A timer that has not run down and has an owner has not fired. -/
theorem Owned.expires {loop : Loop} (h : Owned exempt s i kind x)
    (hexpires : Expires x s.loop loop) :
    (s.loop.timer x).repeats = 1 ∧ (s.loop.timer x).pending = false ∧
      (s.loop.timer x).destory = false :=
  h.armed fun hspent => hspent.elim hexpires.repeats.1 hexpires.repeats.2

theorem Sound.expires {loop : Loop} (h : Sound none s) (hidle : s.stack = [])
    (hallocated : (s.loop.timer x).allocated = true) (hexpires : Expires x s.loop loop) :
    Sound none { s with
      loop := loop
      waiting := if (s.loop.timer x).pending then s.waiting else .timer x :: s.waiting
      expiring := true } := by
  obtain ⟨timer, howner, hrepeats, hmemory⟩ := hexpires.memory
  have hself : loop.timer x = timer := by rw [hmemory, Function.update_self]
  have hother : ∀ y, y ≠ x → loop.timer y = s.loop.timer y :=
    fun y hy => by rw [hmemory, Function.update_of_ne hy]
  have hspent : timer.Spent := .inl hrepeats
  have hnew : .timer x ∉ s.waiting :=
    fun hmem => (h.waiting x hmem).2.elim hexpires.repeats.1 hexpires.repeats.2
  refine ⟨?_, ?_, ?_, fun y hy => ?_⟩
  · intro i hi hopen kind y hslot
    have howned := h.slots i hi hopen kind y hslot
    rcases eq_or_ne y x with rfl | hne
    · obtain ⟨-, hpending, -⟩ := howned.expires hexpires
      refine ⟨?_, ?_, ?_, ?_, ?_⟩
      all_goals dsimp only; rw [hself]
      · exact howner.allocated.trans hallocated
      · exact howner.privdata.trans howned.privdata
      · exact howner.cb.trans howned.cb
      · exact fun hnot => absurd hspent hnot
      · exact fun _ => .inl (by simp [hpending])
    · refine howned.congr (hother y hne) fun hmem => .inl ?_
      dsimp only
      split_ifs
      · exact hmem
      · exact List.mem_cons_of_mem _ hmem
  · intro y hy
    dsimp only at hy ⊢
    rcases eq_or_ne y x with rfl | hne
    · rw [hself, howner.allocated]
      exact ⟨hallocated, hspent⟩
    · rw [hother y hne]
      refine h.waiting y ?_
      split_ifs at hy
      · exact hy
      · exact (List.mem_cons.mp hy).resolve_left (by simpa using hne)
  · intro y
    have honce := h.once y
    dsimp only
    split_ifs
    · exact honce
    · rcases eq_or_ne y x with rfl | hne
      · rw [List.count_cons_self, List.count_eq_zero.mpr hnew]
      · rw [List.count_cons_of_ne (by simpa using hne.symm)]
        exact honce
  · simp [hidle] at hy

theorem Sound.repeats {loop : Loop} (h : Sound exempt s) (hrepeats : Repeats x s.loop loop) :
    Sound exempt { s with loop := loop, expiring := true } := by
  obtain ⟨timer, howner, hpending, hdestory, hspent, hmemory⟩ := hrepeats.memory
  have hself : loop.timer x = timer := by rw [hmemory, Function.update_self]
  refine h.write ⟨fun _ hi hopen _ _ hslot => ⟨hi, hopen, hslot⟩, fun _ => rfl, fun _ hx => hx⟩
    hmemory ?_ ?_
  · intro i kind howned
    have hold : (s.loop.timer x).Spent := by
      by_contra hnot
      exact hrepeats.repeats (howned.armed hnot).1
    refine ⟨?_, ?_, ?_, ?_, ?_⟩
    all_goals dsimp only; rw [hself]
    · exact howner.allocated.trans howned.allocated
    · exact howner.privdata.trans howned.privdata
    · exact howner.cb.trans howned.cb
    · exact fun hnot => absurd (.inr (hspent hold)) hnot
    · exact fun hmarked => howned.fired (hdestory ▸ hmarked)
  · exact fun halloc hold => ⟨howner.allocated.trans halloc, .inr (hspent hold)⟩

/-- A timer is taken from the pending list; its callback is about to run. -/
theorem Sound.visits {rest : List LoopEvent} (h : Sound none s) (hidle : s.stack = [])
    (hwaiting : s.waiting = .timer x :: rest) :
    Sound (some x) ({ s with waiting := rest }.push [.done (.timer x)]) := by
  have hsub : rest.Sublist s.waiting := hwaiting ▸ List.sublist_cons_self _ _
  refine ⟨?_, fun y hy => h.waiting y (hsub.mem hy), fun y => (hsub.count_le _).trans (h.once y),
    ?_⟩
  · intro i hi hopen kind y hslot
    have howned := h.slots i hi hopen kind y hslot
    refine ⟨howned.allocated, howned.privdata, howned.cb, howned.armed, fun hdestory => ?_⟩
    have hmem : .timer y ∈ s.waiting := (howned.fired hdestory).resolve_right (by simp)
    rw [hwaiting] at hmem
    rcases List.mem_cons.mp hmem with heq | hmem
    · exact .inr (by rw [LoopEvent.timer.inj heq])
    · exact .inl hmem
  · intro y hy hmem
    obtain rfl : y = x := by simpa [push, hidle] using hy
    have honce := h.once y
    rw [hwaiting, List.count_cons_self] at honce
    have hpos : 0 < rest.count (.timer y) := List.count_pos_iff.mpr hmem
    omega

/-- A timer whose block is in use keeps its callback and its owner. -/
theorem Acts.owner (h : Acts i cbs s t) (hallocated : (s.loop.timer x).allocated = true) :
    (t.loop.timer x).cb = (s.loop.timer x).cb ∧
      (t.loop.timer x).privdata = (s.loop.timer x).privdata := by
  have hsame : ∀ {c c' : Conn}, c'.loop.timer = c.loop.timer →
      (c'.loop.timer x).cb = (c.loop.timer x).cb ∧
        (c'.loop.timer x).privdata = (c.loop.timer x).privdata := by
    intro c c' hmemory
    rw [hmemory]
    exact ⟨rfl, rfl⟩
  cases h.change with
  | ends hends =>
      cases hends with
      | keeps hkept => exact hsame hkept.memory
      | shuts hshut => exact hsame hshut.memory
  | resets y howns hio hreset =>
      obtain ⟨next_timeout, hmemory⟩ := hreset.memory
      have hx : t.loop.timer x = _ := congrFun hmemory x
      rcases eq_or_ne x y with rfl | hne
      · rw [hx, Function.update_self]
        exact ⟨rfl, rfl⟩
      · rw [hx, Function.update_of_ne hne]
        exact ⟨rfl, rfl⟩
  | arms kind y harms =>
      obtain ⟨timer, -, hmemory⟩ := harms.memory
      have hne : x ≠ y := by
        rintro rfl
        exact absurd (hallocated.symm.trans harms.free) (by decide)
      have hx : t.loop.timer x = _ := congrFun hmemory x
      rw [hx, Function.update_of_ne hne]
      exact ⟨rfl, rfl⟩
  | disarms kind hkind hdisarms => exact hsame hdisarms.memory

/-- Once its callback has run, no timer is exempt. -/
theorem Sound.discharge (h : Sound (some x) s)
    (hslot : ∀ i ∈ s.ios, (s.io i).closed = false → ∀ kind, Owned (some x) s i kind x →
      (s.loop.timer x).destory = false) : Sound none s := by
  refine ⟨?_, h.waiting, h.once, h.done⟩
  intro i hi hopen kind y hslot'
  have howned := h.slots i hi hopen kind y hslot'
  refine ⟨howned.allocated, howned.privdata, howned.cb, howned.armed, fun hdestory => ?_⟩
  rcases howned.fired hdestory with hmem | hx
  · exact .inl hmem
  · obtain rfl := Option.some.inj hx
    exact absurd ((hslot i hi hopen kind howned).symm.trans hdestory) (by decide)

theorem Sound.user (h : Sound exempt s) (hst : t = s ∨ t = s.push [.user none]) :
    Sound exempt t := by
  rcases hst with rfl | rfl
  · exact h
  · exact h.thins ⟨fun _ hi hopen _ _ hslot => ⟨hi, hopen, hslot⟩, fun _ => rfl,
      fun x hx => by simpa [push] using hx⟩ rfl

theorem Sound.fires (h : Sound none s ∨ Sound (some x) s)
    (hallocated : (s.loop.timer x).allocated = true) (hfires : Fires x s t) : Sound none t := by
  cases hfires with
  | user hcb hst =>
      rcases h with h | h
      · exact h.user hst
      · refine (h.user hst).discharge fun i hi hopen kind howned => ?_
        have hmemory : t.loop.timer = s.loop.timer := by rcases hst with rfl | rfl <;> rfl
        exact absurd (hmemory ▸ howned.cb) (hcb kind)
  | io i kind cbs hprivdata hcb hacts hends =>
      rcases h with h | h
      · exact (h.call i _).acts hacts
      · refine ((h.call i _).acts hacts).discharge fun j hj hopen kind' howned => ?_
        refine hends.resolve_left fun hclosed => ?_
        have howner := (hacts.owner (x := x) hallocated).2
        obtain rfl : j = i := by
          have heq : some j = some i := howned.privdata.symm.trans (howner.trans hprivdata)
          exact Option.some.inj heq
        exact absurd (hclosed.symm.trans hopen) (by decide)

/-- After its callback a timer is freed when it is marked so. -/
theorem pendingDone_memory (loop : Loop) (x : ℕ) : ∃ timer,
    (pendingDone loop x).timer = Function.update loop.timer x timer ∧
      timer.privdata = (loop.timer x).privdata ∧
      ((loop.timer x).destory = false → timer = { loop.timer x with pending := false }) := by
  rw [pendingDone]
  cases hdestory : (loop.timer x).destory with
  | false =>
      refine ⟨{ loop.timer x with pending := false }, ?_, rfl, fun _ => rfl⟩
      simp [Loop.setTimer, hdestory]
  | true =>
      let freed : Timer :=
        { loop.timer x with pending := false, destory := false, allocated := false }
      refine ⟨freed, ?_, rfl, fun h => absurd h (by decide)⟩
      simp [eventDel, Loop.setTimer, hdestory, freed]

theorem pendingDone_heap (loop : Loop) (x : ℕ) : (pendingDone loop x).timers = loop.timers := by
  rw [pendingDone, eventDel]
  split_ifs <;> rfl

theorem Sound.finishes {rest : List Frame} (h : Sound none s)
    (hstack : s.stack = .done (.timer x) :: rest) :
    Sound none { s with stack := rest, loop := pendingDone s.loop x } := by
  obtain ⟨timer, hmemory, -, htimer⟩ := pendingDone_memory s.loop x
  have hgone : .timer x ∉ s.waiting := h.done x (hstack ▸ List.mem_cons_self)
  have hself : (pendingDone s.loop x).timer x = timer := by rw [hmemory, Function.update_self]
  have hother : ∀ y, y ≠ x → (pendingDone s.loop x).timer y = s.loop.timer y :=
    fun y hy => by rw [hmemory, Function.update_of_ne hy]
  refine ⟨?_, ?_, h.once, fun y hy => h.done y (hstack ▸ List.mem_cons_of_mem _ hy)⟩
  · intro i hi hopen kind y hslot
    have howned := h.slots i hi hopen kind y hslot
    rcases eq_or_ne y x with rfl | hne
    · -- a timer that some io still has is not marked
      have hdestory : (s.loop.timer y).destory = false := by
        by_contra hmarked
        exact hgone ((howned.fired (by simpa using hmarked)).resolve_right (by simp))
      rw [htimer hdestory] at hself
      refine ⟨?_, ?_, ?_, ?_, ?_⟩
      all_goals dsimp only; rw [hself]
      · exact howned.allocated
      · exact howned.privdata
      · exact howned.cb
      · exact fun hspent => ⟨(howned.armed hspent).1, rfl, hdestory⟩
      · exact howned.fired
    · exact howned.congr (hother y hne) .inl
  · intro y hy
    rcases eq_or_ne y x with rfl | hne
    · exact absurd hy hgone
    · dsimp only
      rw [hother y hne]
      exact h.waiting y hy

/-! ## Runs -/

theorem sound_step (h : Sound none s) (hstep : s.step a = some t) : Sound none t := by
  cases step_turn hstep with
  | enters henters => exact h.enters henters
  | acts i cbs hknown henters hbehind hacts hasleep => exact (h.enters henters).acts hacts
  | creates i fd malloced settings cbs hnew henters hacts =>
      exact ((h.enters henters).create (henters.ios ▸ hnew) fd malloced settings).acts hacts
  | sets i settings hi hspares => exact h.sets i settings
  | returns i rest hstack =>
      exact h.thins ⟨fun _ hi hopen _ _ hslot => ⟨hi, hopen, hslot⟩, fun _ => rfl,
        fun x hx => hstack ▸ List.mem_cons_of_mem _ hx⟩ rfl
  | dispatches i revents hi => exact h.dispatches i revents
  | grows x loop hgrows => exact h.grows hgrows
  | shrinks loop hmemory hheap =>
      exact h.thins ⟨fun _ hi hopen _ _ hslot => ⟨hi, hopen, hslot⟩, fun _ => rfl,
        fun _ hx => hx⟩ hmemory
  | expires x loop ha hidle hallocated hexpires => exact h.expires hidle hallocated hexpires
  | repeats x loop ha hidle hallocated hrepeats hfires =>
      obtain ⟨timer, howner, -, -, -, hmemory⟩ := hrepeats.memory
      refine Sound.fires (.inl (h.repeats hrepeats)) ?_ hfires
      dsimp only
      rw [hmemory, Function.update_self, howner.allocated, hallocated]
  | fires x rest hwaiting hbehind hidle hfires =>
      refine Sound.fires (.inr (h.visits hidle hwaiting)) ?_ hfires
      exact (h.waiting x (hwaiting ▸ List.mem_cons_self)).1
  | finishes x rest hstack => exact h.finishes hstack

theorem sound_run (loop : Loop) (io : ℕ → LoopIo) {as : List LoopAction}
    (h : Run.exec step (start loop io) as = some s) : Sound none s := by
  have halong : Run.Along step (Sound none) (start loop io) as :=
    Run.along_of_meets (fun s a t hs _ hstep => sound_step hs hstep) (.start loop io)
      (Run.Meets.trivial as)
  exact halong.exec h

/-! ## A thread for the examples -/

/-- An io without callbacks. -/
def bare : IoSettings where
  type := .tcp
  read_cb := false
  write_cb := false
  connect_cb := false
  accept_cb := false
  close_cb := false

/-- A thread at time `0`, with all memory free. -/
def fresh : LoopThread :=
  start (loopInit 0 0 (fun _ => { Timer.zero with allocated := false }) fun _ => none)
    fun _ => .new 0 (fun _ => 0) bare

/-- The system calls of a step in which none of them matters. -/
def quiet : World where
  now := 0
  getpeername := true
  sslConnect := .skipped
  handshake := .done
  read := .again
  write := ⟨0, .other, .other⟩
  accepted := none
  malloced := fun _ => 0

end LoopThread

end LibConn
