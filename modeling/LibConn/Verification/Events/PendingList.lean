import LibConn.Model.Events
import Mathlib.Data.List.Basic
import Mathlib.Data.List.Nodup

/-! # The list of pending events

`process_pending_event` runs the list as it was at the start and then drops it. So an event
that is pended during the call is lost unless it was pending anyway, and so is an event
without a callback. -/

namespace LibConn.Events

/-- The events from `head` on are those of the list, in this order. -/
inductive Chain (event : ℕ → Event) : Option ℕ → List ℕ → Prop
  | nil : Chain event none []
  | cons {ev : ℕ} {rest : List ℕ} (h : Chain event (event ev).next_event rest) :
      Chain event (some ev) (ev :: rest)

/-- The event is linked from `loop->pending`. -/
def Linked (loop : EventLoop) (ev : ℕ) : Prop :=
  ∃ list, Chain loop.event loop.pending list ∧ ev ∈ list

/-- What a call of `process_pending_event` on `loop` should do: run every pending event
exactly once, leave no event behind that was pended, and leave flags that say which events
are linked. -/
structure NoneLost (loop : EventLoop) (w : Walk) : Prop where
  once : ∀ ev, (loop.event ev).allocated = true → (loop.event ev).pending = true →
    (loop.event ev).cb = true → w.calls.count ev = 1
  kept : ∀ ev ∈ w.pended, ev ∈ w.calls ∨ Linked w.loop ev
  flags : ∀ ev, (w.loop.event ev).allocated = true →
    ((w.loop.event ev).pending = true ↔ Linked w.loop ev)

/-- `process_pending_event` returns, and loses nothing. -/
def Processed (behaviour : Behaviour) (loop : EventLoop) : Prop :=
  ∃ fuel w, processPendingEvent behaviour fuel loop = some w ∧ NoneLost loop w

/-- The operations only pend events that are pending, and free none of the events `held`. -/
def QuietOps (held : List ℕ) (loop : EventLoop) : List EventOp → Prop
  | [] => True
  | op :: ops =>
    (loop.event op.ev).allocated = true ∧
      (match op with
      | .pending ev => (loop.event ev).pending = true
      | .del ev => ev ∈ held → (loop.event ev).destory = false
      | .reset _ => True) ∧
      QuietOps held (op.apply loop) ops

/-- Every event still to come has a callback, and that callback is quiet. -/
def Quiet (behaviour : Behaviour) (w : Walk) : List ℕ → Prop
  | [] => True
  | ev :: rest =>
    (w.loop.event ev).cb = true ∧ QuietOps (ev :: rest) w.loop (behaviour w.calls ev) ∧
      ∀ w', runEvent behaviour w ev = some w' → Quiet behaviour w' rest

/-- All events of the list have callbacks, and all these callbacks are quiet. -/
def QuietLoop (behaviour : Behaviour) (loop : EventLoop) : Prop :=
  ∀ list, Chain loop.event loop.pending list →
    Quiet behaviour { loop := loop, calls := [], pended := [] } list

/-- The callbacks only call `event_pending`. -/
def PendsOnly (behaviour : Behaviour) : Prop :=
  ∀ calls ev, ∀ op ∈ behaviour calls ev, op = .pending op.ev

variable {behaviour : Behaviour} {loop : EventLoop} {w w' : Walk} {head : Option ℕ}
  {list rest : List ℕ} {ev : ℕ}

/-! ## Chains -/

theorem Chain.unique {event : ℕ → Event} {list' : List ℕ} (h : Chain event head list)
    (h' : Chain event head list') : list = list' := by
  induction h generalizing list' with
  | nil =>
      cases h'
      rfl
  | cons _ ih =>
      cases h' with
      | cons h' => rw [ih h']

theorem Chain.congr {event event' : ℕ → Event} (h : Chain event head list)
    (hnext : ∀ ev ∈ list, (event' ev).next_event = (event ev).next_event) :
    Chain event' head list := by
  induction h with
  | nil => exact .nil
  | cons _ ih =>
      apply Chain.cons
      rw [hnext _ (List.mem_cons_self ..)]
      exact ih fun ev hev => hnext ev (List.mem_cons_of_mem _ hev)

theorem not_linked_of_none (h : loop.pending = none) : ¬ Linked loop ev := by
  rintro ⟨list, hchain, hmem⟩
  rw [h] at hchain
  cases hchain
  exact absurd hmem List.not_mem_nil

/-- A list of pending events as `event_pending` builds it. -/
structure Listed (loop : EventLoop) (list : List ℕ) : Prop where
  chain : Chain loop.event loop.pending list
  nodup : list.Nodup
  alive : ∀ ev ∈ list, (loop.event ev).allocated = true
  flags : ∀ ev, (loop.event ev).allocated = true →
    ((loop.event ev).pending = true ↔ ev ∈ list)

theorem listed_start {event : ℕ → Event}
    (h : ∀ ev, (event ev).allocated = true → (event ev).pending = false) :
    Listed (start event) [] where
  chain := .nil
  nodup := .nil
  alive _ hmem := absurd hmem List.not_mem_nil
  flags ev halloc := by
    rw [start, h ev halloc]
    simp

theorem setEvent_self (loop : EventLoop) (ev : ℕ) (event : Event) :
    (loop.setEvent ev event).event ev = event :=
  Function.update_self ..

theorem setEvent_of_ne (loop : EventLoop) {ev other : ℕ} (event : Event) (h : other ≠ ev) :
    (loop.setEvent ev event).event other = loop.event other :=
  Function.update_of_ne h ..

theorem eventPending_of_pending (h : (loop.event ev).pending = true) :
    eventPending loop ev = loop :=
  if_pos h

theorem eventPending_event (h : (loop.event ev).pending = false) :
    (eventPending loop ev).event = Function.update loop.event ev
      { loop.event ev with pending := true, next_event := loop.pending } := by
  rw [eventPending, h]
  rfl

/-- `event_pending` puts an event on the list once. -/
theorem Listed.pending (h : Listed loop list) (halloc : (loop.event ev).allocated = true) :
    ∃ list', Listed (eventPending loop ev) list' := by
  by_cases hpending : (loop.event ev).pending = true
  · rw [eventPending_of_pending hpending]
    exact ⟨list, h⟩
  · have hfalse := eq_false_of_ne_true hpending
    have hnot : ev ∉ list := fun hmem => hpending ((h.flags ev halloc).mpr hmem)
    have hevent := eventPending_event hfalse
    have hhead : (eventPending loop ev).pending = some ev := by
      rw [eventPending, hfalse]
      rfl
    refine ⟨ev :: list, ?_, List.nodup_cons.mpr ⟨hnot, h.nodup⟩, ?_, ?_⟩
    · rw [hhead, hevent]
      apply Chain.cons
      rw [Function.update_self]
      apply h.chain.congr
      intro other hother
      rw [Function.update_of_ne]
      rintro rfl
      exact hnot hother
    · intro other hother
      rw [hevent]
      rcases eq_or_ne other ev with rfl | hne
      · rwa [Function.update_self]
      · rw [Function.update_of_ne hne]
        exact h.alive other ((List.mem_cons.mp hother).resolve_left hne)
    · intro other
      rw [hevent]
      rcases eq_or_ne other ev with rfl | hne
      · simp
      · rw [Function.update_of_ne hne, List.mem_cons, or_iff_right hne]
        exact h.flags other

theorem eventPending_allocated (loop : EventLoop) (ev other : ℕ) :
    ((eventPending loop ev).event other).allocated = (loop.event other).allocated := by
  by_cases h : (loop.event ev).pending = true
  · rw [eventPending_of_pending h]
  · rw [eventPending_event (eq_false_of_ne_true h)]
    rcases eq_or_ne other ev with rfl | hne
    · rw [Function.update_self]
    · rw [Function.update_of_ne hne]

theorem Listed.pendAll {evs : List ℕ} (h : Listed loop list)
    (halloc : ∀ ev ∈ evs, (loop.event ev).allocated = true) :
    ∃ list', Listed (pendAll loop evs) list' := by
  induction evs generalizing loop list with
  | nil => exact ⟨list, h⟩
  | cons ev evs ih =>
      obtain ⟨list', h'⟩ := h.pending (halloc ev (List.mem_cons_self ..))
      apply ih h'
      intro other hother
      rw [eventPending_allocated]
      exact halloc other (List.mem_cons_of_mem _ hother)

/-! ## Quiet callbacks -/

/-- What quiet operations leave as it was: the links, the callbacks and the events `held`.
No flag is raised. -/
structure Calm (held : List ℕ) (before after : EventLoop) : Prop where
  next : ∀ ev, (after.event ev).next_event = (before.event ev).next_event
  cb : ∀ ev, (after.event ev).cb = (before.event ev).cb
  alive : ∀ ev ∈ held, (before.event ev).allocated = true → (after.event ev).allocated = true
  allocated : ∀ ev, (after.event ev).allocated = true → (before.event ev).allocated = true
  flags : ∀ ev, (after.event ev).pending = true → (before.event ev).pending = true

theorem Calm.refl (held : List ℕ) (loop : EventLoop) : Calm held loop loop :=
  ⟨fun _ => rfl, fun _ => rfl, fun _ _ h => h, fun _ h => h, fun _ h => h⟩

theorem Calm.trans {held : List ℕ} {a b c : EventLoop} (hab : Calm held a b)
    (hbc : Calm held b c) : Calm held a c where
  next ev := (hbc.next ev).trans (hab.next ev)
  cb ev := (hbc.cb ev).trans (hab.cb ev)
  alive ev hev h := hbc.alive ev hev (hab.alive ev hev h)
  allocated ev h := hab.allocated ev (hbc.allocated ev h)
  flags ev h := hab.flags ev (hbc.flags ev h)

theorem Calm.setEvent {held : List ℕ} {event : Event}
    (hnext : event.next_event = (loop.event ev).next_event) (hcb : event.cb = (loop.event ev).cb)
    (halive : ev ∈ held → event.allocated = (loop.event ev).allocated)
    (hallocated : event.allocated = true → (loop.event ev).allocated = true)
    (hflag : event.pending = true → (loop.event ev).pending = true) :
    Calm held loop (loop.setEvent ev event) := by
  refine ⟨fun other => ?_, fun other => ?_, fun other hheld => ?_, fun other => ?_,
    fun other => ?_⟩ <;>
    rcases eq_or_ne other ev with rfl | hne
  · rwa [setEvent_self]
  · rw [setEvent_of_ne loop event hne]
  · rwa [setEvent_self]
  · rw [setEvent_of_ne loop event hne]
  · rw [setEvent_self, halive hheld]
    exact id
  · rw [setEvent_of_ne loop event hne]
    exact id
  · rwa [setEvent_self]
  · rw [setEvent_of_ne loop event hne]
    exact id
  · rwa [setEvent_self]
  · rw [setEvent_of_ne loop event hne]
    exact id

theorem Calm.del {held : List ℕ} (h : ev ∈ held → (loop.event ev).destory = false) :
    Calm held loop (eventDel loop ev) := by
  rw [eventDel]
  split_ifs with hdestory
  · refine Calm.setEvent rfl rfl (fun hmem => ?_) nofun id
    rw [h hmem] at hdestory
    exact absurd hdestory Bool.false_ne_true
  · exact .refl held loop

theorem QuietOps.run {held : List ℕ} {ops : List EventOp} (h : QuietOps held loop ops) :
    ∃ loop', runOps loop ops = some loop' ∧ Calm held loop loop' ∧
      ∀ ev ∈ pendedBy ops,
        (loop.event ev).allocated = true ∧ (loop.event ev).pending = true := by
  induction ops generalizing loop with
  | nil => exact ⟨loop, rfl, .refl held loop, nofun⟩
  | cons op ops ih =>
      obtain ⟨halloc, hop, hrest⟩ := h
      have hcalm : Calm held loop (op.apply loop) := by
        cases op with
        | pending ev =>
            rw [EventOp.apply, eventPending_of_pending hop]
            exact .refl held loop
        | del ev => exact .del hop
        | reset ev => exact Calm.setEvent rfl rfl (fun _ => rfl) id nofun
      obtain ⟨loop', hrun, hcalm', hpended⟩ := ih hrest
      refine ⟨loop', ?_, hcalm.trans hcalm', ?_⟩
      · rw [runOps, if_pos halloc, hrun]
      · intro ev hev
        cases op with
        | pending other =>
            rcases List.mem_cons.mp hev with rfl | hev
            · exact ⟨halloc, hop⟩
            · obtain ⟨h₁, h₂⟩ := hpended ev hev
              exact ⟨hcalm.allocated ev h₁, hcalm.flags ev h₂⟩
        | del other =>
            obtain ⟨h₁, h₂⟩ := hpended ev hev
            exact ⟨hcalm.allocated ev h₁, hcalm.flags ev h₂⟩
        | reset other =>
            obtain ⟨h₁, h₂⟩ := hpended ev hev
            exact ⟨hcalm.allocated ev h₁, hcalm.flags ev h₂⟩

/-- The events that are still to come: linked in this order, live, and the only ones that
may be pending. -/
structure Ahead (loop : EventLoop) (head : Option ℕ) (list : List ℕ) : Prop where
  chain : Chain loop.event head list
  nodup : list.Nodup
  alive : ∀ ev ∈ list, (loop.event ev).allocated = true
  flags : ∀ ev, (loop.event ev).allocated = true → (loop.event ev).pending = true → ev ∈ list

theorem Ahead.calm (h : Ahead loop head list) {loop' : EventLoop} (hcalm : Calm list loop loop') :
    Ahead loop' head list where
  chain := h.chain.congr fun ev _ => hcalm.next ev
  nodup := h.nodup
  alive ev hev := hcalm.alive ev hev (h.alive ev hev)
  flags ev halloc hpending := h.flags ev (hcalm.allocated ev halloc) (hcalm.flags ev hpending)

/-- What is left to do behind a callback: the flag goes down, and a destroyed event is
freed. -/
def done (loop : EventLoop) (ev : ℕ) : EventLoop :=
  let loop := loop.setEvent ev { loop.event ev with pending := false }
  if (loop.event ev).destory then eventDel loop ev else loop

theorem done_calm (h : ev ∉ list) : Calm list loop (done loop ev) := by
  have hset : Calm list loop (loop.setEvent ev { loop.event ev with pending := false }) :=
    Calm.setEvent rfl rfl (fun _ => rfl) id nofun
  rw [done]
  dsimp only
  split_ifs
  · exact hset.trans (.del fun hmem => absurd hmem h)
  · exact hset

theorem done_pending : ((done loop ev).event ev).pending = false := by
  rw [done]
  dsimp only
  rw [eventDel]
  split_ifs <;> simp [setEvent_self]

theorem Ahead.done (h : Ahead loop head (ev :: rest)) :
    Ahead (done loop ev) (loop.event ev).next_event rest := by
  have hnodup := List.nodup_cons.mp h.nodup
  have hchain : Chain loop.event (loop.event ev).next_event rest := by
    cases h.chain with
    | cons h => exact h
  have hdone : Calm rest loop (Events.done loop ev) := done_calm hnodup.1
  refine ⟨hchain.congr fun other _ => hdone.next other, hnodup.2, ?_, ?_⟩
  · exact fun other hother =>
      hdone.alive other hother (h.alive other (List.mem_cons_of_mem _ hother))
  · intro other halloc hpending
    have hmem := h.flags other (hdone.allocated other halloc) (hdone.flags other hpending)
    rcases List.mem_cons.mp hmem with rfl | hmem
    · rw [done_pending] at hpending
      exact absurd hpending Bool.false_ne_true
    · exact hmem

theorem runEvent_eq_some {loop' : EventLoop}
    (hrun : runOps w.loop (behaviour w.calls ev) = some loop')
    (halloc : (loop'.event ev).allocated = true) :
    runEvent behaviour w ev = some
      { loop := done loop' ev
        calls := w.calls ++ [ev]
        pended := w.pended ++ pendedBy (behaviour w.calls ev) } := by
  rw [runEvent, hrun, Option.bind_some, if_pos halloc]
  rfl

/-- Running the first event of a quiet list, up to the next one. -/
theorem Ahead.runEvent (h : Ahead w.loop head (ev :: rest))
    (hquiet : QuietOps (ev :: rest) w.loop (behaviour w.calls ev)) :
    ∃ w', runEvent behaviour w ev = some w' ∧
      Ahead w'.loop (w.loop.event ev).next_event rest ∧ w'.calls = w.calls ++ [ev] ∧
      (∀ x ∈ w'.pended, x ∈ w.pended ∨ x ∈ ev :: rest) ∧
      ∀ x, (w'.loop.event x).cb = (w.loop.event x).cb := by
  obtain ⟨loop', hrun, hcalm, hpended⟩ := hquiet.run
  have hahead := h.calm hcalm
  have hdone := hahead.done
  rw [hcalm.next ev] at hdone
  refine ⟨_, runEvent_eq_some hrun (hahead.alive ev (List.mem_cons_self ..)), hdone, rfl, ?_, ?_⟩
  · intro x hx
    rcases List.mem_append.mp hx with hx | hx
    · exact .inl hx
    · obtain ⟨hxalloc, hxpending⟩ := hpended x hx
      exact .inr (h.flags x hxalloc hxpending)
  · intro x
    have hcalm' : Calm rest loop' (Events.done loop' ev) :=
      done_calm (List.nodup_cons.mp h.nodup).1
    exact (hcalm'.cb x).trans (hcalm.cb x)

/-- A quiet list is run from its first event to its last, each event once. -/
theorem Ahead.walk (h : Ahead w.loop head list) (hquiet : Quiet behaviour w list) :
    ∃ w', walk behaviour list.length head w = some w' ∧ w'.calls = w.calls ++ list ∧
      w'.loop.pending = none ∧
      (∀ ev, (w'.loop.event ev).allocated = true → (w'.loop.event ev).pending = false) ∧
      ∀ ev ∈ w'.pended, ev ∈ w.pended ∨ ev ∈ list := by
  induction list generalizing w head with
  | nil =>
      cases h.chain
      refine ⟨_, rfl, by simp, rfl, fun ev halloc => ?_, fun ev hev => .inl hev⟩
      exact eq_false_of_ne_true fun hpending =>
        absurd (h.flags ev halloc hpending) List.not_mem_nil
  | cons ev rest ih =>
      obtain ⟨hcb, hops, hnext⟩ := hquiet
      obtain ⟨w₁, hrun, hahead, hcalls, hpended, -⟩ := h.runEvent hops
      obtain ⟨w', hwalk, hcalls', hnone, hflags, hpended'⟩ := ih hahead (hnext w₁ hrun)
      have halloc := h.alive ev (List.mem_cons_self ..)
      cases h.chain
      refine ⟨w', ?_, ?_, hnone, hflags, ?_⟩
      · rw [List.length_cons, Events.walk, if_pos halloc, if_pos hcb, hrun, Option.bind_some,
          hwalk]
      · rw [hcalls', hcalls, List.append_assoc, List.singleton_append]
      · intro x hx
        rcases hpended' x hx with hx | hx
        · exact hpended x hx
        · exact .inr (List.mem_cons_of_mem _ hx)

theorem Listed.processed (h : Listed loop list) (hquiet : QuietLoop behaviour loop) :
    Processed behaviour loop := by
  have hahead : Ahead loop loop.pending list :=
    ⟨h.chain, h.nodup, h.alive, fun ev halloc => (h.flags ev halloc).mp⟩
  obtain ⟨w', hwalk, hcalls, hnone, hflags, hpended⟩ :=
    Ahead.walk (w := { loop := loop, calls := [], pended := [] }) hahead (hquiet list h.chain)
  rw [List.nil_append] at hcalls
  refine ⟨list.length, w', hwalk, ?_, ?_, ?_⟩
  · intro ev halloc hpending _
    rw [hcalls]
    exact List.count_eq_one_of_mem h.nodup ((h.flags ev halloc).mp hpending)
  · intro ev hev
    rw [hcalls]
    exact .inl ((hpended ev hev).resolve_left List.not_mem_nil)
  · intro ev halloc
    rw [hflags ev halloc]
    exact iff_of_false Bool.false_ne_true (not_linked_of_none hnone)

/-! ## Callbacks that only pend events -/

/-- What `event_pending` leaves as it was: all but the flag and the link of events that were
not pending. -/
structure Grown (before after : EventLoop) : Prop where
  pending : ∀ ev, (before.event ev).pending = true → after.event ev = before.event ev
  allocated : ∀ ev, (after.event ev).allocated = (before.event ev).allocated

theorem Grown.refl (loop : EventLoop) : Grown loop loop :=
  ⟨fun _ _ => rfl, fun _ => rfl⟩

theorem Grown.eventPending (loop : EventLoop) (ev : ℕ) : Grown loop (eventPending loop ev) := by
  refine ⟨fun other hother => ?_, eventPending_allocated loop ev⟩
  by_cases h : (loop.event ev).pending = true
  · rw [eventPending_of_pending h]
  · rw [eventPending_event (eq_false_of_ne_true h), Function.update_of_ne]
    rintro rfl
    exact h hother

theorem Grown.trans {a b c : EventLoop} (hab : Grown a b) (hbc : Grown b c) : Grown a c where
  pending ev h := by
    have hb := hab.pending ev h
    rw [hbc.pending ev (by rw [hb, h]), hb]
  allocated ev := (hbc.allocated ev).trans (hab.allocated ev)

theorem Grown.run {ops : List EventOp} {loop' : EventLoop}
    (hops : ∀ op ∈ ops, op = .pending op.ev) (h : runOps loop ops = some loop') :
    Grown loop loop' := by
  induction ops generalizing loop with
  | nil =>
      cases h
      exact .refl _
  | cons op ops ih =>
      rw [runOps] at h
      split_ifs at h
      obtain ⟨x, rfl⟩ : ∃ x, op = .pending x := ⟨op.ev, hops op (List.mem_cons_self ..)⟩
      exact (Grown.eventPending loop x).trans
        (ih (fun other hother => hops other (List.mem_cons_of_mem _ hother)) h)

theorem quietOps_of_run {ops : List EventOp} {loop' : EventLoop} (held : List ℕ)
    (hops : ∀ op ∈ ops, op = .pending op.ev) (h : runOps loop ops = some loop')
    (hflags : ∀ ev, (loop'.event ev).allocated = true → (loop'.event ev).pending = true →
      (loop.event ev).pending = true) : QuietOps held loop ops := by
  induction ops generalizing loop with
  | nil => trivial
  | cons op ops ih =>
      rw [runOps] at h
      split_ifs at h with halloc
      obtain ⟨x, rfl⟩ : ∃ x, op = .pending x := ⟨op.ev, hops op (List.mem_cons_self ..)⟩
      have hrest : ∀ other ∈ ops, other = .pending other.ev :=
        fun other hother => hops other (List.mem_cons_of_mem _ hother)
      have hgrown := Grown.run hrest h
      have hpending : (loop.event x).pending = true := by
        by_contra hne
        -- the flag goes up and stays up
        have hraised : ((eventPending loop x).event x).pending = true := by
          rw [eventPending_event (eq_false_of_ne_true hne), Function.update_self]
        have hstays := hgrown.pending x hraised
        apply hne
        apply hflags x
        · rw [hgrown.allocated x]
          exact (eventPending_allocated loop x x).trans halloc
        · rw [hstays]
          exact hraised
      rw [EventOp.apply, eventPending_of_pending hpending] at h
      refine ⟨halloc, hpending, ?_⟩
      rw [EventOp.apply, eventPending_of_pending hpending]
      exact ih hrest h hflags

/-- The events that are still to come, when callbacks only pend events: all of them are
pending. -/
structure Flagged (loop : EventLoop) (head : Option ℕ) (list : List ℕ) : Prop where
  chain : Chain loop.event head list
  nodup : list.Nodup
  flags : ∀ ev ∈ list, (loop.event ev).pending = true

theorem Flagged.tail (h : Flagged loop head (ev :: rest)) :
    Flagged loop (loop.event ev).next_event rest where
  chain := by
    cases h.chain with
    | cons h => exact h
  nodup := (List.nodup_cons.mp h.nodup).2
  flags other hother := h.flags other (List.mem_cons_of_mem _ hother)

theorem runEvent_eq (hops : PendsOnly behaviour) (h : runEvent behaviour w ev = some w') :
    ∃ loop', runOps w.loop (behaviour w.calls ev) = some loop' ∧ Grown w.loop loop' ∧
      ∀ other, other ≠ ev → w'.loop.event other = loop'.event other := by
  obtain ⟨loop', hrun, h⟩ := Option.bind_eq_some_iff.mp h
  refine ⟨loop', hrun, .run (hops _ _) hrun, fun other hne => ?_⟩
  split_ifs at h with halloc
  cases h
  dsimp only
  split_ifs
  · rw [eventDel]
    split_ifs
    all_goals simp only [setEvent_of_ne _ _ hne]
  · rw [setEvent_of_ne _ _ hne]

theorem Flagged.runEvent (h : Flagged w.loop head (ev :: rest)) (hops : PendsOnly behaviour)
    (hrun : runEvent behaviour w ev = some w') :
    Flagged w'.loop (w.loop.event ev).next_event rest := by
  obtain ⟨loop', -, hgrown, hothers⟩ := runEvent_eq hops hrun
  have hsame : ∀ other ∈ rest, w'.loop.event other = w.loop.event other := by
    intro other hother
    rw [hothers other fun heq => (List.nodup_cons.mp h.nodup).1 (heq ▸ hother)]
    exact hgrown.pending other (h.tail.flags other hother)
  refine ⟨h.tail.chain.congr fun other hother => by rw [hsame other hother], h.tail.nodup, ?_⟩
  intro other hother
  rw [hsame other hother]
  exact h.tail.flags other hother

theorem Flagged.stays (h : Flagged w.loop head list) (hops : PendsOnly behaviour) {fuel : ℕ}
    (hwalk : walk behaviour fuel head w = some w') {x : ℕ} (hx : x ∉ list)
    (halloc : (w.loop.event x).allocated = true) (hpending : (w.loop.event x).pending = true) :
    (w'.loop.event x).allocated = true ∧ (w'.loop.event x).pending = true := by
  induction list generalizing w head fuel with
  | nil =>
      cases h.chain
      rw [walk] at hwalk
      cases hwalk
      exact ⟨halloc, hpending⟩
  | cons ev rest ih =>
      have hne : x ≠ ev := List.ne_of_not_mem_cons hx
      have hx' : x ∉ rest := List.not_mem_of_not_mem_cons hx
      cases h.chain
      cases fuel with
      | zero => cases hwalk
      | succ fuel =>
          rw [walk] at hwalk
          split_ifs at hwalk with hlive hcb
          · obtain ⟨w₁, hrun, hwalk⟩ := Option.bind_eq_some_iff.mp hwalk
            obtain ⟨loop', -, hgrown, hothers⟩ := runEvent_eq hops hrun
            have hsame : w₁.loop.event x = w.loop.event x := by
              rw [hothers x hne, hgrown.pending x hpending]
            apply ih (h.runEvent hops hrun) hwalk hx'
            · rw [hsame, halloc]
            · rw [hsame, hpending]
          · exact ih h.tail hwalk hx' halloc hpending

theorem Flagged.quiet (h : Flagged w.loop head list) (hops : PendsOnly behaviour) {fuel : ℕ}
    (hwalk : walk behaviour fuel head w = some w')
    (hdown : ∀ ev, (w'.loop.event ev).allocated = true → (w'.loop.event ev).pending = false) :
    Quiet behaviour w list := by
  induction list generalizing w head fuel with
  | nil => trivial
  | cons ev rest ih =>
      have hnot : ev ∉ rest := (List.nodup_cons.mp h.nodup).1
      have hflag := h.flags ev (List.mem_cons_self ..)
      cases h.chain
      cases fuel with
      | zero => cases hwalk
      | succ fuel =>
          rw [walk] at hwalk
          split_ifs at hwalk with hlive hcb
          · obtain ⟨w₁, hrun, hwalk⟩ := Option.bind_eq_some_iff.mp hwalk
            obtain ⟨loop', hops', hgrown, hothers⟩ := runEvent_eq hops hrun
            have hnext := h.runEvent hops hrun
            refine ⟨hcb, ?_, ?_⟩
            · apply quietOps_of_run _ (hops _ _) hops'
              intro x halloc hpending
              by_cases hx : x ∈ ev :: rest
              · exact h.flags x hx
              · have hsame := hothers x (List.ne_of_not_mem_cons hx)
                rw [← hsame] at halloc hpending
                obtain ⟨halloc', hpending'⟩ :=
                  hnext.stays hops hwalk (List.not_mem_of_not_mem_cons hx) halloc hpending
                rw [hdown x halloc'] at hpending'
                exact absurd hpending' Bool.false_ne_true
            · intro w₂ hrun'
              rw [hrun] at hrun'
              cases hrun'
              exact ih hnext hwalk
          · -- an event that has no callback keeps its flag
            obtain ⟨halloc', hpending'⟩ := h.tail.stays hops hwalk hnot hlive hflag
            rw [hdown ev halloc'] at hpending'
            exact absurd hpending' Bool.false_ne_true

theorem walk_pending {fuel : ℕ} (h : walk behaviour fuel head w = some w') :
    w'.loop.pending = none := by
  induction fuel generalizing head w with
  | zero =>
      cases head with
      | none =>
          cases h
          rfl
      | some cur => cases h
  | succ fuel ih =>
      cases head with
      | none =>
          cases h
          rfl
      | some cur =>
          rw [walk] at h
          split_ifs at h
          · obtain ⟨w₁, -, h⟩ := Option.bind_eq_some_iff.mp h
            exact ih h
          · exact ih h

theorem Listed.quiet (h : Listed loop list) (hops : PendsOnly behaviour)
    (hprocessed : Processed behaviour loop) : QuietLoop behaviour loop := by
  obtain ⟨fuel, w, hwalk, hnone⟩ := hprocessed
  intro list' hchain
  have hflagged : Flagged loop loop.pending list' := by
    obtain rfl := hchain.unique h.chain
    exact ⟨h.chain, h.nodup, fun ev hev => (h.flags ev (h.alive ev hev)).mpr hev⟩
  apply Flagged.quiet hflagged hops hwalk
  intro ev halloc
  exact eq_false_of_ne_true fun hpending =>
    not_linked_of_none (walk_pending hwalk) ((hnone.flags ev halloc).mp hpending)

/-- The callback of each event to come is set, and pends only that event and those behind
it. -/
def PendsAhead (behaviour : Behaviour) (cb : ℕ → Bool) (calls : List ℕ) : List ℕ → Prop
  | [] => True
  | ev :: rest =>
    cb ev = true ∧ (∀ x ∈ pendedBy (behaviour calls ev), x ∈ ev :: rest) ∧
      PendsAhead behaviour cb (calls ++ [ev]) rest

theorem quietOps_of_mem {ops : List EventOp} {held : List ℕ}
    (hops : ∀ op ∈ ops, op = .pending op.ev)
    (h : ∀ x ∈ pendedBy ops, (loop.event x).allocated = true ∧ (loop.event x).pending = true) :
    QuietOps held loop ops := by
  induction ops with
  | nil => trivial
  | cons op ops ih =>
      obtain ⟨x, rfl⟩ : ∃ x, op = .pending x := ⟨op.ev, hops op (List.mem_cons_self ..)⟩
      obtain ⟨halloc, hpending⟩ := h x (List.mem_cons_self ..)
      refine ⟨halloc, hpending, ?_⟩
      rw [EventOp.apply, eventPending_of_pending hpending]
      exact ih (fun other hother => hops other (List.mem_cons_of_mem _ hother))
        fun other hother => h other (List.mem_cons_of_mem _ hother)

theorem Ahead.quiet_iff (h : Ahead w.loop head list) (hflagged : Flagged w.loop head list)
    (hops : PendsOnly behaviour) :
    Quiet behaviour w list ↔
      PendsAhead behaviour (fun ev => (w.loop.event ev).cb) w.calls list := by
  induction list generalizing w head with
  | nil => exact Iff.rfl
  | cons ev rest ih =>
      have hquiet : QuietOps (ev :: rest) w.loop (behaviour w.calls ev) ↔
          ∀ x ∈ pendedBy (behaviour w.calls ev), x ∈ ev :: rest := by
        constructor
        · intro hquiet x hx
          obtain ⟨-, -, -, hpended⟩ := hquiet.run
          obtain ⟨halloc, hpending⟩ := hpended x hx
          exact h.flags x halloc hpending
        · intro hmem
          apply quietOps_of_mem (hops _ _)
          exact fun x hx => ⟨h.alive x (hmem x hx), hflagged.flags x (hmem x hx)⟩
      rw [Quiet, PendsAhead, hquiet]
      refine and_congr_right fun _ => and_congr_right fun hmem => ?_
      obtain ⟨w₁, hrun, hahead, hcalls, -, hcb⟩ := h.runEvent (hquiet.mpr hmem)
      have hiff := ih hahead (hflagged.runEvent hops hrun)
      rw [hcalls, funext hcb] at hiff
      rw [← hiff]
      constructor
      · exact fun hnext => hnext w₁ hrun
      · intro hnext w₂ hrun'
        rw [hrun] at hrun'
        cases hrun'
        exact hnext

/-- `PendsAhead` for the list of pending events. -/
def PendsAheadLoop (behaviour : Behaviour) (loop : EventLoop) : Prop :=
  ∀ list, Chain loop.event loop.pending list →
    PendsAhead behaviour (fun ev => (loop.event ev).cb) [] list

theorem Listed.quietLoop_iff (h : Listed loop list) (hops : PendsOnly behaviour) :
    QuietLoop behaviour loop ↔ PendsAheadLoop behaviour loop := by
  have hahead : Ahead loop loop.pending list :=
    ⟨h.chain, h.nodup, h.alive, fun ev halloc => (h.flags ev halloc).mp⟩
  have hflagged : Flagged loop loop.pending list :=
    ⟨h.chain, h.nodup, fun ev hev => (h.flags ev (h.alive ev hev)).mpr hev⟩
  refine forall_congr' fun list' => forall_congr' fun hchain => ?_
  obtain rfl := hchain.unique h.chain
  exact Ahead.quiet_iff (w := { loop := loop, calls := [], pended := [] }) hahead hflagged hops

/-! ## The call -/

/-- For every set of pended events: quiet callbacks are enough, whatever else they do. When
all that callbacks do is to pend events, it is needed that each event has a callback that
pends only itself and events behind it on the list. -/
theorem processed_iff_pendsAhead (event : ℕ → Event) (evs : List ℕ)
    (hidle : ∀ ev, (event ev).allocated = true → (event ev).pending = false)
    (hevs : ∀ ev ∈ evs, (event ev).allocated = true) (behaviour : Behaviour) :
    (QuietLoop behaviour (pendAll (start event) evs) →
        Processed behaviour (pendAll (start event) evs)) ∧
      (PendsOnly behaviour →
        (Processed behaviour (pendAll (start event) evs) ↔
          PendsAheadLoop behaviour (pendAll (start event) evs))) := by
  obtain ⟨list, hlisted⟩ := (listed_start hidle).pendAll hevs
  refine ⟨hlisted.processed, fun hops => ?_⟩
  rw [← hlisted.quietLoop_iff hops]
  exact ⟨hlisted.quiet hops, hlisted.processed⟩

/-- Two idle events, of which the first pends itself and the second does nothing. -/
theorem processed_iff_pendsAhead_two :
    Processed (fun _ ev => if ev = 1 then [.pending 1] else [])
      (pendAll (start fun _ => ⟨true, true, none, false, false, false⟩) [2, 1, 2]) := by
  refine (processed_iff_pendsAhead (fun _ => ⟨true, true, none, false, false, false⟩) [2, 1, 2]
    (fun _ _ => rfl) (fun _ _ => rfl) _).1 ?_
  intro list hchain
  obtain rfl : list = [1, 2] := hchain.unique (.cons (.cons .nil))
  refine ⟨rfl, ⟨rfl, rfl, trivial⟩, ?_⟩
  rintro _ ⟨⟩
  refine ⟨rfl, trivial, ?_⟩
  rintro _ ⟨⟩
  trivial

/-- A callback pends another event, and the list that this event is on is dropped. -/
theorem not_processed_nested :
    ¬ Processed (fun _ ev => if ev = 1 then [.pending 2] else [])
      (pendAll (start fun _ => ⟨true, true, none, false, false, false⟩) [1]) := by
  rintro ⟨fuel, w, hwalk, hnone⟩
  cases fuel with
  | zero => cases hwalk
  | succ fuel =>
      cases fuel <;> cases hwalk <;>
        exact not_linked_of_none rfl ((hnone.flags 2 rfl).mp rfl)

end LibConn.Events
