import LibConn.Model.Dispatchers
import LibConn.Shared.Run
import LibConn.Verification.Heap.Elements
import Mathlib.Data.List.Perm.Subperm
import Mathlib.Data.List.Nodup

/-! # The dispatchers as interest tables

What the interface stands for is a map from descriptors to masks. Each dispatcher
represents that map exactly as long as it is spared the calls that it treats differently:
`poll.c` has one entry for each `add` and drops a whole entry on `del`, `select.c` never
clears a bit on `update`, and `epoll.c` refuses a second `add` and drops a descriptor on
`del`. -/

namespace LibConn

open LibConn.Run

/-! ## The table -/

/-- The mask of each descriptor; a descriptor with mask `0` is absent. -/
abbrev InterestTable := ℤ → Mask

/-- `EVENT_READ`, `EVENT_WRITE` or `EVENT_RW` -/
def IsEvent (event : Mask) : Prop :=
  event = eventRead ∨ event = eventWrite ∨ event = eventRw

instance (event : Mask) : Decidable (IsEvent event) :=
  inferInstanceAs (Decidable (_ ∨ _))

def InterestTable.call (table : InterestTable) (c : DispatcherCall) : InterestTable :=
  Function.update table c.fd
    (match c.op with
    | .add => table c.fd ||| c.event
    | .update => c.event
    | .del => table c.fd &&& ~~~c.event)

/-- The calls that the interface is made for. -/
def DispatcherCall.Legal (table : InterestTable) (c : DispatcherCall) : Prop :=
  0 ≤ c.fd ∧ c.fd < fdSetsize ∧ IsEvent c.event ∧ (c.op = .update → table c.fd ≠ 0)

instance legalDecidable (table : InterestTable) (c : DispatcherCall) : Decidable (c.Legal table) :=
  inferInstanceAs (Decidable (_ ∧ _))

/-- A dispatcher next to the table that it should represent. -/
structure DispatcherSystem (σ : Type) where
  table : InterestTable
  disp : σ

def DispatcherSystem.start {σ : Type} (disp : σ) : DispatcherSystem σ where
  table := fun _ => 0
  disp := disp

/-- One legal call, on the dispatcher and on the table. -/
def DispatcherSystem.step {σ : Type} (d : EventDispatcher σ) (s : DispatcherSystem σ)
    (c : DispatcherCall) : Option (DispatcherSystem σ) :=
  if c.Legal s.table then some { table := s.table.call c, disp := d.call s.disp c } else none

/-! ## Masks -/

/-- A mask that a table can hold. -/
def Mask.Small (mask : Mask) : Prop :=
  mask = 0 ∨ IsEvent mask

/-- What tables hold on the way: small masks, for descriptors in range. -/
structure InterestTable.Ok (table : InterestTable) : Prop where
  small : ∀ fd, Mask.Small (table fd)
  range : ∀ fd, table fd ≠ 0 → 0 ≤ fd ∧ fd < fdSetsize

theorem InterestTable.ok_start : InterestTable.Ok fun _ => 0 :=
  ⟨fun _ => .inl rfl, fun _ h => absurd rfl h⟩

section Masks

variable {mask event other : Mask}

theorem IsEvent.ne_zero (h : IsEvent event) : event ≠ 0 := by
  rcases h with rfl | rfl | rfl <;> decide

theorem Mask.zero_or (mask : Mask) : 0 ||| mask = mask :=
  BitVec.zero_or

theorem Mask.Small.or (h : Mask.Small mask) (he : IsEvent event) : IsEvent (mask ||| event) := by
  rcases h with rfl | rfl | rfl | rfl <;> rcases he with rfl | rfl | rfl <;> decide

theorem Mask.Small.andNot (h : Mask.Small mask) (he : IsEvent event) :
    Mask.Small (mask &&& ~~~event) := by
  rcases h with rfl | rfl | rfl | rfl <;> rcases he with rfl | rfl | rfl <;>
    simp [Mask.Small] <;> decide

theorem Mask.Small.or_and_ne_zero (h : Mask.Small mask) (he : IsEvent event) {bit : Mask}
    (hbit : bit = eventRead ∨ bit = eventWrite) :
    (mask ||| event) &&& bit ≠ 0 ↔ mask &&& bit ≠ 0 ∨ event &&& bit ≠ 0 := by
  rcases h with rfl | rfl | rfl | rfl <;> rcases he with rfl | rfl | rfl <;>
    rcases hbit with rfl | rfl <;> decide

theorem Mask.Small.andNot_and_ne_zero (h : Mask.Small mask) (he : IsEvent event) {bit : Mask}
    (hbit : bit = eventRead ∨ bit = eventWrite) :
    (mask &&& ~~~event) &&& bit ≠ 0 ↔ mask &&& bit ≠ 0 ∧ event &&& bit = 0 := by
  rcases h with rfl | rfl | rfl | rfl <;> rcases he with rfl | rfl | rfl <;>
    rcases hbit with rfl | rfl <;> decide

theorem Mask.Small.covered (h : Mask.Small mask) (he : IsEvent event)
    (hread : mask &&& eventRead ≠ 0 → event &&& eventRead ≠ 0)
    (hwrite : mask &&& eventWrite ≠ 0 → event &&& eventWrite ≠ 0) :
    mask &&& ~~~event = 0 := by
  revert hread hwrite
  rcases h with rfl | rfl | rfl | rfl <;> rcases he with rfl | rfl | rfl <;> decide

theorem Mask.Small.or_of_covered (h : Mask.Small mask) (he : IsEvent event)
    (hcovered : mask &&& ~~~event = 0) : mask ||| event = event := by
  revert hcovered
  rcases h with rfl | rfl | rfl | rfl <;> rcases he with rfl | rfl | rfl <;> decide

theorem pollEvents_inj (h : Mask.Small mask) (h' : Mask.Small other)
    (heq : pollEvents mask = pollEvents other) : mask = other := by
  rcases h with rfl | rfl | rfl | rfl <;> rcases h' with rfl | rfl | rfl | rfl <;>
    first | rfl | exact absurd heq (by decide)

theorem epollEvents_inj (h : Mask.Small mask) (h' : Mask.Small other)
    (heq : epollEvents mask = epollEvents other) : mask = other := by
  rcases h with rfl | rfl | rfl | rfl <;> rcases h' with rfl | rfl | rfl | rfl <;>
    first | rfl | exact absurd heq (by decide)

end Masks

theorem DispatcherSystem.step_eq {σ : Type} {d : EventDispatcher σ} {s t : DispatcherSystem σ}
    {c : DispatcherCall} (h : s.step d c = some t) :
    c.Legal s.table ∧ t = { table := s.table.call c, disp := d.call s.disp c } := by
  rw [DispatcherSystem.step] at h
  split_ifs at h with hlegal
  exact ⟨hlegal, (Option.some.inj h).symm⟩

theorem InterestTable.Ok.call {table : InterestTable} (h : table.Ok) {c : DispatcherCall}
    (hc : c.Legal table) : (table.call c).Ok := by
  obtain ⟨h0, hlt, hevent, -⟩ := hc
  refine ⟨fun fd => ?_, fun fd hne => ?_⟩
  · rcases eq_or_ne fd c.fd with rfl | hfd
    · rw [InterestTable.call, Function.update_self]
      cases c.op with
      | add => exact .inr ((h.small _).or hevent)
      | update => exact .inr hevent
      | del => exact (h.small _).andNot hevent
    · rw [InterestTable.call, Function.update_of_ne hfd]
      exact h.small fd
  · rcases eq_or_ne fd c.fd with rfl | hfd
    · exact ⟨h0, hlt⟩
    · rw [InterestTable.call, Function.update_of_ne hfd] at hne
      exact h.range fd hne

end LibConn
