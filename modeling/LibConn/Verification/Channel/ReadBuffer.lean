import LibConn.Model.ReadBuffer
import LibConn.Shared.Run
import LibConn.Verification.Io.Stream

/-! # What the read buffer holds

A call grows the block when what was written before and what is to be written do not leave a
byte of it, so that it never grows beyond three times the largest call. -/

namespace LibConn.Channel

open LibConn.Memory
open LibConn.Run

/-! ## The block -/

/-- The block begins with these bytes, and a zero byte behind them is still in it. -/
structure Represents (m_buf : BufferSt) (bytes : List UInt8) : Prop where
  size : m_buf.size = bytes.length
  data : ∃ data, m_buf.data = some data ∧ slice data 0 bytes.length = bytes ∧ data bytes.length = 0
  lt_cap : bytes.length < m_buf.cap

/-- The indices are in the block, the block has its capacity, and nothing was stored past it. -/
structure Bounded (M : ℕ) (m_buf : BufferSt) : Prop where
  allocated : m_buf.allocated = m_buf.cap
  read_index : m_buf.read_index = 0
  write_lt : m_buf.write_index < m_buf.cap
  cap_le : m_buf.cap ≤ max 32768 (3 * M)
  stores : ∀ store ∈ m_buf.stores, store.1 ≤ store.2

/-- With this, what was written last is at most `M` bytes. -/
structure Sound (M : ℕ) (m_buf : BufferSt) : Prop extends Bounded M m_buf where
  data : m_buf.data.isSome = true
  write_le : m_buf.write_index ≤ M

variable {M : ℕ} {m_buf : BufferSt} {buf : List UInt8}

theorem Bounded.cap_lt (hM : M ≤ 2 ^ 21) (h : Bounded M m_buf) : m_buf.cap < 2 ^ 23 := by
  have hle := h.cap_le
  omega

theorem Bounded.writeableSize (hM : M ≤ 2 ^ 21) (h : Bounded M m_buf) :
    u64 m_buf.writeableSize = m_buf.cap - m_buf.write_index := by
  have hcap := h.cap_lt hM
  have hlt := h.write_lt
  have hsub : (m_buf.cap : ℤ) - m_buf.write_index = (m_buf.cap - m_buf.write_index : ℕ) := by omega
  rw [BufferSt.writeableSize, hsub, u64_of_lt (by omega), int32_of_lt (by omega) (by omega),
    u64_of_lt (by omega)]

/-- Once there is room for the bytes and one more, they are stored. -/
theorem Bounded.replace (hM : M ≤ 2 ^ 21) (h : Bounded M m_buf) (hdata : m_buf.data.isSome = true)
    (hbuf : buf.length ≤ M) (hroom : buf.length < m_buf.cap) :
    Sound M (m_buf.replace buf) ∧ Represents (m_buf.replace buf) buf := by
  obtain ⟨data, hdata⟩ := Option.isSome_iff_exists.mp hdata
  have hwrite : (m_buf.replace buf).write_index = buf.length := by
    change u64 ((0 : ℕ) + (buf.length : ℤ)) = _
    rw [← Int.natCast_add, u64_of_lt (by omega), Nat.zero_add]
  have hread : (m_buf.replace buf).read_index = 0 := h.read_index
  have hstored : (m_buf.replace buf).data =
      some (copy (copy data 0 (List.replicate m_buf.cap 0)) 0 buf) := by
    simp [BufferSt.replace, BufferSt.fill, hdata]
  have hstores : (m_buf.replace buf).stores =
      m_buf.stores ++ [(m_buf.cap, m_buf.allocated), (buf.length, m_buf.allocated)] := by
    simp [BufferSt.replace, BufferSt.fill]
  refine ⟨⟨⟨h.allocated, hread, ?_, h.cap_le, ?_⟩, ?_, ?_⟩, ⟨?_, ?_, hroom⟩⟩
  · rw [hwrite]
    exact hroom
  · intro store hstore
    rw [hstores, List.mem_append, List.mem_cons, List.mem_singleton] at hstore
    rcases hstore with hstore | rfl | rfl
    · exact h.stores store hstore
    · exact h.allocated.ge
    · exact hroom.le.trans h.allocated.ge
  · rw [hstored]
    rfl
  · rw [hwrite]
    exact hbuf
  · rw [BufferSt.size, hwrite, hread, Int.natCast_zero, Int.sub_zero, u64_of_lt (by omega),
      int32_of_lt (by omega) (by omega)]
  · refine ⟨_, hstored, ?_, ?_⟩
    · have hslice : slice (copy (copy data 0 (List.replicate m_buf.cap 0)) 0 (buf ++ [])) 0
          buf.length = buf := slice_copy_append buf []
      rwa [List.append_nil] at hslice
    · rw [copy_of_ge (Nat.zero_add _).le]
      simp [copy, hroom]

theorem Sound.grow (hM : M ≤ 2 ^ 21) (h : Sound M m_buf) (hbuf : buf.length ≤ M)
    (hgrow : u64 m_buf.writeableSize ≤ buf.length) (fresh : ℕ → UInt8) :
    Bounded M (m_buf.grow buf.length fresh) ∧ (m_buf.grow buf.length fresh).data.isSome = true ∧
      buf.length < (m_buf.grow buf.length fresh).cap := by
  have hcap := h.cap_lt hM
  have hlt := h.write_lt
  have hwrite := h.write_le
  rw [h.writeableSize hM] at hgrow
  have hnew : (m_buf.grow buf.length fresh).cap = m_buf.cap + buf.length := by
    change u64 ((m_buf.cap : ℤ) + (buf.length : ℤ)) = _
    rw [← Int.natCast_add, u64_of_lt (by omega)]
  have hallocated : (m_buf.grow buf.length fresh).allocated = m_buf.cap + buf.length := hnew
  have hstores : (m_buf.grow buf.length fresh).stores =
      m_buf.stores ++ [(m_buf.cap + buf.length, m_buf.cap + buf.length)] := by
    have hrest : u64 ((m_buf.grow buf.length fresh).cap - m_buf.write_index) =
        m_buf.cap + buf.length - m_buf.write_index := by
      rw [hnew, ← Int.ofNat_sub (by omega), u64_of_lt (by omega)]
    change m_buf.stores ++ [(m_buf.write_index + (List.replicate
      (u64 ((m_buf.grow buf.length fresh).cap - m_buf.write_index)) (0 : UInt8)).length,
        (m_buf.grow buf.length fresh).cap)] = _
    rw [List.length_replicate, hrest, hnew, Nat.add_sub_cancel' (by omega)]
  refine ⟨⟨hallocated.trans hnew.symm, h.read_index, ?_, ?_, ?_⟩, rfl, ?_⟩
  · rw [hnew]
    exact hlt.trans_le (Nat.le_add_right _ _)
  · rw [hnew]
    omega
  · intro store hstore
    rw [hstores, List.mem_append, List.mem_singleton] at hstore
    rcases hstore with hstore | rfl
    · exact h.stores store hstore
    · exact le_rfl
  · rw [hnew]
    omega

theorem Sound.setdata {t : BufferSt} {realloc : Option (ℕ → UInt8)} (hM : M ≤ 2 ^ 21)
    (h : Sound M m_buf) (hbuf : buf.length ≤ M) (ht : m_buf.setdata buf realloc = some t) :
    Sound M t ∧ Represents t buf := by
  rw [BufferSt.setdata] at ht
  by_cases hgrow : u64 m_buf.writeableSize ≤ buf.length
  · rw [if_pos hgrow] at ht
    obtain ⟨fresh, -, rfl⟩ := Option.map_eq_some_iff.mp ht
    obtain ⟨hbounded, hdata, hroom⟩ := h.grow hM hbuf hgrow fresh
    exact hbounded.replace hM hdata hbuf hroom
  · rw [if_neg hgrow] at ht
    obtain rfl := Option.some.inj ht
    rw [h.writeableSize hM] at hgrow
    exact h.toBounded.replace hM h.data hbuf (by omega)

/-! ## Calls -/

/-- A call of at most `M` bytes that does not fail at the `malloc` of the first block. -/
def Admitted (M : ℕ) (b : Buffer) (call : SetCall) : Prop :=
  (call.buf.getD []).length ≤ M ∧
    (b.m_buf.isNone = true → call.buf.isSome = true → call.calloc = true →
      call.malloc.isSome = true)

instance decidableAdmitted (M : ℕ) (b : Buffer) (call : SetCall) : Decidable (Admitted M b call) :=
  inferInstanceAs (Decidable (_ ∧ (_ → _ → _ → _)))

/-- What a call does to the buffer `b`. -/
structure SetsData (M : ℕ) (b : Buffer) (call : SetCall) : Prop where
  returns : (b.setdata call).1 = 0 ∨ (b.setdata call).1 = -1
  succeeds : call.buf.isSome = true →
    (b.m_buf.isNone = true → call.calloc = true ∧ call.malloc.isSome = true) →
      call.realloc.isSome = true → (b.setdata call).1 = 0
  represents : (b.setdata call).1 = 0 → ∃ buf m_buf, call.buf = some buf ∧
    (b.setdata call).2.m_buf = some m_buf ∧ Represents m_buf buf
  unchanged : (b.setdata call).1 = -1 → b.m_buf.isSome = true → (b.setdata call).2 = b
  unwritten : (b.setdata call).1 = -1 → b.m_buf.isNone = true →
    ∀ m_buf, (b.setdata call).2.m_buf = some m_buf →
      m_buf.write_index = 0 ∧ m_buf.cap = defaultCapcity
  bounded : ∀ m_buf, (b.setdata call).2.m_buf = some m_buf → Bounded M m_buf

variable {b : Buffer} {call : SetCall}

theorem admitted_of_zero (hbuf : (call.buf.getD []).length ≤ M) (h : (b.setdata call).1 = 0) :
    Admitted M b call := by
  refine ⟨hbuf, fun hnone hsome hcalloc => ?_⟩
  rw [Option.isNone_iff_eq_none] at hnone
  obtain ⟨buf, hbuf⟩ := Option.isSome_iff_exists.mp hsome
  cases hmalloc : call.malloc with
  | some data => rfl
  | none => simp [Buffer.setdata, hbuf, hnone, hcalloc, hmalloc] at h

/-- What holds between calls. -/
def Holds (M : ℕ) (b : Buffer) : Prop :=
  ∀ m_buf, b.m_buf = some m_buf → Sound M m_buf

theorem holds_new (M : ℕ) : Holds M .new :=
  nofun

/-- The block as `malloc` has returned it. -/
def allocated (data : ℕ → UInt8) : BufferSt :=
  ⟨some data, defaultCapcity, 0, 0, defaultCapcity, []⟩

theorem sound_allocated (M : ℕ) (data : ℕ → UInt8) : Sound M (allocated data) :=
  ⟨⟨rfl, rfl, (by decide : 0 < defaultCapcity), Nat.le_max_left _ _, nofun⟩, rfl, Nat.zero_le M⟩

/-- How a call ends: at once, or with what is stored in a block. -/
inductive Ends (b : Buffer) (call : SetCall) : Prop where
  | refused (h : b.setdata call = (-1, b))
      (why : call.buf = none ∨ b.m_buf = none ∧ call.calloc = false)
  | stores {buf : List UInt8} {m_buf : BufferSt} (hbuf : call.buf = some buf)
      (hblock : b.m_buf = some m_buf ∨ b.m_buf = none ∧ ∃ data, m_buf = allocated data)
      (h : b.setdata call = b.store m_buf (m_buf.setdata buf call.realloc))

theorem setdata_ends (hadmitted : Admitted M b call) : Ends b call := by
  obtain ⟨-, hmalloc⟩ := hadmitted
  cases hbuf : call.buf with
  | none => exact .refused (by rw [Buffer.setdata, hbuf]) (.inl hbuf)
  | some buf =>
      cases hm : b.m_buf with
      | some m_buf => exact .stores hbuf (.inl hm) (by rw [Buffer.setdata, hbuf, hm])
      | none =>
          by_cases hcalloc : call.calloc = false
          · exact .refused (by simp [Buffer.setdata, hbuf, hm, hcalloc]) (.inr ⟨hm, hcalloc⟩)
          · rw [hm, hbuf] at hmalloc
            obtain ⟨data, hdata⟩ :=
              Option.isSome_iff_exists.mp (hmalloc rfl rfl (Bool.not_eq_false _ ▸ hcalloc))
            refine .stores hbuf (.inr ⟨hm, data, rfl⟩) ?_
            simp [Buffer.setdata, hbuf, hm, hcalloc, hdata, allocated]

theorem Holds.block (h : Holds M b)
    (hblock : b.m_buf = some m_buf ∨ b.m_buf = none ∧ ∃ data, m_buf = allocated data) :
    Sound M m_buf := by
  rcases hblock with hm | ⟨-, data, rfl⟩
  · exact h m_buf hm
  · exact sound_allocated M data

theorem setdata_eq_none {realloc : Option (ℕ → UInt8)} (h : m_buf.setdata buf realloc = none) :
    realloc = none := by
  rw [BufferSt.setdata] at h
  split_ifs at h
  exact Option.map_eq_none_iff.mp h

theorem Holds.setdata (hM : M ≤ 2 ^ 21) (h : Holds M b) (hadmitted : Admitted M b call) :
    Holds M (b.setdata call).2 := by
  cases setdata_ends hadmitted with
  | refused hcall => rwa [hcall]
  | @stores buf m_buf hbuf hblock hcall =>
      have hlen := hadmitted.1
      rw [hbuf] at hlen
      rw [hcall]
      cases hstored : m_buf.setdata buf call.realloc with
      | none =>
          rintro _ ⟨⟩
          exact h.block hblock
      | some t =>
          rintro _ ⟨⟩
          exact ((h.block hblock).setdata hM hlen hstored).1

theorem Holds.setsData (hM : M ≤ 2 ^ 21) (h : Holds M b) (hadmitted : Admitted M b call) :
    SetsData M b call := by
  have hbounded : ∀ m_buf, (b.setdata call).2.m_buf = some m_buf → Bounded M m_buf :=
    fun m_buf hm => (h.setdata hM hadmitted m_buf hm).toBounded
  cases setdata_ends hadmitted with
  | refused hcall why =>
      refine ⟨.inr ?_, ?_, ?_, fun _ _ => ?_, ?_, hbounded⟩
      · rw [hcall]
      · intro hsome hfirst
        rcases why with hnone | ⟨hm, hcalloc⟩
        · rw [hnone] at hsome
          cases hsome
        · have hcalloc' := (hfirst (Option.isNone_iff_eq_none.mpr hm)).1
          exact absurd (hcalloc.symm.trans hcalloc') Bool.false_ne_true
      · intro hzero
        rw [hcall] at hzero
        cases hzero
      · rw [hcall]
      · intro _ hnone m_buf hm
        rw [hcall, Option.isNone_iff_eq_none.mp hnone] at hm
        cases hm
  | @stores buf m_buf hbuf hblock hcall =>
      have hlen := hadmitted.1
      rw [hbuf] at hlen
      cases hstored : m_buf.setdata buf call.realloc with
      | none =>
          rw [hstored] at hcall
          refine ⟨.inr (by rw [hcall]; rfl), ?_, ?_, ?_, ?_, hbounded⟩
          · intro _ _ hrealloc
            rw [setdata_eq_none hstored] at hrealloc
            cases hrealloc
          · intro hzero
            rw [hcall] at hzero
            cases hzero
          · intro _ hsome
            rcases hblock with hm | ⟨hm, -⟩
            · rw [hcall, Buffer.store, ← hm]
            · rw [hm] at hsome
              cases hsome
          · intro _ hnone t ht
            rcases hblock with hm | ⟨-, data, rfl⟩
            · rw [hm] at hnone
              cases hnone
            · rw [hcall] at ht
              obtain rfl := Option.some.inj ht
              exact ⟨rfl, rfl⟩
      | some t =>
          rw [hstored] at hcall
          have hrepresents := ((h.block hblock).setdata hM hlen hstored).2
          have hzero : (b.setdata call).1 = 0 := by rw [hcall]; rfl
          refine ⟨.inl hzero, fun _ _ _ => hzero, ?_, ?_, ?_, hbounded⟩
          · exact fun _ => ⟨buf, t, hbuf, by rw [hcall]; rfl, hrepresents⟩
          all_goals
            intro hfailed
            exact absurd (hzero.symm.trans hfailed) (by decide)

/-- Calls of at most `M` bytes: one that returns 0 leaves the bytes it was given, one that returns
-1 leaves what was there, and the block stays within `max 32768 (3 * M)` bytes. Calls that succeed
are among these. -/
theorem setdata_along (M : ℕ) (hM : M ≤ 2 ^ 21) (run : List SetCall)
    (hrun : Meets Buffer.step (Admitted M) .new run) :
    Meets Buffer.step (SetsData M) .new run ∧
      ∀ (b : Buffer) (call : SetCall), (call.buf.getD []).length ≤ M → (b.setdata call).1 = 0 →
        Admitted M b call := by
  refine ⟨?_, fun b call => admitted_of_zero⟩
  refine meets_of_meets (I := Holds M) ?_ ?_ (holds_new M) hrun
  · intro b call t h hadmitted ht
    obtain rfl := Option.some.inj ht
    exact h.setdata hM hadmitted
  · intro b call t h hadmitted _
    exact h.setsData hM hadmitted

/-- Two calls of five bytes at most. -/
theorem setdata_along_two :
    Meets Buffer.step (SetsData 5) .new
      [⟨some [1, 2, 3], true, some fun _ => 7, none⟩,
        ⟨some [4, 5, 6, 7, 8], true, some fun _ => 7, none⟩] :=
  (setdata_along 5 (by decide) _ (by decide +kernel)).1

end LibConn.Channel
