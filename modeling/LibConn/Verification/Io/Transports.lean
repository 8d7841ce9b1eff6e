import LibConn.Verification.Io.Locks
import LibConn.Verification.Io.Stream

/-! # The two branches of `io_write`

The same outcome of the underlying write is given to the SSL branch and to the TCP branch,
and what they leave is compared. -/

namespace LibConn

/-- What the underlying write does with `len` bytes. A count fits the `int` of `SSL_write`. -/
inductive WriteOutcome (len : ℕ) where
  | taken (n : ℕ) (le : n ≤ len) (int : n < 2 ^ 31)
  | wouldBlock (eintr wantRead : Bool)
  | fatal

/-- The outcome as `write` reports it. -/
def WriteOutcome.tcp {len : ℕ} : WriteOutcome len → WriteResult
  | .taken n _ _ => ⟨n, .other, .other⟩
  | .wouldBlock eintr _ => ⟨-1, if eintr then .eintr else .eagain, .other⟩
  | .fatal => ⟨-1, .other, .other⟩

/-- The outcome as `SSL_write` and `SSL_get_error` report it. -/
def WriteOutcome.ssl {len : ℕ} : WriteOutcome len → WriteResult
  | .taken n _ _ => ⟨n, .other, .other⟩
  | .wouldBlock _ wantRead => ⟨-1, .other, if wantRead then .wantRead else .wantWrite⟩
  | .fatal => ⟨-1, .other, .other⟩

/-- What is compared after the call. -/
structure Observed where
  unsent : List UInt8
  value : Option ℤ
  closed : Bool
  events : Mask
  write_mutex : Bool
  deriving DecidableEq, Repr

def Ran.observed (ran : Ran ℤ) : Observed where
  unsent := ran.conn.io.write_buf.unsent
  value := ran.value
  closed := ran.conn.io.closed
  events := ran.conn.io.events
  write_mutex := ran.conn.io.write_mutex

def Conn.withType (c : Conn) (type : IoType) : Conn :=
  { c with io := { c.io with type := type } }

/-- `io_write` leaves the same for both types. -/
def TransportsAgree (c : Conn) (buf : List UInt8) (outcome : WriteOutcome buf.length) (now : ℕ) :
    Prop :=
  (ioWrite (c.withType .ssl) buf outcome.ssl now).observed =
    (ioWrite (c.withType .tcp) buf outcome.tcp now).observed

/-- The outcome fails for good, or takes everything, or leaves more than fits the buffer. -/
def Settles (write_buf : Buffer) {len : ℕ} : WriteOutcome len → Prop
  | .taken n _ _ => n = len ∨ write_buf.maxSize < u64 (write_buf.tail + (len - n : ℕ))
  | .wouldBlock _ _ => False
  | .fatal => True

/-! ## A closed io -/

theorem closeAndReturn_observed {c : Conn} (hm : c.io.write_mutex = false)
    (hc : c.io.closed = false) (value : ℤ) :
    (closeAndReturn c value).observed =
      ⟨[], some value, true, delEvents (delEvents c.io.events eventRead) eventWrite, false⟩ := by
  have hcloses := closeAndReturn_closes hm value
  have hunsent : (closeAndReturn c value).conn.io.write_buf.unsent = [] := by
    rw [closeAndReturn, ioClose_open hm hc, Ran.andThen_some rfl]
    exact Buffer.unsent_of_empty rfl
  have hevents : (closeAndReturn c value).conn.io.events =
      delEvents (delEvents c.io.events eventRead) eventWrite := by
    rw [closeAndReturn, ioClose_open hm hc, Ran.andThen_some rfl, ← disarmed_events]
    dsimp only [Ran.after_conn]
    split_ifs <;> rfl
  rw [Ran.observed, hunsent, hevents, hcloses.value_eq, hcloses.closed, hcloses.free]

theorem closeAndReturn_unlock_observed {c : Conn} (hc : c.io.closed = false) (value : ℤ) :
    (closeAndReturn c.unlock value).observed =
      ⟨[], some value, true, delEvents (delEvents c.io.events eventRead) eventWrite, false⟩ :=
  closeAndReturn_observed (c := c.unlock) rfl hc value

@[simp] theorem observed_after (effects : List Effect) (ran : Ran ℤ) :
    (ran.after effects).observed = ran.observed := rfl

/-! ## The branches on an open io with an empty buffer -/

section Branches

variable {c : Conn} {buf : List UInt8} {now : ℕ}

theorem int32_count {n : ℕ} (h : n < 2 ^ 31) : int32 n = n :=
  int32_of_lt (by omega) (by omega)

theorem int32_fail : int32 (-1) = -1 := by decide

/-- The SSL branch keeps the mutex exactly where the outcome does not settle the write. -/
theorem keepsMutex_iff (outcome : WriteOutcome buf.length) :
    KeepsMutex c.io.write_buf buf outcome.ssl ↔ ¬ Settles c.io.write_buf outcome := by
  cases outcome with
  | taken n le int =>
      simp only [KeepsMutex, WriteOutcome.ssl, int32_count int, Settles, Int.toNat_natCast]
      have hnonneg : ¬ (n : ℤ) < 0 := by omega
      simp only [hnonneg, false_and, false_or, Int.natCast_nonneg, true_and, not_or, not_lt,
        Int.ofNat_lt]
      exact and_congr_left fun _ => by omega
  | wouldBlock eintr wantRead =>
      cases wantRead <;> simp [KeepsMutex, WriteOutcome.ssl, int32_fail, Settles, SslError.want]
  | fatal => simp [KeepsMutex, WriteOutcome.ssl, int32_fail, Settles, SslError.want]

/-- What both branches do with an outcome that settles the write. -/
def settledRan (c : Conn) {len : ℕ} : WriteOutcome len → Ran ℤ
  | .taken n _ _ => if n = len then ⟨c.unlock, some n, []⟩ else closeAndReturn c.unlock n
  | _ => closeAndReturn c.unlock (-1)

theorem bufferAppendData_rest {write_buf : Buffer} {n : ℕ}
    (h : write_buf.maxSize < u64 (write_buf.tail + (buf.length - n : ℕ))) :
    bufferAppendData write_buf (buf.drop n) = none := by
  rw [bufferAppendData_eq_none_iff, List.length_drop]
  exact Nat.not_le.mpr h

theorem ioWriteSsl_settled {outcome : WriteOutcome buf.length}
    (h : Settles c.io.write_buf outcome) :
    (ioWriteSsl c buf outcome.ssl).observed = (settledRan c outcome).observed := by
  rw [ioWriteSsl, observed_after]
  cases outcome with
  | taken n le int =>
      have hneg : ¬ (n : ℤ) < 0 := by omega
      simp only [WriteOutcome.ssl, int32_count int, settledRan, hneg, ite_false,
        Int.toNat_natCast, Int.ofNat_lt]
      by_cases hall : n = buf.length
      · rw [if_neg (by omega), if_pos hall]
        rfl
      · rw [if_pos (by omega), if_neg hall, bufferAppendData_rest (h.resolve_left hall)]
        rfl
  | wouldBlock eintr wantRead => exact h.elim
  | fatal => rfl

theorem ioWriteTcp_settled {outcome : WriteOutcome buf.length} (hfd : c.io.fd ≠ -1)
    (h : Settles c.io.write_buf outcome) :
    (ioWriteTcp c buf outcome.tcp now).observed = (settledRan c outcome).observed := by
  rw [ioWriteTcp, if_neg hfd, observed_after]
  cases outcome with
  | taken n le int =>
      have hneg : ¬ (n : ℤ) < 0 := by omega
      simp only [WriteOutcome.tcp, int32_count int, settledRan, hneg, ite_false,
        Int.toNat_natCast, Int.ofNat_lt]
      by_cases hall : n = buf.length
      · rw [if_neg (by omega), if_pos hall, observed_after, ioWriteDone]
        dsimp only
        split_ifs <;> rfl
      · rw [if_pos (by omega), if_neg hall, bufferAppendData_rest (h.resolve_left hall)]
        rfl
  | wouldBlock eintr wantRead => exact h.elim
  | fatal => rfl

theorem settledRan_withType (hopen : c.io.closed = false) (t₁ t₂ : IoType) {len : ℕ}
    (outcome : WriteOutcome len) :
    (settledRan (c.withType t₁) outcome).observed =
      (settledRan (c.withType t₂) outcome).observed := by
  have hclose : ∀ value, (closeAndReturn (c.withType t₁).unlock value).observed =
      (closeAndReturn (c.withType t₂).unlock value).observed := by
    intro value
    rw [closeAndReturn_unlock_observed (c := c.withType t₁) hopen,
      closeAndReturn_unlock_observed (c := c.withType t₂) hopen]
    rfl
  cases outcome with
  | taken n le int =>
      simp only [settledRan]
      split_ifs
      · rfl
      · exact hclose n
  | wouldBlock eintr wantRead => exact hclose (-1)
  | fatal => exact hclose (-1)

/-- A descriptor of `-1` is an error on TCP that closes nothing. -/
theorem settledRan_ne_no_fd {outcome : WriteOutcome buf.length} (hopen : c.io.closed = false) :
    (settledRan c outcome).observed ≠
      ⟨c.io.write_buf.unsent, some (-1), false, c.io.events, false⟩ := by
  have hclose : ∀ value, (closeAndReturn c.unlock value).observed ≠
      ⟨c.io.write_buf.unsent, some (-1), false, c.io.events, false⟩ := by
    intro value h
    rw [closeAndReturn_unlock_observed hopen] at h
    exact absurd (congrArg Observed.closed h) (by simp)
  cases outcome with
  | taken n le int =>
      simp only [settledRan]
      split_ifs
      · intro h
        have hvalue : some (n : ℤ) = some (-1) := congrArg Observed.value h
        have hn : (n : ℤ) = -1 := Option.some.inj hvalue
        omega
      · exact hclose n
  | wouldBlock eintr wantRead => exact hclose (-1)
  | fatal => exact hclose (-1)

/-- Behind bytes that wait already, the payload is queued whatever the type. -/
theorem ioWrite_waiting {r : WriteResult} (hfree : c.io.write_mutex = false)
    (hopen : c.io.closed = false) (hempty : bufferIsEmpty c.io.write_buf = false) :
    (ioWrite c buf r now).observed =
      match bufferAppendData c.io.write_buf buf with
      | none => ⟨[], some (-1), true, delEvents (delEvents c.io.events eventRead) eventWrite, false⟩
      | some write_buf => ⟨write_buf.unsent, some 0, false, c.io.events, false⟩ := by
  rw [ioWrite_busy hfree hopen hempty]
  cases bufferAppendData c.io.write_buf buf with
  | none => exact closeAndReturn_unlock_observed (c := c.lock) hopen (-1)
  | some write_buf => simp [Ran.observed, Conn.setWriteBuf, Conn.unlock, Conn.lock, hopen]

theorem branches_agree_iff (hopen : c.io.closed = false) (outcome : WriteOutcome buf.length) :
    (ioWriteSsl (c.withType .ssl).lock buf outcome.ssl).observed =
        (ioWriteTcp (c.withType .tcp).lock buf outcome.tcp now).observed ↔
      c.io.fd ≠ -1 ∧ Settles c.io.write_buf outcome := by
  by_cases hsettles : Settles c.io.write_buf outcome
  · have htypes : (settledRan (c.withType .ssl).lock outcome).observed =
        (settledRan (c.withType .tcp).lock outcome).observed :=
      settledRan_withType (c := c.lock) hopen .ssl .tcp outcome
    rw [ioWriteSsl_settled (c := (c.withType .ssl).lock) hsettles, htypes]
    by_cases hfd : c.io.fd = -1
    · have htcp : (ioWriteTcp (c.withType .tcp).lock buf outcome.tcp now).observed =
          ⟨c.io.write_buf.unsent, some (-1), false, c.io.events, false⟩ := by
        rw [ioWriteTcp, if_pos (show (c.withType .tcp).lock.io.fd = -1 from hfd)]
        simp [Ran.observed, Conn.withType, Conn.lock, Conn.unlock, hopen]
      rw [htcp]
      exact iff_of_false (settledRan_ne_no_fd (c := (c.withType .tcp).lock) hopen) (by simp [hfd])
    · rw [ioWriteTcp_settled (c := (c.withType .tcp).lock) hfd hsettles]
      exact iff_of_true rfl ⟨hfd, hsettles⟩
  · refine iff_of_false ?_ (by simp [hsettles])
    intro hagree
    have hkeeps : ¬ (ioWriteSsl (c.withType .ssl).lock buf outcome.ssl).Released := by
      rw [ioWriteSsl_released_iff rfl, not_not]
      exact (keepsMutex_iff outcome).mpr hsettles
    have htcp : (ioWriteTcp (c.withType .tcp).lock buf outcome.tcp now).Released :=
      ioWriteTcp_released
    have hvalue := congrArg Observed.value hagree
    have hmutex := congrArg Observed.write_mutex hagree
    exact hkeeps ⟨(congrArg Option.isSome hvalue).trans htcp.1, hmutex.trans htcp.2⟩

end Branches

/-! ## Agreement -/

/-- The two types agree exactly when the branches are not reached, or when the outcome
settles the write on an open descriptor. -/
theorem transportsAgree_iff (c : Conn) (buf : List UInt8) (outcome : WriteOutcome buf.length)
    (now : ℕ) :
    TransportsAgree c buf outcome now ↔
      c.io.write_mutex = true ∨ c.io.closed = true ∨ bufferIsEmpty c.io.write_buf = false ∨
        (c.io.fd ≠ -1 ∧ Settles c.io.write_buf outcome) := by
  rw [TransportsAgree]
  cases hheld : c.io.write_mutex with
  | true => simp [ioWrite, Conn.withType, hheld, Ran.observed]
  | false =>
    cases hclosed : c.io.closed with
    | true => simp [ioWrite, Conn.withType, Conn.lock, Conn.unlock, hheld, hclosed, Ran.observed]
    | false =>
      cases hempty : bufferIsEmpty c.io.write_buf with
      | true =>
          rw [ioWrite_empty (c := c.withType .ssl) hheld hclosed hempty,
            ioWrite_empty (c := c.withType .tcp) hheld hclosed hempty,
            if_pos (show (c.withType .ssl).io.type = .ssl from rfl),
            if_neg (show ¬ (c.withType .tcp).io.type = .ssl by simp [Conn.withType])]
          simpa using branches_agree_iff hclosed outcome
      | false =>
          rw [ioWrite_waiting (c := c.withType .ssl) hheld hclosed hempty,
            ioWrite_waiting (c := c.withType .tcp) hheld hclosed hempty]
          simp [Conn.withType]

/-- TCP queues a payload that would block; SSL drops it and keeps the mutex. -/
theorem not_transportsAgree_would_block :
    ¬ TransportsAgree
      ⟨getIo 5 fun _ => 0, loopInit 0 0 (fun _ => Timer.zero) fun _ => none⟩
      [0x68, 0x69] (.wouldBlock false false) 0 := by
  rw [TransportsAgree]
  decide

end LibConn
