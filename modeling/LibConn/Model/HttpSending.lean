import LibConn.Model.HttpClient
import LibConn.Model.Io

/-! # Sending a request

`HttpClient::exec` up to its receive phase: the loop around `send_data`. -/

namespace LibConn.Http

/-- What `send` returns, and whether `isTimeout` holds behind it. -/
structure SendResult where
  ret : ℤ
  errno : Errno
  timedOut : Bool
  deriving DecidableEq, Repr

/-- Where `exec` is: in the loop, behind it, or back with a value. -/
inductive SendStage where
  | sending
  | receiving
  | returned (result : ℤ)
  deriving DecidableEq, Repr

/-- `exec` with the request `data`. `closed` tells whether the socket is closed. The rest is
history: the ranges given to `send`, each as its offset in the string and its length, the bytes
that `send` took, and whether it has failed for good. -/
structure Sending where
  data : Payload
  have_send_len : ℤ
  stage : SendStage
  closed : Bool
  ranges : List (ℤ × ℕ)
  accepted : Bytes
  failed : Bool

/-- The size of the next range. -/
def Sending.rest (s : Sending) : ℕ :=
  u64 (s.data.bytes.length - s.have_send_len)

/-- The byte at `send_buf + i`, where `around` lies around the string. -/
def Sending.byteAt (around : ℤ → UInt8) (s : Sending) (i : ℤ) : UInt8 :=
  if 0 ≤ i then s.data.bytes.getD i.toNat (around i) else around i

/-- The first `n` bytes of the next range. -/
def Sending.taken (around : ℤ → UInt8) (s : Sending) (n : ℕ) : Bytes :=
  (List.range n).map fun (i : ℕ) => s.byteAt around (s.have_send_len + i)

/-- `while(have_send_len != len)` -/
def Sending.test (s : Sending) : Sending :=
  if u64 s.have_send_len = s.data.bytes.length then { s with stage := .receiving } else s

/-- `exec` where it comes to the loop, unless there is nothing to send. -/
def Sending.start (data : Payload) : Sending :=
  let s : Sending :=
    { data := data
      have_send_len := 0
      stage := .sending
      closed := false
      ranges := []
      accepted := []
      failed := false }
  if data.bytes = [] then { s with stage := .returned (-1) } else s.test

/-- What `send` may return for this range. -/
def Sending.legal (s : Sending) (r : SendResult) : Prop :=
  r.ret = -1 ∨ (0 ≤ r.ret ∧ r.ret ≤ s.rest)

instance decidableSendingLegal (s : Sending) (r : SendResult) : Decidable (s.legal r) :=
  inferInstanceAs (Decidable (r.ret = -1 ∨ (0 ≤ r.ret ∧ r.ret ≤ s.rest)))

/-- One turn of the loop; `send_data` returns an `int`. -/
def Sending.step (around : ℤ → UInt8) (s : Sending) (r : SendResult) : Option Sending :=
  if s.stage = .sending ∧ s.legal r then
    let t : Sending :=
      { s with
        ranges := s.ranges ++ [(s.have_send_len, s.rest)]
        accepted := s.accepted ++ s.taken around r.ret.toNat
        failed := s.failed || (r.ret = -1 && !r.errno.again) }
    if r.timedOut then some { t with stage := .returned (-1) }
    else some { t with have_send_len := int32 (s.have_send_len + int32 r.ret) }.test
  else none

end LibConn.Http
