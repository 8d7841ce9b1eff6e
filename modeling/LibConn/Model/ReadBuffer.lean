import LibConn.Model.Io
import LibConn.Shared.Memory

/-! # The read buffer of a channel

`Buffer::setdata`, which `on_read` of `Channel.cpp` gives what was read to. What `calloc`,
`malloc` and `realloc` return comes with each call. -/

namespace LibConn.Channel

open LibConn.Memory

/-- `DEFAULT_CAPCITY` -/
def defaultCapcity : ℕ :=
  1024 * 32

/-- `buffer_st`. `data` is a block of the size `allocated`, or `NULL`. The rest is history: how far
each `memset` and `memcpy` went, with the size of the block then. -/
structure BufferSt where
  data : Option (ℕ → UInt8)
  allocated : ℕ
  write_index : ℕ
  read_index : ℕ
  cap : ℕ
  stores : List (ℕ × ℕ)

structure Buffer where
  m_buf : Option BufferSt

def Buffer.new : Buffer where
  m_buf := none

/-- A call of `setdata`; `buf` is `none` for `NULL`. -/
structure SetCall where
  buf : Option (List UInt8)
  calloc : Bool
  malloc : Option (ℕ → UInt8)
  realloc : Option (ℕ → UInt8)

namespace BufferSt

/-- `Buffer::size` -/
def size (m_buf : BufferSt) : ℤ :=
  int32 (u64 (m_buf.write_index - m_buf.read_index))

/-- `Buffer::writeable_size` -/
def writeableSize (m_buf : BufferSt) : ℤ :=
  int32 (u64 (m_buf.cap - m_buf.write_index))

/-- `memset` or `memcpy` to `data + start`. -/
def fill (m_buf : BufferSt) (start : ℕ) (bytes : List UInt8) : BufferSt :=
  { m_buf with
    data := m_buf.data.map fun data => copy data start bytes
    stores := m_buf.stores ++ [(start + bytes.length, m_buf.allocated)] }

/-- `realloc`, which keeps what was in the block. -/
def resize (m_buf : BufferSt) (new_cap : ℕ) (fresh : ℕ → UInt8) : BufferSt :=
  { m_buf with
    data := some fun i => if i < m_buf.allocated then m_buf.data.getD fresh i else fresh i
    allocated := new_cap }

/-- The block is enlarged by what is to be stored; `fresh` is what `realloc` puts behind. -/
def grow (m_buf : BufferSt) (bytes : ℕ) (fresh : ℕ → UInt8) : BufferSt :=
  let new_cap := u64 (m_buf.cap + bytes)
  let m_buf := { m_buf.resize new_cap fresh with cap := new_cap }
  m_buf.fill m_buf.write_index (List.replicate (u64 (m_buf.cap - m_buf.write_index)) 0)

/-- The block is cleared, and the bytes are stored at its beginning. -/
def replace (m_buf : BufferSt) (buf : List UInt8) : BufferSt :=
  let m_buf := { m_buf with write_index := 0 }
  let m_buf := m_buf.fill 0 (List.replicate m_buf.cap 0)
  let m_buf := m_buf.fill m_buf.write_index buf
  { m_buf with write_index := u64 (m_buf.write_index + buf.length) }

/-- `setdata` once `m_buf` is there; `none` where `realloc` returns `NULL`. -/
def setdata (m_buf : BufferSt) (buf : List UInt8) (realloc : Option (ℕ → UInt8)) :
    Option BufferSt :=
  if u64 m_buf.writeableSize ≤ buf.length then
    realloc.map fun fresh => (m_buf.grow buf.length fresh).replace buf
  else some (m_buf.replace buf)

end BufferSt

/-- The end of `setdata`: the result is 0 unless `realloc` has returned `NULL`. -/
def Buffer.store (b : Buffer) (m_buf : BufferSt) (stored : Option BufferSt) : ℤ × Buffer :=
  match stored with
  | none => (-1, { b with m_buf := some m_buf })
  | some m_buf => (0, { b with m_buf := some m_buf })

/-- `Buffer::setdata` -/
def Buffer.setdata (b : Buffer) (call : SetCall) : ℤ × Buffer :=
  match call.buf with
  | none => (-1, b)
  | some buf =>
    match b.m_buf with
    | some m_buf => b.store m_buf (m_buf.setdata buf call.realloc)
    | none =>
      if call.calloc = false then (-1, b)
      else
        match call.malloc with
        | none => (-1, { b with m_buf := some ⟨none, 0, 0, 0, 0, []⟩ })
        | some data =>
          let m_buf : BufferSt := ⟨some data, defaultCapcity, 0, 0, defaultCapcity, []⟩
          b.store m_buf (m_buf.setdata buf call.realloc)

/-- Calls follow each other whatever they return. -/
def Buffer.step (b : Buffer) (call : SetCall) : Option Buffer :=
  some (b.setdata call).2

end LibConn.Channel
