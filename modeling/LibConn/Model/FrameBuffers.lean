import LibConn.Model.Io
import LibConn.Model.WebSocket
import LibConn.Shared.Memory

/-! # Frames in their buffers

The encoders with the memory that they write, and the buffers that `WebSocketChannel` and
`WebSocketParser` keep. -/

namespace LibConn.WebSocket

open LibConn.Memory
open LibConn.Bytes (leBytes)

/-! ## Encoders -/

/-- `ws_calc_frame_size` -/
def wsCalcFrameSize (data_len : ℤ) (has_mask : Bool) : ℤ :=
  let frame_size : ℤ := 2
  let frame_size :=
    if data_len < 126 then frame_size
    else if data_len ≤ 65535 then frame_size + 2
    else frame_size + 8
  let frame_size := if has_mask then frame_size + 4 else frame_size
  int32 (frame_size + data_len)

/-- `build_ws_frame` with its `out`. Positions are exact; the value returned is an `int`. -/
def buildWsFrameInto (out : Block UInt8) (data : List UInt8) (mask : MaskKey) (has_mask : Bool)
    (opcode : UInt8) (fin : Bool) : ℤ × Block UInt8 :=
  let data_len := data.length
  let maskBit : UInt8 := if has_mask then 0x80 else 0x00
  let frame_len := 0
  let frame := out.store frame_len [(if fin then 0x80 else 0x00) ||| (opcode &&& 0x0F)]
  let frame_len := frame_len + 1
  let (frame_len, frame) :=
    if data_len < 126 then
      (frame_len + 1, frame.store frame_len [maskBit ||| UInt8.ofNat (data_len &&& 0x7F)])
    else if data_len ≤ 65535 then
      let frame := frame.store frame_len [maskBit ||| 0x7E]
      let frame_len := frame_len + 1
      let frame := frame.store frame_len [UInt8.ofNat ((data_len >>> 8) &&& 0xFF)]
      let frame := frame.store (frame_len + 1) [UInt8.ofNat (data_len &&& 0xFF)]
      (frame_len + 2, frame)
    else
      let frame := frame.store frame_len [maskBit ||| 0x7F]
      let frame_len := frame_len + 1
      let frame := frame.store frame_len [0]
      let frame := frame.store (frame_len + 1) [UInt8.ofNat ((data_len >>> 56) &&& 0xFF)]
      let frame := frame.store (frame_len + 2) [UInt8.ofNat ((data_len >>> 48) &&& 0xFF)]
      let frame := frame.store (frame_len + 3) [UInt8.ofNat ((data_len >>> 40) &&& 0xFF)]
      let frame := frame.store (frame_len + 4) [UInt8.ofNat ((data_len >>> 24) &&& 0xFF)]
      let frame := frame.store (frame_len + 5) [UInt8.ofNat ((data_len >>> 16) &&& 0xFF)]
      let frame := frame.store (frame_len + 6) [UInt8.ofNat ((data_len >>> 8) &&& 0xFF)]
      let frame := frame.store (frame_len + 7) [UInt8.ofNat (data_len &&& 0xFF)]
      (frame_len + 8, frame)
  let (frame_len, frame) :=
    if has_mask then (frame_len + 4, frame.store frame_len mask.bytes) else (frame_len, frame)
  let frame :=
    if has_mask then
      (List.range data_len).foldl (fun frame i =>
        frame.store (frame_len + i) [data.getD i 0 ^^^ mask.byteAt i]) frame
    else frame.store frame_len data
  (int32 (frame_len + data_len : ℕ), frame)

/-- `WebSocketParser::buildFrame` with `m_sendBuffer`, the mask from `rand()`; `none` where it
returns `NULL`. With it is `send_len`. -/
def buildFrameInto (m_sendBuffer : Block UInt8) (data : List UInt8) (opcode : UInt8)
    (mask : MaskKey) : Option (ℤ × Block UInt8) :=
  let len := data.length
  if len > maxFrameSize then none
  else
    let fh : WsFrameHeader :=
      { opcode := opcode
        reserved := 0
        fin := 1
        payload_len := UInt8.ofNat (if len > 65535 then 127 else if len > 125 then 126 else len)
        mask := 1 }
    let buffer := m_sendBuffer.store 0 (List.replicate maxFrameSize 0)
    let offset := 0
    let buffer := buffer.store offset fh.bytes
    let offset := offset + 2
    let (offset, buffer) :=
      if fh.payload_len = 126 then (offset + 2, buffer.store offset (wsNtoh (leBytes 2 len)))
      else if fh.payload_len = 127 then (offset + 8, buffer.store offset (wsNtoh (leBytes 8 len)))
      else (offset, buffer)
    let buffer := buffer.store offset mask.bytes
    let offset := offset + 4
    let buffer := (List.range len).foldl (fun buffer i =>
      buffer.store (offset + i) [data.getD i 0 ^^^ mask.byteAt i]) buffer
    some (int32 (offset + len : ℕ), buffer)

/-! ## The buffer of the parser -/

/-- A call of `WebSocketParser::buildFrame`, and what `malloc` returns if it is called. -/
structure BuildCall where
  data : List UInt8
  opcode : UInt8
  mask : MaskKey
  malloced : ℕ → UInt8

/-- `m_sendBuffer`, unless it is `NULL`. The rest is history: the positions that were written in
it, and the values of `send_len`. -/
structure SendBuffer where
  m_sendBuffer : Option (ℕ → UInt8)
  written : List ℕ
  sendLens : List ℤ

def SendBuffer.new : SendBuffer where
  m_sendBuffer := none
  written := []
  sendLens := []

def SendBuffer.step (s : SendBuffer) (call : BuildCall) : Option SendBuffer :=
  match buildFrameInto ⟨s.m_sendBuffer.getD call.malloced, s.written⟩ call.data call.opcode
      call.mask with
  | none => some s
  | some (send_len, buffer) =>
    some
      { m_sendBuffer := some buffer.cells
        written := buffer.written
        sendLens := s.sendLens ++ [send_len] }

/-! ## The buffer of the channel -/

/-- A run of `build_ws_frame`: `m_bufLen` and the size of the block before it, and the length of
the frame that it writes. -/
structure Build where
  m_bufLen : ℤ
  allocated : ℕ
  frame : ℕ
  deriving DecidableEq, Repr

/-- `WebSocketChannel`. The block behind `m_buf` has the size `allocated`, none where `realloc`
has returned `NULL`. A call is `stuck` when it waits for the mutex that it holds. The rest is
history: the runs of `build_ws_frame`, the messages, and what was given to `sendData`. -/
structure WebSocketChannel where
  m_mutex : Bool
  m_buf : ℕ → UInt8
  m_bufLen : ℤ
  allocated : ℕ
  stuck : Bool
  builds : List Build
  messages : List Message
  sent : List (List UInt8)

/-- A call of `send`, and what `realloc` returns if it is called. The length of the overload
with a pointer is an `int`. -/
inductive ChannelCall where
  | string (msg : Payload) (realloc : Option (ℕ → UInt8))
  | pointer (data : List UInt8) (len_lt : data.length < 2 ^ 31) (opcode : UInt8)
      (realloc : Option (ℕ → UInt8))

def WebSocketChannel.new : WebSocketChannel where
  m_mutex := false
  m_buf := fun _ => 0
  m_bufLen := 0
  allocated := 0
  stuck := false
  builds := []
  messages := []
  sent := []

/-- `m_bufLen = frame_size * 2` and `realloc`, where the buffer is too small. -/
def WebSocketChannel.grow (c : WebSocketChannel) (frame_size : ℤ)
    (realloc : Option (ℕ → UInt8)) : WebSocketChannel :=
  if c.m_bufLen < frame_size then
    let m_bufLen := int32 (frame_size * 2)
    { c with
      m_bufLen := m_bufLen
      m_buf := realloc.getD c.m_buf
      allocated := if realloc.isSome then u64 m_bufLen else 0 }
  else c

/-- `WebSocketChannel::sendFrame`. Its `has_mask` is false for clients, too, so that the mask is
not used. -/
def WebSocketChannel.sendFrame (c : WebSocketChannel) (data : List UInt8) (opcode : UInt8)
    (fin : Bool) (realloc : Option (ℕ → UInt8)) : WebSocketChannel :=
  let has_mask := false
  let frame_size := wsCalcFrameSize data.length has_mask
  let c := c.grow frame_size realloc
  let frame := (buildWsFrameInto ⟨c.m_buf, []⟩ data (fun _ => 0) has_mask opcode fin).2
  { c with
    m_buf := frame.cells
    builds := c.builds ++ [⟨c.m_bufLen, c.allocated, frame.written.length⟩]
    sent := c.sent ++ [slice frame.cells 0 frame_size.toNat] }

/-- The overload with a pointer. The mutex is free again when it returns. -/
def WebSocketChannel.sendPointer (c : WebSocketChannel) (data : List UInt8) (opcode : UInt8)
    (realloc : Option (ℕ → UInt8)) : WebSocketChannel :=
  if c.m_mutex then { c with stuck := true }
  else { { c with m_mutex := true }.sendFrame data opcode true realloc with m_mutex := false }

/-- `WS_OPCODE_TEXT` -/
def opcodeText : UInt8 :=
  0x1

/-- Both overloads; nothing is known after a call that is stuck. -/
def WebSocketChannel.step (c : WebSocketChannel) (call : ChannelCall) : Option WebSocketChannel :=
  if c.stuck then none
  else
    match call with
    | .string msg realloc =>
      let c := { c with messages := c.messages ++ [Message.mk opcodeText msg.bytes] }
      some ({ c with m_mutex := true }.sendPointer msg.bytes opcodeText realloc)
    | .pointer data _ opcode realloc =>
      let c := { c with messages := c.messages ++ [Message.mk opcode data] }
      some (c.sendPointer data opcode realloc)

end LibConn.WebSocket
