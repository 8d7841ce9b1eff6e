import LibConn.Shared.Bytes
import LibConn.Shared.Peeling

/-! # WebSocket frames

The two encoders (`ws_util.c`, `WebSocketParser::buildFrame`) and the decoder
`WebSocketParser::feedRecvData`. Lengths are `size_t` values: sums wrap at `2^64`
before they are compared with `m_buffer.size()`. -/

namespace LibConn.WebSocket

open LibConn.Bytes
open LibConn.Peeling (Outcome)

/-- The four masking bytes. -/
abbrev MaskKey := Fin 4 → UInt8

def MaskKey.bytes (mask : MaskKey) : List UInt8 :=
  List.ofFn mask

/-- `data[i] ^ mask[i % 4]` for every position; masking and unmasking are the same. -/
def applyMask (mask : MaskKey) (data : List UInt8) : List UInt8 :=
  data.mapIdx fun i b => b ^^^ mask (Fin.ofNat 4 i)

/-- `mask[i % 4]` -/
def MaskKey.byteAt (mask : MaskKey) (i : ℕ) : UInt8 :=
  mask (Fin.ofNat 4 i)

/-! ## Frame header -/

/-- `ws_frame_header_st`: two bytes of bit fields, the low bits first. -/
structure WsFrameHeader where
  opcode : UInt8
  reserved : UInt8
  fin : UInt8
  payload_len : UInt8
  mask : UInt8
  deriving DecidableEq, Repr

def WsFrameHeader.ofBytes (b₀ b₁ : UInt8) : WsFrameHeader where
  opcode := b₀ &&& 0x0F
  reserved := (b₀ >>> 4) &&& 0x07
  fin := (b₀ >>> 7) &&& 0x01
  payload_len := b₁ &&& 0x7F
  mask := (b₁ >>> 7) &&& 0x01

/-- Each field keeps only the bits of its width. -/
def WsFrameHeader.bytes (fh : WsFrameHeader) : List UInt8 :=
  let reserved : UInt8 := (fh.reserved &&& 0x07) <<< 4
  let fin : UInt8 := (fh.fin &&& 0x01) <<< 7
  let mask : UInt8 := (fh.mask &&& 0x01) <<< 7
  [(fh.opcode &&& 0x0F) ||| reserved ||| fin, (fh.payload_len &&& 0x7F) ||| mask]

/-- `ws_ntoh` and `ws_hton`: swap the bytes end for end, unless their number is odd. -/
def wsNtoh (mem : List UInt8) : List UInt8 :=
  if mem.length % 2 = 1 then mem
  else (List.range (mem.length / 2)).foldl (fun bytes i =>
    (bytes.set i (bytes.getD (mem.length - i - 1) 0)).set (mem.length - i - 1)
      (bytes.getD i 0)) mem

/-! ## Encoders -/

/-- `build_ws_frame`, for the payload `data` with `data_len = data.length`. The
returned `frame_len` is the length of the list. -/
def buildWsFrame (data : List UInt8) (mask : MaskKey) (has_mask : Bool) (opcode : UInt8)
    (fin : Bool) : List UInt8 :=
  let data_len := data.length
  let maskBit : UInt8 := if has_mask then 0x80 else 0x00
  [(if fin then 0x80 else 0x00) ||| (opcode &&& 0x0F)] ++
  (if data_len < 126 then
    [maskBit ||| UInt8.ofNat (data_len &&& 0x7F)]
  else if data_len ≤ 65535 then
    [maskBit ||| 0x7E,
      UInt8.ofNat ((data_len >>> 8) &&& 0xFF), UInt8.ofNat (data_len &&& 0xFF)]
  else
    -- the source skips the shift by 32, which loses nothing of a 31-bit length
    [maskBit ||| 0x7F, 0,
      UInt8.ofNat ((data_len >>> 56) &&& 0xFF), UInt8.ofNat ((data_len >>> 48) &&& 0xFF),
      UInt8.ofNat ((data_len >>> 40) &&& 0xFF), UInt8.ofNat ((data_len >>> 24) &&& 0xFF),
      UInt8.ofNat ((data_len >>> 16) &&& 0xFF), UInt8.ofNat ((data_len >>> 8) &&& 0xFF),
      UInt8.ofNat (data_len &&& 0xFF)]) ++
  (if has_mask then mask.bytes ++ applyMask mask data else data)

/-- `MAX_FRAME_SIZE` -/
def maxFrameSize : ℕ := 4 * 1024 * 1024

/-- The bytes `WebSocketParser::buildFrame` leaves in `m_sendBuffer[0..send_len)`, with
the mask that `rand()` gave; `none` where it returns `NULL`. -/
def buildFrame (data : List UInt8) (opcode : UInt8) (mask : MaskKey) : Option (List UInt8) :=
  let len := data.length
  if len > maxFrameSize then none
  else
    let fh : WsFrameHeader :=
      { opcode := opcode
        reserved := 0
        fin := 1
        payload_len := UInt8.ofNat (if len > 65535 then 127 else if len > 125 then 126 else len)
        mask := 1 }
    some (fh.bytes ++
      (if fh.payload_len = 126 then wsNtoh (leBytes 2 len)
      else if fh.payload_len = 127 then wsNtoh (leBytes 8 len)
      else []) ++
      mask.bytes ++ applyMask mask data)

/-! ## Decoder -/

/-- Addition of `size_t` values. -/
def sizeAdd (a b : ℕ) : ℕ :=
  (a + b) % 2 ^ 64

/-- A call of `onMessage`. -/
structure Message where
  opcode : UInt8
  msg : List UInt8
  deriving DecidableEq, Repr

/-- `offset` and `payload_len` as the header and the extended length give them; `none`
while the extended length has not arrived. -/
def frameExtent (fh : WsFrameHeader) (m_buffer : List UInt8) : Option (ℕ × ℕ) :=
  if fh.payload_len < 126 then some (2, fh.payload_len.toNat)
  else if fh.payload_len = 126 then
    if m_buffer.length < 2 + 2 then none
    else some (4, leNat (wsNtoh ((m_buffer.drop 2).take 2)))
  else
    if m_buffer.length < 2 + 8 then none
    else some (10, leNat (wsNtoh ((m_buffer.drop 2).take 8)))

/-- `m_buffer[i+offset] ^= mask[i % 4]` for `i < payload_len`. -/
def unmaskInPlace (mask : MaskKey) (offset payload_len : ℕ) (m_buffer : List UInt8) :
    List UInt8 :=
  m_buffer.take offset ++ applyMask mask ((m_buffer.drop offset).take payload_len) ++
    m_buffer.drop (offset + payload_len)

/-- What one turn of the `do … while (1)` loop does. `frame` carries the call of
`onMessage`, the buffer after unmasking and the number of bytes to erase; `overrun`
is a turn that passes the size checks and then touches a position past the end. -/
inductive Turn where
  | wait
  | overrun
  | frame (message : Message) (m_buffer : List UInt8) (consumed : ℕ)
  deriving DecidableEq, Repr

/-- The part of a turn that follows the size checks. -/
def dispatch (fh : WsFrameHeader) (offset payload_len : ℕ) (m_buffer : List UInt8) : Turn :=
  if m_buffer.length < offset + payload_len then .overrun
  else .frame ⟨fh.opcode, (m_buffer.drop offset).take payload_len⟩ m_buffer
    (offset + payload_len)

/-- `memcpy(&fh, m_buffer.data(), 2)` -/
def headerAt (m_buffer : List UInt8) : WsFrameHeader :=
  WsFrameHeader.ofBytes (m_buffer.getD 0 0) (m_buffer.getD 1 0)

/-- `memcpy(mask, m_buffer.data() + offset, 4)` -/
def maskKeyAt (m_buffer : List UInt8) (offset : ℕ) : MaskKey :=
  fun i => m_buffer.getD (offset + i) 0

/-- One turn of the loop of `feedRecvData`. -/
def turn (m_buffer : List UInt8) : Turn :=
  if m_buffer.length < 2 then .wait
  else
    let fh := headerAt m_buffer
    match frameExtent fh m_buffer with
    | none => .wait
    | some (offset, payload_len) =>
      if m_buffer.length < sizeAdd offset payload_len then .wait
      else if fh.mask ≠ 0 then
        if m_buffer.length < sizeAdd (sizeAdd offset payload_len) 4 then .wait
        else
          let mask := maskKeyAt m_buffer offset
          dispatch fh (offset + 4) payload_len
            (unmaskInPlace mask (offset + 4) payload_len m_buffer)
      else dispatch fh offset payload_len m_buffer

/-- How a call of `feedRecvData` ends. The value it returns is always `len`. -/
inductive FeedResult where
  | returned (messages : List Message) (m_buffer : List UInt8)
  | overrun
  | running
  deriving DecidableEq, Repr

/-- A message delivered before whatever the rest of the loop does. -/
def FeedResult.after (message : Message) : FeedResult → FeedResult
  | .returned messages m_buffer => .returned (message :: messages) m_buffer
  | .overrun => .overrun
  | .running => .running

/-- The loop of `feedRecvData`, for at most the given number of turns. The buffer is
erased only under `if (onMessage)`. -/
def feedLoop (onMessage : Bool) : ℕ → List UInt8 → FeedResult
  | 0, _ => .running
  | turns + 1, m_buffer =>
      match turn m_buffer with
      | .wait => .returned [] m_buffer
      | .overrun => .overrun
      | .frame message unmasked consumed =>
          if onMessage then
            (feedLoop onMessage turns (unmasked.drop consumed)).after message
          else feedLoop onMessage turns unmasked

/-- `WebSocketParser::feedRecvData`. With `onMessage` set every turn erases at least two
bytes, so the number of turns allowed here is never used up. -/
def feedRecvData (onMessage : Bool) (m_buffer data : List UInt8) : FeedResult :=
  feedLoop onMessage ((m_buffer ++ data).length + 1) (m_buffer ++ data)

/-- Calls of `feedRecvData` on one parser, one for each chunk. -/
def feedChunks (onMessage : Bool) : List UInt8 → List (List UInt8) → FeedResult
  | m_buffer, [] => .returned [] m_buffer
  | m_buffer, data :: chunks =>
      match feedRecvData onMessage m_buffer data with
      | .returned messages rest =>
          match feedChunks onMessage rest chunks with
          | .returned more rest' => .returned (messages ++ more) rest'
          | other => other
      | other => other

/-- A turn as a decoder step: the frame leaves the buffer once `onMessage` is called. -/
def peel (m_buffer : List UInt8) : Outcome UInt8 Message :=
  match turn m_buffer with
  | .wait => .wait
  | .overrun => .fail
  | .frame message unmasked consumed => .item message (unmasked.drop consumed)

end LibConn.WebSocket
