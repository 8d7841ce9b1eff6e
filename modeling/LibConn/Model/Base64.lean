import LibConn.Model.WebSocketClient
import LibConn.Shared.Memory

/-! # base64_encode

The loop of `base64.c` over its arrays, and the memory that it writes. -/

namespace LibConn.Http

open LibConn.Memory

/-- `char_array_4` -/
def charArray4 (char_array_3 : ℕ → UInt8) : Bytes :=
  [(char_array_3 0 &&& 0xFC) >>> 2,
    ((char_array_3 0 &&& 0x03) <<< 4) + ((char_array_3 1 &&& 0xF0) >>> 4),
    ((char_array_3 1 &&& 0x0F) <<< 2) + ((char_array_3 2 &&& 0xC0) >>> 6),
    char_array_3 2 &&& 0x3F]

/-- The variables of `base64_encode`. -/
structure EncodeState where
  i : ℕ
  k : ℕ
  char_array_3 : ℕ → UInt8
  output : Block UInt8

/-- `output[k++] = c`; `none` where `k` leaves its `int`. -/
def EncodeState.put (s : EncodeState) (c : UInt8) : Option EncodeState :=
  if s.k + 1 < 2 ^ 31 then some { s with output := s.output.store s.k [c], k := s.k + 1 }
  else none

/-- `output[k++] = base64_chars[digit]` for each digit. -/
def EncodeState.putChars (s : EncodeState) (char_array_4 : Bytes) : Option EncodeState :=
  char_array_4.foldlM (fun s digit => s.put (base64Chars.getD digit.toNat 0)) s

/-- A pass of the first loop. -/
def EncodeState.pass (s : EncodeState) (input : UInt8) : Option EncodeState :=
  let s := { s with char_array_3 := Function.update s.char_array_3 s.i input, i := s.i + 1 }
  if s.i = 3 then (s.putChars (charArray4 s.char_array_3)).map fun s => { s with i := 0 }
  else some s

/-- What follows the loop: the bytes that are left, and the padding. -/
def EncodeState.finish (s : EncodeState) : Option EncodeState :=
  if s.i ≠ 0 then
    let char_array_3 : ℕ → UInt8 := fun j => if s.i ≤ j then 0 else s.char_array_3 j
    (s.putChars ((charArray4 char_array_3).take (s.i + 1))).bind fun s =>
      (List.replicate (3 - s.i) 61).foldlM EncodeState.put s
  else some s

/-- `base64_encode`; `char_array_3` is what its array holds when it begins. -/
def base64EncodeInto (char_array_3 : ℕ → UInt8) (output : Block UInt8) (input : Bytes) :
    Option (Block UInt8) :=
  ((input.foldlM EncodeState.pass ⟨0, 0, char_array_3, output⟩).bind EncodeState.finish).map
    EncodeState.output

end LibConn.Http
