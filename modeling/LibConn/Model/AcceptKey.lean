import LibConn.Model.Http
import LibConn.Shared.Base64
import LibConn.Shared.Memory

/-! # ws_encode_key

The arrays that the key passes through. OpenSSL is called from outside. -/

namespace LibConn.Http

open LibConn.Memory

/-- The functions of OpenSSL. `EVP_EncodeBlock` is what it writes in front of the zero byte. -/
structure OpenSsl where
  sha1 : Bytes → Bytes
  evpEncodeBlock : Bytes → Bytes

/-- What the documentation of the two functions says. -/
structure OpenSsl.Documented (ssl : OpenSsl) : Prop where
  sha1_length : ∀ d, (ssl.sha1 d).length = 20
  evpEncodeBlock : ∀ f, ssl.evpEncodeBlock f = Base64.standard.encode f

/-- `guid` -/
def guid : Bytes :=
  ascii "258EAFA5-E914-47DA-95CA-C5AB0DC85B11"

/-- `snprintf` of this text. -/
def snprintf (buf : ℕ → UInt8) (size : ℕ) (text : Bytes) : ℕ → UInt8 :=
  copy buf 0 (text.take (size - 1) ++ [0])

/-- `strncpy`, with the characters of `src` in front of the zero byte. -/
def strncpy (dest : ℕ → UInt8) (src : Bytes) (n : ℕ) : ℕ → UInt8 :=
  copy dest 0 (src.take n ++ List.replicate (n - src.length) 0)

/-- `ws_encode_key`, with the array `ws_accept` that `upgradeWSProtocol` gives to it, as it is
left. `concatenated` and `base64_output` are what the arrays hold before. -/
def wsEncodeKey (ssl : OpenSsl) (concatenated base64_output : ℕ → UInt8)
    (sec_websocket_key : Bytes) : Bytes :=
  let concatenated := snprintf concatenated 128 (sec_websocket_key ++ guid)
  let sha1_hash := ssl.sha1 (cStr (slice concatenated 0 128))
  let base64_output := copy base64_output 0 (ssl.evpEncodeBlock (sha1_hash.take 20) ++ [0])
  let ws_accept := strncpy (fun _ => 0) (cStr (slice base64_output 0 64)) 32
  let ws_accept := copy ws_accept 31 [0]
  slice ws_accept 0 32

/-- The library with this `ws_encode_key`. -/
def Externals.withSsl {σ : Type} (lib : Externals σ) (ssl : OpenSsl)
    (concatenated base64_output : ℕ → UInt8) : Externals σ :=
  { lib with wsEncodeKey := Http.wsEncodeKey ssl concatenated base64_output }

end LibConn.Http
