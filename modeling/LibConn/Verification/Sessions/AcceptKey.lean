import LibConn.Model.AcceptKey
import LibConn.Verification.Http.Base64
import LibConn.Verification.Sessions.HeaderNames

/-! # The accept value

`concatenated` has room for 127 characters: what a longer key has to say is cut off in front of
the hash. -/

namespace LibConn.Http

open LibConn.Memory
open LibConn.Base64 (standard)

variable {σ : Type}

/-! ## ws_encode_key -/

theorem cStr_snprintf (buf : ℕ → UInt8) {text : Bytes} {size : ℕ} (hnul : 0 ∉ text)
    (hsize : 0 < size) : cStr (slice (snprintf buf size text) 0 size) = text.take (size - 1) := by
  have hlength : (text.take (size - 1)).length < size := by
    rw [List.length_take]
    omega
  exact cStr_copy buf (fun h => hnul (List.mem_of_mem_take h)) hlength

theorem cStr_strncpy (dest : ℕ → UInt8) {src : Bytes} {n last : ℕ} (hnul : 0 ∉ src)
    (hlast : src.length < last) (hn : last < n) :
    cStr (slice (copy (strncpy dest src n) last [0]) 0 n) = src := by
  have hzeros : List.replicate (n - src.length) (0 : UInt8) =
      0 :: List.replicate (n - src.length - 1) 0 := by
    rw [← List.replicate_succ]
    congr 1
    omega
  have hcopied : strncpy dest src n =
      copy dest 0 (src ++ 0 :: List.replicate (n - src.length - 1) 0) := by
    rw [strncpy, List.take_of_length_le (by omega), hzeros]
  rw [hcopied]
  refine cStr_slice hnul ?_ ?_ (by omega)
  · rw [slice_copy_of_le _ hlast.le, slice_copy_append]
  · rw [copy_of_lt _ hlast, copy_append_cons]

theorem cStr_wsEncodeKey {ssl : OpenSsl} (hssl : ssl.Documented)
    (concatenated base64_output : ℕ → UInt8) {key : Bytes} (hnul : 0 ∉ key) :
    cStr (wsEncodeKey ssl concatenated base64_output key) =
      standard.encode (ssl.sha1 ((key ++ guid).take 127)) := by
  have htext : 0 ∉ key ++ guid := by
    rw [List.mem_append]
    exact not_or.mpr ⟨hnul, by decide⟩
  have hlength : (standard.encode (ssl.sha1 ((key ++ guid).take 127))).length = 28 := by
    rw [Base64.encode_length, hssl.sha1_length]
  have htake : (ssl.sha1 ((key ++ guid).take 127)).take 20 = ssl.sha1 ((key ++ guid).take 127) :=
    List.take_of_length_le (hssl.sha1_length _).le
  rw [wsEncodeKey, cStr_snprintf concatenated htext (by decide), htake, hssl.evpEncodeBlock,
    cStr_copy base64_output (zero_notMem_encode _) (by omega)]
  exact cStr_strncpy _ (zero_notMem_encode _) (by omega) (by decide)

/-! ## The response -/

/-- `upgradeWSProtocol` sends its response, and the accept value in it is this one. -/
structure AnswersWith (lib : Externals σ) (handle : HttpHandle σ) (accept : Bytes) : Prop where
  sent : (handle.upgradeWSProtocol lib).1 =
    [.sent ((handle.upgradeWSProtocol lib).2.m_response.dump wsHeader)]
  accept : (handle.upgradeWSProtocol lib).2.m_response.headers.find secWebsocketAccept =
    some accept

/-- SHA-1 tells a text from its first 127 characters. -/
def OpenSsl.Distinguishes (ssl : OpenSsl) (text : Bytes) : Prop :=
  ssl.sha1 (text.take 127) = ssl.sha1 text → text.take 127 = text

theorem answersWith_wsEncodeKey_iff (lib : Externals σ) {handle : HttpHandle σ} {key : Bytes}
    (hkey : handle.m_request.headers.find secWebsocketKey = some key) (accept : Bytes) :
    AnswersWith lib handle accept ↔ cStr (lib.wsEncodeKey (cStr key)) = accept := by
  have hne : secWebsocketAccept ≠ secWebsocketProtocol := by decide
  have hfind : (handle.upgradeWSProtocol lib).2.m_response.headers.find secWebsocketAccept =
      some (cStr (lib.wsEncodeKey (cStr key))) := by
    change (upgradeHeaders lib handle.m_request.headers handle.m_response.headers).find
      secWebsocketAccept = _
    rw [find_upgradeHeaders, if_neg hne, if_pos rfl, hkey]
    rfl
  constructor
  · intro h
    exact Option.some.inj (hfind.symm.trans h.accept)
  · rintro rfl
    exact ⟨rfl, hfind⟩

/-- The accept value is that of RFC 6455 exactly for keys of at most 91 bytes. -/
theorem answersWith_iff (lib : Externals σ) {ssl : OpenSsl} (hssl : ssl.Documented)
    (concatenated base64_output : ℕ → UInt8) (handle : HttpHandle σ) (key : Bytes)
    (hkey : handle.m_request.headers.find secWebsocketKey = some key) (hnul : 0 ∉ key)
    (hsha1 : ssl.Distinguishes (key ++ guid)) :
    AnswersWith (lib.withSsl ssl concatenated base64_output) handle
        (standard.encode (ssl.sha1 (key ++ guid))) ↔
      key.length ≤ 91 := by
  have hvalue : cStr (wsEncodeKey ssl concatenated base64_output (cStr key)) =
      standard.encode (ssl.sha1 ((key ++ guid).take 127)) := by
    rw [cStr_of_notMem hnul]
    exact cStr_wsEncodeKey hssl _ _ hnul
  have hguid : (key ++ guid).length = key.length + 36 := List.length_append
  rw [answersWith_wsEncodeKey_iff _ hkey, Externals.withSsl, hvalue]
  constructor
  · intro h
    have htake := hsha1 (Base64.encode_injective standard h)
    have hlength := congrArg List.length htake
    rw [List.length_take, hguid] at hlength
    omega
  · intro h
    rw [List.take_of_length_le (by omega)]

/-- A handle whose request carries this key. -/
def handleWithKey (key : Bytes) : HttpHandle Unit :=
  (HttpHandle.setRouter (Externals.scripted []) ⟨.get, .get, 0, 0⟩ .new true).withMessages
    (⟨ascii "/", .get, .set (.set .empty (ascii "Upgrade") (ascii "websocket")) secWebsocketKey key,
      [], 0⟩, ⟨.empty, [], 0⟩)

/-- SHA-1 of what a usual key and what a key of 92 characters are hashed as, and of all that the
longer key should be hashed as. -/
def sampleSsl : OpenSsl where
  sha1 d :=
    if d = ascii "dGhlIHNhbXBsZSBub25jZQ==" ++ guid then
      [0xB3, 0x7A, 0x4F, 0x2C, 0xC0, 0x62, 0x4F, 0x16, 0x90, 0xF6, 0x46, 0x06, 0xCF, 0x38, 0x59,
        0x45, 0xB2, 0xBE, 0xC4, 0xEA]
    else if d = (List.replicate 92 97 ++ guid).take 127 then
      [0xA3, 0x12, 0x84, 0xB8, 0xAB, 0xEA, 0xC0, 0xCF, 0xB7, 0xD9, 0x9B, 0xA8, 0x94, 0xF1, 0x3A,
        0xEB, 0x9F, 0x10, 0x82, 0x36]
    else
      [0x42, 0x8C, 0xD3, 0x59, 0xD2, 0x64, 0x27, 0xA3, 0x2B, 0xEB, 0xE4, 0x30, 0xA8, 0x01, 0xED,
        0xF3, 0x23, 0x69, 0x05, 0xD7]
  evpEncodeBlock := standard.encode

theorem sampleSsl_documented : sampleSsl.Documented := by
  refine ⟨fun d => ?_, fun _ => rfl⟩
  rw [sampleSsl]
  dsimp only
  split_ifs <;> rfl

/-- The key of RFC 6455. -/
theorem answersWith_usual :
    AnswersWith ((Externals.scripted []).withSsl sampleSsl (fun _ => 0) fun _ => 0)
      (handleWithKey (ascii "dGhlIHNhbXBsZSBub25jZQ=="))
      (ascii "s3pPLMBiTxaQ9kYGzzhZRbK+xOo=") := by
  have haccept : ascii "s3pPLMBiTxaQ9kYGzzhZRbK+xOo=" =
      standard.encode (sampleSsl.sha1 (ascii "dGhlIHNhbXBsZSBub25jZQ==" ++ guid)) := by
    decide +kernel
  rw [haccept]
  refine (answersWith_iff _ sampleSsl_documented _ _ _ _ ?_ (by decide) fun _ => ?_).mpr (by decide)
  · decide +kernel
  · decide +kernel

/-- A key of 92 characters. -/
theorem not_answersWith_long :
    ¬ AnswersWith ((Externals.scripted []).withSsl sampleSsl (fun _ => 0) fun _ => 0)
      (handleWithKey (List.replicate 92 97))
      (standard.encode (sampleSsl.sha1 (List.replicate 92 97 ++ guid))) := by
  have hkey : (handleWithKey (List.replicate 92 97)).m_request.headers.find secWebsocketKey =
      some (List.replicate 92 97) := by
    decide +kernel
  rw [answersWith_wsEncodeKey_iff _ hkey]
  decide +kernel

end LibConn.Http
