import LibConn.Verification.Parser.Targets
import LibConn.Verification.Parser.Values

/-! # First lines

A request line and a status line, from the first byte of a message to the first of its fields. -/

namespace LibConn.Parser

open LibConn.Http

/-- The two digits of a version. -/
structure Version where
  major : UInt8
  minor : UInt8
  isNum_major : isNum major = true
  isNum_minor : isNum minor = true

/-- The version that the first lines of the source have. -/
def Version.oneOne : Version :=
  ⟨'1'.toUInt8, '1'.toUInt8, rfl, rfl⟩

def Version.text (v : Version) : Bytes :=
  ascii "HTTP/" ++ [v.major, '.'.toUInt8, v.minor]

def HttpParser.speaks (parser : HttpParser) (v : Version) : HttpParser :=
  { parser with http_major := v.major.toNat - 48, http_minor := v.minor.toNat - 48 }

def requestLineText (method : HttpMethod) (url : Bytes) (v : Version) : Bytes :=
  methodStrings method ++ ' '.toUInt8 :: url ++ ' '.toUInt8 :: v.text ++ [CR, LF]

/-- The parser behind a request line. -/
def HttpParser.requested (parser : HttpParser) (method : HttpMethod) (v : Version) : HttpParser :=
  ((parser.begin.behindMethod method ((methodStrings method).length + 1)).speaks v).enter
    .headerFieldStart

section FirstLines

variable {parser last : HttpParser} {ch : UInt8} {text url rest : Bytes} {calls : List Call}
  {method : HttpMethod} {s : State}

/-! ## Versions -/

theorem httpMajor_passes (hstate : parsingHeader parser.state = true)
    (hsingle : ∀ n, single (parser.withNread n) ch = httpMajor (parser.withNread n) ch s)
    (hnum : isNum ch = true) :
    Passes parser ch ({ parser with http_major := ch.toNat - 48 }.enter s) [] := by
  refine ⟨hstate, fun n => ?_⟩
  rw [hsingle, httpMajor, if_neg (by simp [hnum])]
  rfl

theorem httpMinor_passes (hstate : parsingHeader parser.state = true)
    (hsingle : ∀ n, single (parser.withNread n) ch = httpMinor (parser.withNread n) ch s)
    (hnum : isNum ch = true) :
    Passes parser ch ({ parser with http_minor := ch.toNat - 48 }.enter s) [] := by
  refine ⟨hstate, fun n => ?_⟩
  rw [hsingle, httpMinor, if_neg (by simp [hnum])]
  rfl

theorem requestVersion_advances (parser : HttpParser) (v : Version) :
    Advances (parser.enter .reqHttpStart) (v.text ++ [CR, LF]) []
      ((parser.speaks v).enter .headerFieldStart) := by
  have hmajor : Passes (parser.enter .reqHttpMajor) v.major
      ({ parser with http_major := v.major.toNat - 48 }.enter .reqHttpDot) [] :=
    httpMajor_passes rfl (fun _ => rfl) v.isNum_major
  have hminor : Passes ({ parser with http_major := v.major.toNat - 48 }.enter .reqHttpMinor) v.minor
      ((parser.speaks v).enter .reqHttpEnd) [] :=
    httpMinor_passes rfl (fun _ => rfl) v.isNum_minor
  refine .enter (s := .reqHttpH) rfl ⟨rfl, fun _ => rfl⟩ ?_
  refine .enter (s := .reqHttpHT) rfl ⟨rfl, fun _ => rfl⟩ ?_
  refine .enter (s := .reqHttpHTT) rfl ⟨rfl, fun _ => rfl⟩ ?_
  refine .enter (s := .reqHttpHTTP) rfl ⟨rfl, fun _ => rfl⟩ ?_
  refine .enter (s := .reqHttpMajor) rfl ⟨rfl, fun _ => rfl⟩ ?_
  refine .step hmajor (byteCalls_outside _ _ rfl) ?_
  refine .enter (s := .reqHttpMinor) rfl ⟨rfl, fun _ => rfl⟩ ?_
  refine .step hminor (byteCalls_outside _ _ rfl) ?_
  refine .enter (s := .reqLineAlmostDone) rfl ⟨rfl, fun _ => rfl⟩ ?_
  exact .enter (s := .headerFieldStart) rfl ⟨rfl, fun _ => rfl⟩ (.nil _)

theorem requestLine_advances (hstart : AtStart parser) (htarget : Targets method url)
    (v : Version) :
    Advances parser (requestLineText method url v) [.messageBegin, .url url]
      (parser.requested method v) := by
  have hmethod := method_advances hstart method
  have hurl : Advances
      (parser.begin.behindMethod method ((methodStrings method).length + 1))
      (url ++ [' '.toUInt8]) [.url url]
      ((parser.begin.behindMethod method ((methodStrings method).length + 1)).enter
        .reqHttpStart) :=
    url_advances rfl htarget
  have hline := hmethod.append (hurl.append (requestVersion_advances _ v))
  have htext : requestLineText method url v =
      methodStrings method ++ [' '.toUInt8] ++ (url ++ [' '.toUInt8] ++ (v.text ++ [CR, LF])) := by
    simp [requestLineText]
  rw [htext]
  exact hline

/-! ## Status lines -/

/-- A digit of a status code behind the number so far. -/
def codeStep (m : ℕ) (ch : UInt8) : Option ℕ :=
  if isNum ch && decide (m * 10 + (ch.toNat - 48) ≤ 999) then some (m * 10 + (ch.toNat - 48))
  else none

/-- The parser inside of a status code. -/
def HttpParser.atCode (parser : HttpParser) (code : ℕ) : HttpParser :=
  { parser with state := .resStatusCode, status_code := code }

theorem single_codeDigit (parser : HttpParser) {m : ℕ} (hm : m ≤ 999) (hnum : isNum ch = true) :
    single (parser.atCode m) ch =
      match codeStep m ch with
      | some m => .next (parser.atCode m) []
      | none => .fail (parser.atCode (m * 10 + (ch.toNat - 48))) [] .invalidStatus := by
  have hdigit := digit_le hnum
  have hmod : (m * 10 + (ch.toNat - 48)) % 2 ^ 16 = m * 10 + (ch.toNat - 48) :=
    Nat.mod_eq_of_lt (by omega)
  have hturn : single (parser.atCode m) ch = resStatusCode (parser.atCode m) ch := rfl
  rw [hturn, resStatusCode, if_neg (by simp [hnum]), codeStep, hnum, Bool.true_and]
  change (if 999 < (m * 10 + (ch.toNat - 48)) % 2 ^ 16 then
      .fail (parser.atCode ((m * 10 + (ch.toNat - 48)) % 2 ^ 16)) [] .invalidStatus
    else Turn.next (parser.atCode ((m * 10 + (ch.toNat - 48)) % 2 ^ 16)) []) = _
  rw [hmod]
  by_cases hle : m * 10 + (ch.toNat - 48) ≤ 999
  · rw [if_neg (not_lt.mpr hle), if_pos (decide_eq_true hle)]
  · rw [if_pos (not_le.mp hle), if_neg (by simp [hle])]

/-- The digits of a status code behind the first. -/
theorem code_simulates (parser : HttpParser) :
    Simulates (· ≤ 999) parser.atCode codeStep (fun _ => []) (isNum · = true) where
  taken m ch m' hm hstep := by
    obtain ⟨hboth, hm'⟩ := Option.ite_none_right_eq_some.mp hstep
    rw [Bool.and_eq_true, decide_eq_true_eq] at hboth
    obtain rfl := Option.some.inj hm'
    refine ⟨hboth.2, ⟨rfl, fun n => ?_⟩, byteCalls_outside ch _ rfl⟩
    have hturn := single_codeDigit (parser.withNread n) hm hboth.1
    rw [hstep] at hturn
    exact hturn
  refused m ch hm hstep hnum := by
    refine ⟨rfl, fun n => ?_⟩
    have hturn := single_codeDigit (parser.withNread n) hm hnum
    rw [hstep] at hturn
    exact ⟨_, _, _, hturn⟩

theorem foldlM_codeStep {m : ℕ} {digits : Bytes} (hdigits : ∀ b ∈ digits, isNum b = true)
    (hm : m ≤ 999) :
    digits.foldlM codeStep m =
      if Numerals.value 10 m (digitValues digits) ≤ 999 then
        some (Numerals.value 10 m (digitValues digits))
      else none := by
  induction digits generalizing m with
  | nil => exact (if_pos hm).symm
  | cons ch digits ih =>
      obtain ⟨hnum, hrest⟩ := List.forall_mem_cons.mp hdigits
      rw [List.foldlM_cons, codeStep, hnum, Bool.true_and, digitValues_cons,
        Numerals.value_cons]
      by_cases hle : m * 10 + (ch.toNat - 48) ≤ 999
      · rw [if_pos (decide_eq_true hle)]
        exact ih hrest hle
      · have hvalue := @Numerals.le_value 10 (by decide) (m * 10 + (ch.toNat - 48))
          (digitValues digits)
        rw [if_neg (by simp [hle]), if_neg (by omega)]
        rfl

/-- A parser in front of a response, for all that is known of the connection. -/
def AtReply (parser : HttpParser) : Prop :=
  (parser.state = .startRes ∧ parser.type = .response) ∨ parser.state = .startReqOrRes

def statusLineText (v : Version) (digits reason : Bytes) : Bytes :=
  v.text ++ ' '.toUInt8 :: digits ++ ' '.toUInt8 :: reason ++ [CR, LF]

/-- The parser behind a status line. -/
def HttpParser.answered (parser : HttpParser) (v : Version) (code : ℕ) : HttpParser :=
  { parser.begin.speaks v with
    type := .response, state := .headerFieldStart, status_code := code, index := 0 }

/-- The name of the protocol, in front of which both kinds of message may still come. -/
theorem protocol_advances (hstart : AtReply parser) :
    Advances parser (ascii "HTTP/") [.messageBegin]
      { parser.begin with type := .response, state := .resHttpMajor } := by
  have hrest : Advances { parser.begin with type := .response, state := .resHT } (ascii "TP/") []
      { parser.begin with type := .response, state := .resHttpMajor } := by
    refine .enter (s := .resHTT) rfl ⟨rfl, fun _ => rfl⟩ ?_
    refine .enter (s := .resHTTP) rfl ⟨rfl, fun _ => rfl⟩ ?_
    exact .enter (s := .resHttpMajor) rfl ⟨rfl, fun _ => rfl⟩ (.nil _)
  rcases hstart with ⟨hstate, htype⟩ | hstate
  · have hH : Passes parser 'H'.toUInt8 (parser.begin.enter .resH) [.notify .messageBegin] := by
      refine ⟨by rw [hstate]; rfl, fun n => ?_⟩
      rw [single, oneByte, show (parser.withNread n).state = .startRes from hstate]
      rfl
    have hT : Passes (parser.begin.enter .resH) 'T'.toUInt8
        { parser.begin with type := .response, state := .resHT } [] := by
      have hsame : parser.begin.type = .response := htype
      rw [← hsame]
      exact ⟨rfl, fun _ => rfl⟩
    have hmark : markOf parser.state = none := by rw [hstate]; rfl
    have hbegin := hH.advances
    rw [byteCalls_notify _ _ _ hmark, byteCalls_outside _ _ hmark] at hbegin
    exact hbegin.append (.step hT (byteCalls_outside _ _ rfl) hrest)
  · have hT : Passes (parser.begin.enter .resOrRespH) 'T'.toUInt8
        { parser.begin with type := .response, state := .resHT } [] := ⟨rfl, fun _ => rfl⟩
    have hmark : markOf parser.state = none := by rw [hstate]; rfl
    have hbegin := (passes_H hstate).advances
    rw [byteCalls_notify _ _ _ hmark, byteCalls_outside _ _ hmark] at hbegin
    exact hbegin.append (.step hT (byteCalls_outside _ _ rfl) hrest)

/-- The reason, which may be empty, and the end of a status line. -/
theorem reason_advances {reason : Bytes} (hreason : ∀ b ∈ reason, b ≠ CR ∧ b ≠ LF) :
    Advances (parser.enter .resStatusStart) (reason ++ [CR, LF])
      [.status reason parser.status_code]
      { parser with state := .headerFieldStart, index := 0 } := by
  have hlf : Advances { parser with state := .resLineAlmostDone, index := 0 } [LF] []
      { parser with state := .headerFieldStart, index := 0 } :=
    .enter (s := .headerFieldStart) rfl ⟨rfl, fun _ => rfl⟩ (.nil _)
  cases reason with
  | nil =>
      have hcr : Passes (parser.enter .resStatusStart) CR
          { parser with state := .resLineAlmostDone, index := 0 } [.mark .status, .data .status] :=
        ⟨rfl, fun _ => rfl⟩
      have hend := hcr.advances
      rw [byteCalls_empty _ _ _ rfl, byteCalls_outside _ _ rfl] at hend
      exact hend.append hlf
  | cons ch rest =>
      obtain ⟨hch, hrest⟩ := List.forall_mem_cons.mp hreason
      have hfirst : Passes (parser.enter .resStatusStart) ch
          { parser with state := .resStatus, index := 0 } [.mark .status] := by
        refine ⟨rfl, fun n => ?_⟩
        have hturn : single ((parser.enter .resStatusStart).withNread n) ch =
            resStatusStart ((parser.enter .resStatusStart).withNread n) ch := rfl
        rw [hturn, resStatusStart, if_neg (by simp [hch])]
        rfl
      have hinside : ∀ b ∈ rest, Passes { parser with state := .resStatus, index := 0 } b
          { parser with state := .resStatus, index := 0 } [] := by
        intro b hb
        refine ⟨rfl, fun n => ?_⟩
        have hturn : single ({ parser with state := .resStatus, index := 0 }.withNread n) b =
            resStatus ({ parser with state := .resStatus, index := 0 }.withNread n) b := rfl
        rw [hturn, resStatus, if_neg (hrest b hb).1, if_neg (hrest b hb).2]
      have hcr : Passes { parser with state := .resStatus, index := 0 } CR
          { parser with state := .resLineAlmostDone, index := 0 } [.data .status] :=
        ⟨rfl, fun _ => rfl⟩
      have hstring := advances_string (joins_dataCall parser .status) hfirst rfl (fun _ => rfl)
        (.stays_inside (f := .status) rfl hinside) hcr rfl fun _ => rfl
      have hline := hstring.append hlf
      rw [List.append_assoc] at hline
      exact hline

theorem code_advances {digits : Bytes} {code : ℕ} (hcode : decimal digits = some code)
    (hle : code ≤ 999) :
    Advances (parser.enter .resFirstStatusCode) (digits ++ [' '.toUInt8]) []
      ({ parser with status_code := code }.enter .resStatusStart) := by
  obtain ⟨hne, hnum, hvalue⟩ := decimal_eq_some_iff.mp hcode
  have hfold := foldlM_codeStep hnum (Nat.zero_le 999)
  rw [hvalue, if_pos hle] at hfold
  have hspace : Advances (parser.atCode code) [' '.toUInt8] []
      ({ parser with status_code := code }.enter .resStatusStart) :=
    .enter (s := .resStatusStart) rfl ⟨rfl, fun _ => rfl⟩ (.nil _)
  cases digits with
  | nil => exact absurd rfl hne
  | cons ch rest =>
      rw [List.foldlM_cons] at hfold
      obtain ⟨m, hfirst, hrest⟩ := Option.bind_eq_some_iff.mp hfold
      obtain ⟨hboth, hm⟩ := Option.ite_none_right_eq_some.mp hfirst
      rw [Bool.and_eq_true, decide_eq_true_eq] at hboth
      rw [Nat.zero_mul, Nat.zero_add] at hboth hm
      obtain rfl := Option.some.inj hm
      have hpasses : Passes (parser.enter .resFirstStatusCode) ch
          (parser.atCode (ch.toNat - 48)) [] := by
        refine ⟨rfl, fun n => ?_⟩
        have hturn : single ((parser.enter .resFirstStatusCode).withNread n) ch =
            resFirstStatusCode ((parser.enter .resFirstStatusCode).withNread n) ch := rfl
        rw [hturn, resFirstStatusCode, if_neg (by simp [hboth.1])]
        rfl
      have hinside := ((code_simulates parser).advances hboth.2 hrest).1
      rw [List.flatMap_eq_nil_iff.mpr fun _ _ => rfl] at hinside
      exact .step hpasses (byteCalls_outside _ _ rfl) (hinside.append hspace)

theorem statusLine_advances {digits reason : Bytes} {code : ℕ} (hstart : AtReply parser)
    (v : Version) (hcode : decimal digits = some code) (hle : code ≤ 999)
    (hreason : ∀ b ∈ reason, b ≠ CR ∧ b ≠ LF) :
    Advances parser (statusLineText v digits reason) [.messageBegin, .status reason code]
      (parser.answered v code) := by
  let start : HttpParser := { parser.begin with type := .response }
  have hmajor : Passes (start.enter .resHttpMajor) v.major
      ({ start with http_major := v.major.toNat - 48 }.enter .resHttpDot) [] :=
    httpMajor_passes rfl (fun _ => rfl) v.isNum_major
  have hminor : Passes ({ start with http_major := v.major.toNat - 48 }.enter .resHttpMinor) v.minor
      ((start.speaks v).enter .resHttpEnd) [] :=
    httpMinor_passes rfl (fun _ => rfl) v.isNum_minor
  have hversion : Advances (start.enter .resHttpMajor)
      [v.major, '.'.toUInt8, v.minor, ' '.toUInt8] []
      ((start.speaks v).enter .resFirstStatusCode) := by
    refine .step hmajor (byteCalls_outside _ _ rfl) ?_
    refine .enter (s := .resHttpMinor) rfl ⟨rfl, fun _ => rfl⟩ ?_
    refine .step hminor (byteCalls_outside _ _ rfl) ?_
    exact .enter (s := .resFirstStatusCode) rfl ⟨rfl, fun _ => rfl⟩ (.nil _)
  have hline := (protocol_advances hstart).append
    (hversion.append ((code_advances hcode hle).append (reason_advances hreason)))
  have htext : statusLineText v digits reason = ascii "HTTP/" ++
      ([v.major, '.'.toUInt8, v.minor, ' '.toUInt8] ++
        (digits ++ [' '.toUInt8] ++ (reason ++ [CR, LF]))) := by
    simp [statusLineText, Version.text]
  rw [htext]
  exact hline

end FirstLines

end LibConn.Parser
