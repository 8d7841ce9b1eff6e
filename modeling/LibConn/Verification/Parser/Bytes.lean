import LibConn.Model.Parser.Execute

/-! # One byte at a time

The parser without its inner loops and pointers: what it does with a byte depends on the parser
and the byte only. In a sound parser no `assert` fails, whatever comes. -/

namespace LibConn.Parser

open LibConn.Http

/-- The four states with a loop of their own, for one byte. -/
def loopByte (parser : HttpParser) (ch : UInt8) : Turn :=
  match parser.state with
  | .headerField =>
      if token ch = 0 then fieldEnd parser ch
      else
        match fieldChar parser ch with
        | none => .abort
        | some parser => .next parser []
  | .headerValue =>
      if ch = CR then .next (parser.enter .headerAlmostDone) [.data .headerValue]
      else if ch = LF then
        (headerAlmostDone (parser.enter .headerAlmostDone) ch).after [.data .headerValue]
      else if !parser.lenient_http_headers && !isHeaderChar ch then
        .fail parser [] .invalidHeaderToken
      else
        match valueChar parser parser.header_state ch with
        | .goOn parser h_state => .next { parser with header_state := h_state } []
        | .fail parser e => .fail parser [] e
        | .abort => .abort
  | .bodyIdentity =>
      if parser.content_length = 0 || parser.content_length = ullongMax then .abort
      else
        let parser := { parser with content_length := parser.content_length - 1 }
        if parser.content_length = 0 then
          (messageDone (parser.enter .messageDone)).after [.mark .body, .bodyHere]
        else .next parser [.mark .body]
  | .chunkData =>
      if !parser.flags.chunked then .abort
      else if parser.content_length = 0 || parser.content_length = ullongMax then .abort
      else
        let parser := { parser with content_length := parser.content_length - 1 }
        .next (if parser.content_length = 0 then parser.enter .chunkDataAlmostDone else parser)
          [.mark .body]
  | .bodyIdentityEof => .next parser [.mark .body]
  | _ => .abort

def single (parser : HttpParser) (ch : UInt8) : Turn :=
  (oneByte parser ch).getD (loopByte parser ch)

/-- What the parser does with a byte. -/
def eat (parser : HttpParser) (ch : UInt8) : Turn :=
  if parsingHeader parser.state then
    if maxHeaderSize < (parser.count 1).nread then .fail (parser.count 1) [] .headerOverflow
    else single (parser.count 1) ch
  else single parser ch

def HttpParser.withNread (parser : HttpParser) (n : ℕ) : HttpParser :=
  { parser with nread := n }

/-- The field that a state is inside of; `body` is not marked where the data begins. -/
def markOf : State → Option Field
  | .headerField => some .headerField
  | .headerValue => some .headerValue
  | .reqPath | .reqSchema | .reqSchemaSlash | .reqSchemaSlashSlash | .reqServerStart
  | .reqServer | .reqServerWithAt | .reqQueryStringStart | .reqQueryString
  | .reqFragmentStart | .reqFragment => some .url
  | .resStatus => some .status
  | _ => none

/-! ## Soundness -/

/-- The header states of a name. -/
def nameState : HeaderState → Bool
  | .general | .C | .CO | .CON | .matchingConnection | .matchingProxyConnection
  | .matchingContentLength | .matchingTransferEncoding | .matchingUpgrade | .connection
  | .contentLength | .transferEncoding | .upgrade => true
  | _ => false

/-- The header states of a value. -/
def valueState (h_state : HeaderState) : Bool :=
  h_state ≠ .connection && h_state ≠ .transferEncoding

/-- What the code of a state relies on. -/
def Fits (parser : HttpParser) : Prop :=
  match parser.state with
  | .reqMethod => parser.index ≤ (methodStrings parser.method).length
  | .headerField => nameState parser.header_state = true
  | .headerValue => valueState parser.header_state = true
  | .chunkSizeStart => parser.nread = 0 ∧ parser.flags.chunked = true
  | .chunkSize | .chunkParameters | .chunkSizeAlmostDone =>
      parser.content_length < ullongMax ∧ parser.flags.chunked = true
  | .chunkData =>
      parser.content_length ≠ 0 ∧ parser.content_length < ullongMax ∧ parser.flags.chunked = true
  | .chunkDataAlmostDone => parser.content_length = 0 ∧ parser.flags.chunked = true
  | .chunkDataDone => parser.flags.chunked = true
  | .bodyIdentity => parser.content_length ≠ 0 ∧ parser.content_length < ullongMax
  | _ => True

structure Base (parser : HttpParser) : Prop where
  http_errno : parser.http_errno = .ok
  content_length : parser.content_length ≤ ullongMax
  nread : parser.nread ≤ maxHeaderSize

/-- The invariant of a parser that has met no error. -/
structure Sound (parser : HttpParser) : Prop extends Base parser where
  fits : Fits parser

theorem sound_init (t : ParserType) : Sound (.init t) := by
  refine ⟨⟨rfl, Nat.zero_le _, Nat.zero_le _⟩, ?_⟩
  cases t <;> trivial

/-- The case ends in a sound parser, or with an error. -/
def Turn.Safe : Turn → Prop
  | .next parser _ => Sound parser
  | .fail _ _ e => e ≠ .ok
  | .leave parser _ => Sound parser
  | .abort => False

@[simp] theorem safe_after (turn : Turn) (ops : List Op) : (turn.after ops).Safe ↔ turn.Safe := by
  cases turn <;> rfl

section Cases

variable {parser : HttpParser} {ch : UInt8}

theorem Base.of_eq {parser' : HttpParser} (h : Base parser)
    (herrno : parser'.http_errno = parser.http_errno)
    (hlength : parser'.content_length = parser.content_length)
    (hnread : parser'.nread = parser.nread) : Base parser' :=
  ⟨herrno.trans h.http_errno, hlength.le.trans h.content_length, hnread.le.trans h.nread⟩

theorem Base.restart (h : Base parser) (s : State) (flags : Flags) :
    Base { parser with nread := 0, state := s, flags := flags } :=
  ⟨h.http_errno, h.content_length, Nat.zero_le _⟩

theorem Base.begin (h : Base parser) : Base parser.begin :=
  ⟨h.http_errno, le_refl _, h.nread⟩

theorem newMessage_cases (parser : HttpParser) :
    parser.newMessage = .startReq ∨ parser.newMessage = .startRes ∨ parser.newMessage = .dead := by
  rw [HttpParser.newMessage]
  split_ifs
  · exact .inl rfl
  · exact .inr (.inl rfl)
  · exact .inr (.inr rfl)

theorem Base.newMessage (h : Base parser) : Sound (parser.enter parser.newMessage) := by
  refine ⟨h.of_eq rfl rfl rfl, ?_⟩
  rcases newMessage_cases parser with hstate | hstate | hstate <;>
    rw [hstate] <;> trivial

theorem strictCheck_safe {expected : UInt8} {s : State} (h : Base parser)
    (hs : Fits (parser.enter s)) : (strictCheck parser ch expected s).Safe := by
  rw [strictCheck]
  split_ifs
  · exact nofun
  · exact ⟨h.of_eq rfl rfl rfl, hs⟩

theorem startReq_safe (h : Base parser) (hfits : Fits parser) : (startReq parser ch).Safe := by
  rw [startReq]
  split_ifs
  · exact ⟨h, hfits⟩
  · exact nofun
  · cases hmethod : firstMethod ch with
    | none => exact nofun
    | some method =>
        refine ⟨h.begin.of_eq rfl rfl rfl, ?_⟩
        change 1 ≤ (methodStrings method).length
        cases method <;> decide

theorem startReqOrRes_safe (h : Base parser) (hfits : Fits parser) :
    (startReqOrRes parser ch).Safe := by
  rw [startReqOrRes]
  split_ifs
  · exact ⟨h, hfits⟩
  · exact ⟨h.begin.of_eq rfl rfl rfl, trivial⟩
  · exact startReq_safe (h.begin.of_eq rfl rfl rfl) trivial

theorem resOrRespH_safe (h : Base parser) : (resOrRespH parser ch).Safe := by
  rw [resOrRespH]
  split_ifs
  · exact ⟨h.of_eq rfl rfl rfl, trivial⟩
  · exact nofun
  · exact ⟨h.of_eq rfl rfl rfl, (by decide : 2 ≤ (methodStrings .head).length)⟩

theorem methodStrings_length (method : HttpMethod) : (methodStrings method).length ≤ 11 := by
  cases method <;> decide

theorem nextIndex_of_lt {index : ℕ} (h : index < 31) : nextIndex index = index + 1 :=
  Nat.mod_eq_of_lt (by omega)

/-- Every entry leads to a method that is long enough. -/
theorem otherMethod_length {method method' : HttpMethod} {index : ℕ}
    (h : otherMethod method index ch = some method') :
    index < 31 ∧ index + 1 ≤ (methodStrings method').length := by
  obtain ⟨entry, hentry, hmatch⟩ := List.exists_of_findSome?_eq_some h
  split_ifs at hmatch with hsame
  obtain ⟨-, rfl, -⟩ := hsame
  obtain rfl := Option.some.inj hmatch
  have hall : ∀ entry ∈ methodEntries,
      entry.2.1 < 31 ∧ entry.2.1 + 1 ≤ (methodStrings entry.2.2.2).length := by
    decide
  exact hall entry hentry

theorem reqMethod_safe (h : Base parser) (hstate : parser.state = .reqMethod)
    (hindex : parser.index ≤ (methodStrings parser.method).length) :
    (reqMethod parser ch).Safe := by
  have hlength := methodStrings_length parser.method
  have hnext := @nextIndex_of_lt parser.index (by omega)
  have hread : ∃ expected, (methodStrings parser.method ++ [0])[parser.index]? = some expected := by
    refine ⟨_, List.getElem?_eq_getElem ?_⟩
    rw [List.length_append, List.length_singleton]
    omega
  obtain ⟨expected, hexpected⟩ := hread
  rw [reqMethod, hexpected]
  dsimp only
  split_ifs with hzero hspace hsame hother
  · exact nofun
  · exact ⟨h.of_eq rfl rfl rfl, trivial⟩
  · refine ⟨h.of_eq rfl rfl rfl, ?_⟩
    have hne : parser.index ≠ (methodStrings parser.method).length := by
      intro hend
      rw [hend, List.getElem?_concat_length] at hexpected
      exact hzero (hsame.trans (Option.some.inj hexpected).symm)
    rw [Fits]
    dsimp only
    rw [hstate]
    change nextIndex parser.index ≤ (methodStrings parser.method).length
    omega
  · cases hmethod : otherMethod parser.method parser.index ch with
    | none => exact nofun
    | some method =>
        refine ⟨h.of_eq rfl rfl rfl, ?_⟩
        rw [Fits]
        dsimp only
        rw [hstate, hnext]
        exact (otherMethod_length hmethod).2
  · exact nofun

theorem parseUrlChar_cases (s : State) (ch : UInt8) :
    parseUrlChar s ch = .dead ∨ markOf (parseUrlChar s ch) = some .url := by
  unfold parseUrlChar
  split
  · exact .inl rfl
  split
  · exact .inl rfl
  unfold parseUrlChar.server
  split <;> (try split_ifs) <;> first | exact .inl rfl | exact .inr rfl

theorem fits_of_url (h : markOf parser.state = some .url) : Fits parser := by
  rw [Fits]
  split <;> next hstate => first | trivial | exact absurd h (by rw [hstate]; decide)

theorem urlChar_safe {ops : List Op} (h : Base parser) : (urlChar parser ch ops).Safe := by
  rw [urlChar]
  split_ifs with hdead
  · exact nofun
  · exact ⟨h.of_eq rfl rfl rfl, fits_of_url ((parseUrlChar_cases _ ch).resolve_left hdead)⟩

theorem reqSpacesBeforeUrl_safe (h : Base parser) (hfits : Fits parser) :
    (reqSpacesBeforeUrl parser ch).Safe := by
  rw [reqSpacesBeforeUrl]
  split_ifs
  · exact ⟨h, hfits⟩
  · exact urlChar_safe (h.of_eq rfl rfl rfl)
  · exact urlChar_safe h

theorem reqSchema_safe (h : Base parser) : (reqSchema parser ch).Safe := by
  rw [reqSchema]
  split_ifs
  · exact nofun
  · exact urlChar_safe h

theorem reqUrl_safe (h : Base parser) : (reqUrl parser ch).Safe := by
  rw [reqUrl]
  split_ifs
  · exact ⟨h.of_eq rfl rfl rfl, trivial⟩
  · exact ⟨h.of_eq rfl rfl rfl, trivial⟩
  · exact ⟨h.of_eq rfl rfl rfl, trivial⟩
  · exact urlChar_safe h

theorem reqHttpStart_safe (h : Base parser) (hfits : Fits parser) :
    (reqHttpStart parser ch).Safe := by
  rw [reqHttpStart]
  split_ifs
  · exact ⟨h, hfits⟩
  · exact ⟨h.of_eq rfl rfl rfl, trivial⟩
  · exact ⟨h.of_eq rfl rfl rfl, trivial⟩
  · exact nofun

theorem resStatus_safe (h : Base parser) (hfits : Fits parser) : (resStatus parser ch).Safe := by
  rw [resStatus]
  split_ifs
  · exact ⟨h.of_eq rfl rfl rfl, trivial⟩
  · exact ⟨h.of_eq rfl rfl rfl, trivial⟩
  · exact ⟨h, hfits⟩

theorem resStatusStart_safe (h : Base parser) : (resStatusStart parser ch).Safe := by
  rw [resStatusStart]
  split_ifs
  · rw [safe_after]
    exact resStatus_safe (h.of_eq rfl rfl rfl) trivial
  · exact ⟨h.of_eq rfl rfl rfl, trivial⟩

theorem resStatusCode_safe (h : Base parser) (hstate : parser.state = .resStatusCode) :
    (resStatusCode parser ch).Safe := by
  rw [resStatusCode]
  dsimp only
  split_ifs
  · exact ⟨h.of_eq rfl rfl rfl, trivial⟩
  · exact resStatusStart_safe (h.of_eq rfl rfl rfl)
  · exact nofun
  · exact nofun
  · refine ⟨h.of_eq rfl rfl rfl, ?_⟩
    rw [Fits]
    dsimp only
    rw [hstate]
    trivial

/-! ## The end of the headers -/

theorem messageDone_safe (h : Base parser) : (messageDone parser).Safe := by
  rw [messageDone]
  split_ifs
  · exact h.newMessage
  · exact h.newMessage

theorem headersDone_safe (h : Base parser) : (headersDone parser ch).Safe := by
  have hbase : Base { parser with nread := 0 } := h.restart _ _
  rw [headersDone]
  dsimp only
  split_ifs with hlf hupgrade hskip hchunked hencoding hlenient hzero hlength hneeds
  · exact nofun
  · exact hbase.newMessage
  · exact hbase.newMessage
  · exact ⟨h.restart _ _, rfl, hchunked⟩
  · exact nofun
  · exact ⟨h.restart _ _, trivial⟩
  · exact hbase.newMessage
  · exact ⟨h.restart _ _, hzero, h.content_length.lt_of_ne hlength⟩
  · exact hbase.newMessage
  · exact ⟨h.restart _ _, trivial⟩

theorem headersAlmostDone_safe (h : Base parser) : (headersAlmostDone parser ch).Safe := by
  rw [headersAlmostDone]
  split_ifs
  · exact nofun
  · rw [safe_after]
    exact messageDone_safe (h.of_eq rfl rfl rfl)
  · exact nofun
  · rw [safe_after]
    exact headersDone_safe (h.of_eq rfl rfl rfl)

/-! ## Header fields -/

theorem headerFieldStart_safe (h : Base parser) : (headerFieldStart parser ch).Safe := by
  rw [headerFieldStart]
  split_ifs
  · exact ⟨h.of_eq rfl rfl rfl, trivial⟩
  · exact headersAlmostDone_safe (h.of_eq rfl rfl rfl)
  · exact nofun
  · refine ⟨h.of_eq rfl rfl rfl, ?_⟩
    change nameState (firstHeaderState (token ch)) = true
    rw [firstHeaderState]
    split_ifs <;> rfl

theorem nameState_matchName {index : ℕ} {name : Bytes} {c : UInt8} {same done : HeaderState}
    (hsame : nameState same = true) (hdone : nameState done = true) :
    nameState (matchName index name c same done .general) = true := by
  rw [matchName]
  split_ifs
  · rfl
  · exact hdone
  · exact hsame

/-- A character of a name leaves the header states of a name, and nothing else. -/
theorem fieldChar_spec (hname : nameState parser.header_state = true) :
    ∃ index header_state uses_transfer_encoding, nameState header_state = true ∧
      fieldChar parser ch = some { parser with
        index := index
        header_state := header_state
        uses_transfer_encoding := uses_transfer_encoding } := by
  have hkept : ∃ index header_state uses_transfer_encoding, nameState header_state = true ∧
      some parser = some { parser with
        index := index
        header_state := header_state
        uses_transfer_encoding := uses_transfer_encoding } :=
    ⟨parser.index, parser.header_state, parser.uses_transfer_encoding, hname, rfl⟩
  unfold fieldChar
  dsimp only
  cases hstate : parser.header_state <;> rw [hstate] at hname <;> dsimp only
  case general => exact hkept
  case C | CO =>
    refine ⟨_, _, _, ?_, rfl⟩
    split_ifs <;> rfl
  case CON =>
    refine ⟨_, _, _, ?_, rfl⟩
    split_ifs <;> rfl
  case matchingConnection | matchingProxyConnection | matchingContentLength
      | matchingTransferEncoding | matchingUpgrade =>
    exact ⟨_, _, _, nameState_matchName hname rfl, rfl⟩
  case connection | contentLength | transferEncoding | upgrade =>
    split_ifs
    · exact ⟨parser.index, .general, parser.uses_transfer_encoding, rfl, rfl⟩
    · exact hkept
  all_goals cases hname

theorem fieldEnd_safe (h : Base parser) : (fieldEnd parser ch).Safe := by
  rw [fieldEnd]
  split_ifs
  · exact ⟨h.of_eq rfl rfl rfl, trivial⟩
  · exact nofun

/-! ## Header values -/

theorem digit_le (hnum : isNum ch = true) : ch.toNat - 48 ≤ 9 := by
  have hle : ch ≤ '9'.toUInt8 := by
    simp only [isNum, Bool.and_eq_true, decide_eq_true_eq] at hnum
    exact hnum.2
  have hle' : ch.toNat ≤ 57 := hle
  omega

theorem headerValueStart_safe (h : Base parser) : (headerValueStart parser ch).Safe := by
  have hkept : ∀ {header_state flags ops}, valueState header_state = true →
      (Turn.next { parser with
        state := .headerValue
        index := 0
        header_state := header_state
        flags := flags } ops).Safe :=
    fun hvalue => ⟨h.of_eq rfl rfl rfl, hvalue⟩
  rw [headerValueStart]
  dsimp only
  cases hstate : parser.header_state <;> dsimp only
  case contentLength =>
    split_ifs with hnum
    · exact nofun
    · exact nofun
    · have hdigit := @digit_le ch (by simpa using hnum)
      refine ⟨⟨h.http_errno, ?_, h.nread⟩, rfl⟩
      exact hdigit.trans (by decide)
  case transferEncoding | connection =>
    refine hkept ?_
    split_ifs <;> rfl
  case matchingTransferEncodingTokenStart | contentLengthWs | matchingConnectionTokenStart =>
    rw [← hstate]
    refine hkept ?_
    rw [hstate]
    rfl
  all_goals exact hkept rfl

/-- What a character of a value leaves, or the error that it is. -/
def ValueTurn.Safe : ValueTurn → Prop
  | .goOn parser h_state => Base parser ∧ parser.state = .headerValue ∧ valueState h_state = true
  | .fail _ e => e ≠ .ok
  | .abort => False

theorem valueState_matchName {index : ℕ} {name : Bytes} {c : UInt8}
    {same done other : HeaderState} (hsame : valueState same = true)
    (hdone : valueState done = true) (hother : valueState other = true) :
    valueState (matchName index name c same done other) = true := by
  rw [matchName]
  split_ifs
  · exact hother
  · exact hdone
  · exact hsame

theorem contentLengthNum_safe (h : Base parser) (hstate : parser.state = .headerValue) :
    (contentLengthNum parser ch).Safe := by
  rw [contentLengthNum]
  dsimp only
  split_ifs
  · exact ⟨h, hstate, rfl⟩
  · exact nofun
  · exact nofun
  · refine ⟨⟨h.http_errno, ?_, h.nread⟩, hstate, rfl⟩
    exact Nat.le_sub_one_of_lt (Nat.mod_lt _ (Nat.two_pow_pos 64))

theorem flag_spec (parser : HttpParser) (h_state : HeaderState) :
    ∃ flags, parser.flag h_state = { parser with flags := flags } := by
  cases h_state <;> exact ⟨_, rfl⟩

theorem valueChar_safe {h_state : HeaderState} (h : Base parser)
    (hstate : parser.state = .headerValue) (hvalue : valueState h_state = true) :
    (valueChar parser h_state ch).Safe := by
  have hkept : ∀ {index flags h_state}, valueState h_state = true →
      (ValueTurn.goOn { parser with index := index, flags := flags } h_state).Safe :=
    fun hvalue => ⟨h.of_eq rfl rfl rfl, hstate, hvalue⟩
  unfold valueChar
  dsimp only
  cases h_state <;> dsimp only
  case general => exact hkept rfl
  case connection | transferEncoding => cases hvalue
  case contentLength =>
    split_ifs
    · exact hkept rfl
    · exact contentLengthNum_safe h hstate
  case contentLengthNum => exact contentLengthNum_safe h hstate
  case contentLengthWs =>
    split_ifs
    · exact hkept rfl
    · exact nofun
  case matchingTransferEncodingTokenStart | matchingConnectionTokenStart
      | transferEncodingChunked =>
    refine hkept ?_
    split_ifs <;> rfl
  case matchingTransferEncodingChunked | matchingConnectionKeepAlive | matchingConnectionClose
      | matchingConnectionUpgrade =>
    exact hkept (valueState_matchName rfl rfl rfl)
  case matchingTransferEncodingToken | matchingConnectionToken =>
    split_ifs <;> exact hkept rfl
  case connectionKeepAlive | connectionClose | connectionUpgrade =>
    split_ifs <;> exact hkept rfl
  all_goals exact ⟨h.of_eq rfl rfl rfl, rfl, rfl⟩

theorem headerAlmostDone_safe (h : Base parser) : (headerAlmostDone parser ch).Safe := by
  rw [headerAlmostDone, lfExpected]
  split_ifs
  · exact nofun
  · exact ⟨h.of_eq rfl rfl rfl, trivial⟩

theorem headerValueDiscardWs_safe (h : Base parser) (hfits : Fits parser) :
    (headerValueDiscardWs parser ch).Safe := by
  rw [headerValueDiscardWs]
  split_ifs
  · exact ⟨h, hfits⟩
  · exact ⟨h.of_eq rfl rfl rfl, trivial⟩
  · exact ⟨h.of_eq rfl rfl rfl, trivial⟩
  · exact headerValueStart_safe h

theorem Base.flag (h : Base parser) (h_state : HeaderState) (s : State) :
    Base ((parser.flag h_state).enter s) := by
  obtain ⟨flags, hflag⟩ := flag_spec parser h_state
  rw [hflag]
  exact h.of_eq rfl rfl rfl

theorem headerValueLws_safe (h : Base parser) : (headerValueLws parser ch).Safe := by
  rw [headerValueLws]
  split_ifs
  · exact headerValueStart_safe (h.of_eq rfl rfl rfl)
  · exact headerValueStart_safe (h.of_eq rfl rfl rfl)
  · exact headerFieldStart_safe (h.flag _ _)

theorem headerValueDiscardLws_safe (h : Base parser) : (headerValueDiscardLws parser ch).Safe := by
  rw [headerValueDiscardLws]
  split_ifs
  · exact ⟨h.of_eq rfl rfl rfl, trivial⟩
  · exact nofun
  · rw [safe_after]
    exact headerFieldStart_safe (h.flag _ _)

/-! ## Chunks -/

theorem unhex_lt {v : ℕ} (h : unhex ch = some v) : v < 16 := by
  unfold unhex isNum at h
  split_ifs at h with hnum hupper hlower hhigh <;> obtain rfl := Option.some.inj h
  · simp only [Bool.and_eq_true, decide_eq_true_eq, UInt8.le_iff_toNat_le] at hnum
    have hle : ch.toNat ≤ 57 := hnum.2
    omega
  · simp only [Bool.and_eq_true, decide_eq_true_eq, UInt8.le_iff_toNat_le] at hupper
    have hle : ch.toNat ≤ 70 := hupper.2
    omega
  · simp only [Bool.and_eq_true, decide_eq_true_eq, UInt8.le_iff_toNat_le] at hlower
    have hle : ch.toNat ≤ 102 := hlower.2
    omega
  · decide

theorem chunkSizeStart_safe (h : Base parser) (hnread : parser.nread = 1)
    (hchunked : parser.flags.chunked = true) : (chunkSizeStart parser ch).Safe := by
  rw [chunkSizeStart, if_neg (by simp [hnread, hchunked])]
  cases hhex : unhex ch with
  | none => exact nofun
  | some v =>
      have hv := unhex_lt hhex
      have hlt : v < ullongMax := hv.trans (by decide)
      exact ⟨⟨h.http_errno, hlt.le, h.nread⟩, hlt, hchunked⟩

/-- The test in front of the multiplication leaves room for a digit. -/
theorem chunk_size_lt {n v : ℕ} (hn : ¬ (ullongMax - 16) / 16 < n) (hv : v < 16) :
    n * 16 + v < ullongMax := by
  have hmax : ullongMax = 18446744073709551615 := rfl
  omega

theorem chunkSize_safe (h : Base parser) (hstate : parser.state = .chunkSize)
    (hlength : parser.content_length < ullongMax) (hchunked : parser.flags.chunked = true) :
    (chunkSize parser ch).Safe := by
  rw [chunkSize, if_neg (by simp [hchunked])]
  by_cases hcr : ch = CR
  · rw [if_pos hcr]
    exact ⟨h.of_eq rfl rfl rfl, hlength, hchunked⟩
  · rw [if_neg hcr]
    cases hhex : unhex ch with
    | none =>
        dsimp only
        split_ifs
        · exact ⟨h.of_eq rfl rfl rfl, hlength, hchunked⟩
        · exact nofun
    | some v =>
        dsimp only
        split_ifs with hlarge
        · exact nofun
        · have hlt := chunk_size_lt hlarge (unhex_lt hhex)
          have hmod : (parser.content_length * 16 + v) % 2 ^ 64 =
              parser.content_length * 16 + v :=
            Nat.mod_eq_of_lt (hlt.trans (by decide))
          rw [hmod]
          refine ⟨⟨h.http_errno, hlt.le, h.nread⟩, ?_⟩
          rw [Fits]
          dsimp only
          rw [hstate]
          exact ⟨hlt, hchunked⟩

theorem chunkParameters_safe (h : Base parser) (hfits : Fits parser)
    (hlength : parser.content_length < ullongMax) (hchunked : parser.flags.chunked = true) :
    (chunkParameters parser ch).Safe := by
  rw [chunkParameters, if_neg (by simp [hchunked])]
  split_ifs
  · exact ⟨h.of_eq rfl rfl rfl, hlength, hchunked⟩
  · exact ⟨h, hfits⟩

theorem chunkSizeAlmostDone_safe (h : Base parser) (hlength : parser.content_length < ullongMax)
    (hchunked : parser.flags.chunked = true) : (chunkSizeAlmostDone parser ch).Safe := by
  rw [chunkSizeAlmostDone, if_neg (by simp [hchunked])]
  dsimp only
  split_ifs with hlf hzero
  · exact nofun
  · exact ⟨h.restart _ _, trivial⟩
  · exact ⟨h.restart _ _, hzero, hlength, hchunked⟩

theorem chunkDataAlmostDone_safe (h : Base parser) (hzero : parser.content_length = 0)
    (hchunked : parser.flags.chunked = true) : (chunkDataAlmostDone parser ch).Safe := by
  rw [chunkDataAlmostDone, if_neg (by simp [hchunked, hzero])]
  split_ifs
  · exact nofun
  · exact ⟨h.of_eq rfl rfl rfl, hchunked⟩

theorem chunkDataDone_safe (h : Base parser) (hchunked : parser.flags.chunked = true) :
    (chunkDataDone parser ch).Safe := by
  rw [chunkDataDone, if_neg (by simp [hchunked])]
  split_ifs
  · exact nofun
  · exact ⟨h.restart _ _, rfl, hchunked⟩

/-! ## All cases -/

/-- What the counting of a header byte leaves of `Fits`. -/
def Counted (parser : HttpParser) : Prop :=
  match parser.state with
  | .chunkSizeStart => parser.nread = 1 ∧ parser.flags.chunked = true
  | _ => Fits parser

theorem Counted.fits (h : Counted parser) (hne : parser.state ≠ .chunkSizeStart) : Fits parser := by
  rw [Counted] at h
  split at h
  · next hstate => exact absurd hstate hne
  · exact h

theorem oneByte_safe (h : Base parser) (hcounted : Counted parser) {turn : Turn}
    (hturn : oneByte parser ch = some turn) : turn.Safe := by
  have hfits := hcounted.fits
  unfold oneByte at hturn
  unfold Counted Fits at hcounted
  cases hstate : parser.state <;> rw [hstate] at hturn hcounted hfits <;>
    dsimp only at hturn hcounted
  case headerField | headerValue | chunkData | bodyIdentity | bodyIdentityEof => cases hturn
  all_goals obtain rfl := Option.some.inj hturn
  case startReqOrRes => exact startReqOrRes_safe h (hfits (by decide))
  case startReq => exact startReq_safe h (hfits (by decide))
  case resOrRespH => exact resOrRespH_safe h
  case reqMethod => exact reqMethod_safe h hstate hcounted
  case reqSpacesBeforeUrl => exact reqSpacesBeforeUrl_safe h (hfits (by decide))
  case reqSchema | reqSchemaSlash | reqSchemaSlashSlash | reqServerStart =>
    exact reqSchema_safe h
  case reqServer | reqServerWithAt | reqPath | reqQueryStringStart | reqQueryString
      | reqFragmentStart | reqFragment =>
    exact reqUrl_safe h
  case reqHttpStart => exact reqHttpStart_safe h (hfits (by decide))
  case resStatusCode => exact resStatusCode_safe h hstate
  case resStatusStart => exact resStatusStart_safe h
  case resStatus => exact resStatus_safe h (hfits (by decide))
  case headersAlmostDone => exact headersAlmostDone_safe h
  case headersDone => exact headersDone_safe h
  case headerFieldStart => exact headerFieldStart_safe h
  case headerValueDiscardWs => exact headerValueDiscardWs_safe h (hfits (by decide))
  case headerValueDiscardLws => exact headerValueDiscardLws_safe h
  case headerValueStart => exact headerValueStart_safe h
  case headerValueLws => exact headerValueLws_safe h
  case headerAlmostDone => exact headerAlmostDone_safe h
  case chunkSizeStart => exact chunkSizeStart_safe h hcounted.1 hcounted.2
  case chunkSize => exact chunkSize_safe h hstate hcounted.1 hcounted.2
  case chunkParameters => exact chunkParameters_safe h (hfits (by decide)) hcounted.1 hcounted.2
  case chunkSizeAlmostDone => exact chunkSizeAlmostDone_safe h hcounted.1 hcounted.2
  case chunkDataAlmostDone => exact chunkDataAlmostDone_safe h hcounted.1 hcounted.2
  case chunkDataDone => exact chunkDataDone_safe h hcounted
  case messageDone => exact messageDone_safe h
  case resH | resHT | resHTT | resHTTP | resLineAlmostDone | reqHttpH | reqHttpHT | reqHttpHTT
      | reqHttpI | reqHttpIC | reqHttpHTTP | headerValueDiscardWsAlmostDone =>
    exact strictCheck_safe h trivial
  case dead =>
    rw [deadState]
    split_ifs
    · exact ⟨h, hfits (by decide)⟩
    · exact nofun
  case startRes =>
    rw [startRes]
    dsimp only
    split_ifs
    · exact ⟨h, hfits (by decide)⟩
    · exact ⟨h.begin.of_eq rfl rfl rfl, trivial⟩
    · exact nofun
  case resHttpMajor | reqHttpMajor =>
    rw [httpMajor]
    split_ifs
    · exact nofun
    · exact ⟨h.of_eq rfl rfl rfl, trivial⟩
  case resHttpMinor | reqHttpMinor =>
    rw [httpMinor]
    split_ifs
    · exact nofun
    · exact ⟨h.of_eq rfl rfl rfl, trivial⟩
  case resHttpDot | reqHttpDot =>
    rw [httpDot]
    split_ifs
    · exact nofun
    · exact ⟨h.of_eq rfl rfl rfl, trivial⟩
  case resHttpEnd =>
    rw [resHttpEnd]
    split_ifs
    · exact nofun
    · exact ⟨h.of_eq rfl rfl rfl, trivial⟩
  case resFirstStatusCode =>
    rw [resFirstStatusCode]
    split_ifs
    · exact ⟨h, hfits (by decide)⟩
    · exact nofun
    · exact ⟨h.of_eq rfl rfl rfl, trivial⟩
  case reqHttpEnd =>
    rw [reqHttpEnd]
    split_ifs
    · exact ⟨h.of_eq rfl rfl rfl, trivial⟩
    · exact ⟨h.of_eq rfl rfl rfl, trivial⟩
    · exact nofun
  case reqLineAlmostDone =>
    rw [lfExpected]
    split_ifs
    · exact nofun
    · exact ⟨h.of_eq rfl rfl rfl, trivial⟩

theorem loopByte_safe (h : Base parser) (hfits : Fits parser) (hnone : oneByte parser ch = none) :
    (loopByte parser ch).Safe := by
  have hfits' := hfits
  unfold oneByte at hnone
  unfold Fits at hfits'
  unfold loopByte
  cases hstate : parser.state <;> rw [hstate] at hnone hfits' <;> dsimp only at hnone hfits' ⊢
  case headerField =>
    split_ifs
    · exact fieldEnd_safe h
    · obtain ⟨index, header_state, uses_transfer_encoding, hname, hchar⟩ :=
        @fieldChar_spec parser ch hfits'
      rw [hchar]
      refine ⟨h.of_eq rfl rfl rfl, ?_⟩
      rw [Fits]
      dsimp only
      rw [hstate]
      exact hname
  case headerValue =>
    split_ifs
    · exact ⟨h.of_eq rfl rfl rfl, trivial⟩
    · rw [safe_after]
      exact headerAlmostDone_safe (h.of_eq rfl rfl rfl)
    · exact nofun
    · have hsafe := @valueChar_safe parser ch _ h hstate hfits'
      cases hchar : valueChar parser parser.header_state ch with
      | goOn parser h_state =>
          rw [hchar] at hsafe
          refine ⟨hsafe.1.of_eq rfl rfl rfl, ?_⟩
          rw [Fits]
          dsimp only
          rw [hsafe.2.1]
          exact hsafe.2.2
      | fail parser e =>
          rw [hchar] at hsafe
          exact hsafe
      | abort =>
          rw [hchar] at hsafe
          exact hsafe
  case bodyIdentity =>
    rw [if_neg (by simp [hfits'.1, hfits'.2.ne])]
    have hbase : Base { parser with content_length := parser.content_length - 1 } :=
      ⟨h.http_errno, (Nat.sub_le _ _).trans h.content_length, h.nread⟩
    split_ifs with hzero
    · rw [safe_after]
      exact messageDone_safe (hbase.of_eq rfl rfl rfl)
    · exact ⟨hbase.of_eq rfl rfl rfl, hzero, (Nat.sub_le _ _).trans_lt hfits'.2⟩
  case chunkData =>
    rw [if_neg (by simp [hfits'.2.2]), if_neg (by simp [hfits'.1, hfits'.2.1.ne])]
    have hbase : Base { parser with content_length := parser.content_length - 1 } :=
      ⟨h.http_errno, (Nat.sub_le _ _).trans h.content_length, h.nread⟩
    split_ifs with hzero
    · exact ⟨hbase.of_eq rfl rfl rfl, hzero, hfits'.2.2⟩
    · exact ⟨hbase.of_eq rfl rfl rfl, hzero, (Nat.sub_le _ _).trans_lt hfits'.2.1, hfits'.2.2⟩
  case bodyIdentityEof => exact ⟨h, hfits⟩
  all_goals cases hnone

theorem single_safe (h : Base parser) (hcounted : Counted parser) : (single parser ch).Safe := by
  rw [single]
  cases hturn : oneByte parser ch with
  | some turn => exact oneByte_safe h hcounted hturn
  | none =>
      refine loopByte_safe h (hcounted.fits fun hstate => ?_) hturn
      rw [oneByte, hstate] at hturn
      cases hturn

theorem Base.count (h : Base parser) {v : ℕ} (hv : v < 2 ^ 31) :
    parser.count v = parser.withNread (parser.nread + v) := by
  have hle : parser.nread ≤ 80 * 1024 := h.nread
  rw [HttpParser.count, HttpParser.withNread, Nat.mod_eq_of_lt (by omega),
    Nat.mod_eq_of_lt (by omega)]

/-- In front of a body, a byte is counted and then looked at. -/
theorem Base.eat_header (h : Base parser) (hheader : parsingHeader parser.state = true)
    (ch : UInt8) :
    Parser.eat parser ch =
      if maxHeaderSize < parser.nread + 1 then
        .fail (parser.withNread (parser.nread + 1)) [] .headerOverflow
      else single (parser.withNread (parser.nread + 1)) ch := by
  rw [Parser.eat, if_pos hheader, h.count (by decide)]
  rfl

theorem Sound.counted (h : Sound parser) (hnread : (parser.count 1).nread ≤ maxHeaderSize) :
    Base (parser.count 1) ∧ Counted (parser.count 1) := by
  have hcount : (parser.count 1).nread = parser.nread + 1 := by
    rw [h.toBase.count (by decide)]
    rfl
  refine ⟨⟨h.http_errno, h.content_length, hnread⟩, ?_⟩
  have hfits := h.fits
  rw [Counted]
  split
  · next hstate =>
      have hstate' : parser.state = .chunkSizeStart := hstate
      rw [Fits, hstate'] at hfits
      exact ⟨by rw [hcount, hfits.1], hfits.2⟩
  · next hstate =>
      have hstate' : parser.state ≠ .chunkSizeStart := hstate
      unfold Fits at hfits ⊢
      dsimp only [HttpParser.count]
      split at hfits <;> simp_all

/-- Whatever the next byte is, a sound parser stays sound or reports an error. -/
theorem Sound.eat (h : Sound parser) (ch : UInt8) : (eat parser ch).Safe := by
  rw [Parser.eat]
  split_ifs with hheader hlarge
  · exact nofun
  · obtain ⟨hbase, hcounted⟩ := h.counted (not_lt.mp hlarge)
    exact single_safe hbase hcounted
  · refine single_safe h.toBase ?_
    have hfits := h.fits
    rw [Counted]
    split
    · next hstate => exact absurd (by rw [hstate]; rfl) hheader
    · exact hfits

end Cases

end LibConn.Parser
