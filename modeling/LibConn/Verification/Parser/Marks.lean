import LibConn.Verification.Parser.Loops

/-! # Marks

At most one of the five marks is set at any time, which one the state tells. The cases of the
switch keep to that. -/

namespace LibConn.Parser

open LibConn.Http

/-- What is marked between two bytes. -/
inductive Marking where
  | clear
  | inside (f : Field)
  /-- The body may be marked; it is not where the data begins. -/
  | body
  deriving DecidableEq, Repr

def marking (s : State) : Marking :=
  match markOf s with
  | some f => .inside f
  | none => if inBody s || s = .chunkDataAlmostDone then .body else .clear

/-- What a macro leaves marked; `none` where it is not used. -/
def track : Marking → Op → Option Marking
  | .clear, .mark f => some (.inside f)
  | .clear, .notify _ => some .clear
  | .inside f, .data g => if f = g then some .clear else none
  | .inside .body, .bodyHere => some .clear
  | .body, .mark .body => some (.inside .body)
  | .body, .data .body => some .clear
  | _, _ => none

/-- What is marked behind a byte is what the next state says. -/
def settles : Marking → Marking → Bool
  | .clear, .clear | .clear, .body | .inside .body, .body => true
  | .inside f, .inside g => f = g
  | _, _ => false

/-- The macros of a case fit what is marked in front of it, and only an upgrade leaves the loop. -/
def Turn.Coherent (m : Marking) : Turn → Prop
  | .next parser ops =>
      ∃ m', ops.foldlM track m = some m' ∧ settles m' (marking parser.state) = true
  | .leave parser ops => ops.foldlM track m = some .clear ∧ parser.upgrade = true
  | .fail _ _ _ | .abort => True

section Cases

variable {parser : HttpParser} {ch : UInt8} {m m' : Marking}

theorem coherent_after {turn : Turn} {ops : List Op} (hops : ops.foldlM track m = some m')
    (h : turn.Coherent m') : (turn.after ops).Coherent m := by
  cases turn with
  | next parser more =>
      obtain ⟨last, hmore, hsettles⟩ := h
      refine ⟨last, ?_, hsettles⟩
      rw [List.foldlM_append, hops]
      exact hmore
  | leave parser more =>
      refine ⟨?_, h.2⟩
      rw [List.foldlM_append, hops]
      exact h.1
  | fail | abort => trivial

/-- A state that is kept. -/
theorem coherent_stay {s : State} (hstate : parser.state = s)
    (h : settles (marking s) (marking s) = true) : (Turn.next parser []).Coherent (marking s) :=
  ⟨marking s, rfl, by rwa [hstate]⟩

theorem marking_newMessage (parser : HttpParser) : marking parser.newMessage = .clear := by
  rcases newMessage_cases parser with h | h | h <;> rw [h] <;> rfl

theorem strictCheck_coherent {expected : UInt8} {s : State} (h : settles m (marking s) = true) :
    (strictCheck parser ch expected s).Coherent m := by
  rw [strictCheck]
  split_ifs
  · trivial
  · exact ⟨m, rfl, h⟩

theorem startReq_coherent (hstate : marking parser.state = .clear) :
    (startReq parser ch).Coherent .clear := by
  rw [startReq]
  split_ifs
  · exact ⟨.clear, rfl, by rw [hstate]; rfl⟩
  · trivial
  · cases firstMethod ch with
    | none => trivial
    | some method => exact ⟨_, rfl, rfl⟩

theorem marking_url {s : State} (h : markOf s = some .url) : marking s = .inside .url := by
  simp only [marking, h]

theorem urlChar_coherent {ops : List Op} (hops : ops.foldlM track m = some (.inside .url)) :
    (urlChar parser ch ops).Coherent m := by
  rw [urlChar]
  split_ifs with hdead
  · trivial
  · refine ⟨_, hops, ?_⟩
    have hurl := marking_url ((parseUrlChar_cases parser.state ch).resolve_left hdead)
    change settles _ (marking (parseUrlChar parser.state ch)) = true
    rw [hurl]
    rfl

theorem reqSpacesBeforeUrl_coherent (hstate : parser.state = .reqSpacesBeforeUrl) :
    (reqSpacesBeforeUrl parser ch).Coherent .clear := by
  rw [reqSpacesBeforeUrl]
  split_ifs
  · exact coherent_stay hstate rfl
  · exact urlChar_coherent rfl
  · exact urlChar_coherent rfl

theorem reqSchema_coherent : (reqSchema parser ch).Coherent (.inside .url) := by
  rw [reqSchema]
  split_ifs
  · trivial
  · exact urlChar_coherent rfl

theorem reqUrl_coherent : (reqUrl parser ch).Coherent (.inside .url) := by
  rw [reqUrl]
  split_ifs
  · exact ⟨_, rfl, rfl⟩
  · exact ⟨_, rfl, rfl⟩
  · exact ⟨_, rfl, rfl⟩
  · exact urlChar_coherent rfl

theorem resStatus_coherent (hstate : parser.state = .resStatus) :
    (resStatus parser ch).Coherent (.inside .status) := by
  rw [resStatus]
  split_ifs
  · exact ⟨_, rfl, rfl⟩
  · exact ⟨_, rfl, rfl⟩
  · exact coherent_stay hstate rfl

theorem resStatusStart_coherent : (resStatusStart parser ch).Coherent .clear := by
  rw [resStatusStart]
  split_ifs
  · exact coherent_after rfl (resStatus_coherent rfl)
  · exact ⟨_, rfl, rfl⟩

theorem resStatusCode_coherent (hstate : parser.state = .resStatusCode) :
    (resStatusCode parser ch).Coherent .clear := by
  rw [resStatusCode]
  dsimp only
  split_ifs
  · exact ⟨_, rfl, rfl⟩
  · exact resStatusStart_coherent
  · trivial
  · trivial
  · exact coherent_stay hstate rfl

theorem messageDone_coherent : (messageDone parser).Coherent .clear := by
  rw [messageDone]
  split_ifs with hupgrade
  · exact ⟨rfl, hupgrade⟩
  · exact ⟨_, rfl, by rw [HttpParser.enter, marking_newMessage]; rfl⟩

theorem headersDone_coherent : (headersDone parser ch).Coherent .clear := by
  rw [headersDone]
  dsimp only
  split_ifs with hlf hupgrade
  · trivial
  · simp only [Bool.and_eq_true] at hupgrade
    exact ⟨rfl, hupgrade.1⟩
  all_goals
    first
    | trivial
    | exact ⟨_, rfl, rfl⟩
    | exact ⟨_, rfl, by rw [HttpParser.enter, marking_newMessage]; rfl⟩

theorem headersAlmostDone_coherent : (headersAlmostDone parser ch).Coherent .clear := by
  rw [headersAlmostDone]
  split_ifs
  · trivial
  · exact coherent_after rfl messageDone_coherent
  · trivial
  · exact coherent_after rfl headersDone_coherent

theorem headerFieldStart_coherent : (headerFieldStart parser ch).Coherent .clear := by
  rw [headerFieldStart]
  split_ifs
  · exact ⟨_, rfl, rfl⟩
  · exact headersAlmostDone_coherent
  · trivial
  · exact ⟨_, rfl, rfl⟩

theorem headerValueStart_coherent : (headerValueStart parser ch).Coherent .clear := by
  rw [headerValueStart]
  dsimp only
  cases parser.header_state <;> dsimp only <;> (try split_ifs) <;>
    first | trivial | exact ⟨_, rfl, rfl⟩

theorem headerAlmostDone_coherent : (headerAlmostDone parser ch).Coherent .clear := by
  rw [headerAlmostDone, lfExpected]
  split_ifs
  · trivial
  · exact ⟨_, rfl, rfl⟩

theorem reqMethod_coherent (hstate : parser.state = .reqMethod) :
    (reqMethod parser ch).Coherent .clear := by
  have hkept : ∀ (method : HttpMethod) (index : ℕ),
      (Turn.next { parser with method := method, index := index } []).Coherent .clear :=
    fun method index => ⟨.clear, rfl, by dsimp only; rw [hstate]; rfl⟩
  rw [reqMethod]
  by_cases hzero : ch = 0
  · rw [if_pos hzero]
    trivial
  rw [if_neg hzero]
  cases (methodStrings parser.method ++ [0])[parser.index]? with
  | none => trivial
  | some expected =>
      dsimp only
      cases otherMethod parser.method parser.index ch with
      | none =>
          dsimp only
          split_ifs <;> first | trivial | exact ⟨_, rfl, rfl⟩ | exact hkept _ _
      | some method =>
          dsimp only
          split_ifs <;> first | trivial | exact ⟨_, rfl, rfl⟩ | exact hkept _ _

theorem chunkSize_coherent (hstate : parser.state = .chunkSize) :
    (chunkSize parser ch).Coherent .clear := by
  rw [chunkSize]
  cases unhex ch with
  | none =>
      dsimp only
      split_ifs <;> first | trivial | exact ⟨_, rfl, rfl⟩
  | some v =>
      dsimp only
      split_ifs <;>
        first | trivial | exact ⟨_, rfl, rfl⟩ | exact ⟨_, rfl, by dsimp only; rw [hstate]; rfl⟩

theorem oneByte_coherent {turn : Turn} (hturn : oneByte parser ch = some turn) :
    turn.Coherent (marking parser.state) := by
  unfold oneByte at hturn
  cases hstate : parser.state <;> rw [hstate] at hturn <;> dsimp only at hturn
  case headerField | headerValue | chunkData | bodyIdentity | bodyIdentityEof => cases hturn
  all_goals obtain rfl := Option.some.inj hturn
  case startReqOrRes =>
    rw [startReqOrRes]
    split_ifs
    · exact coherent_stay hstate rfl
    · exact ⟨_, rfl, rfl⟩
    · exact startReq_coherent rfl
  case startReq => exact startReq_coherent (by rw [hstate]; rfl)
  case reqSpacesBeforeUrl => exact reqSpacesBeforeUrl_coherent hstate
  case reqSchema | reqSchemaSlash | reqSchemaSlashSlash | reqServerStart =>
    exact reqSchema_coherent
  case reqServer | reqServerWithAt | reqPath | reqQueryStringStart | reqQueryString
      | reqFragmentStart | reqFragment =>
    exact reqUrl_coherent
  case resStatusCode => exact resStatusCode_coherent hstate
  case resStatusStart => exact resStatusStart_coherent
  case resStatus => exact resStatus_coherent hstate
  case headersAlmostDone => exact headersAlmostDone_coherent
  case headersDone => exact headersDone_coherent
  case headerFieldStart => exact headerFieldStart_coherent
  case headerValueStart => exact headerValueStart_coherent
  case headerAlmostDone => exact headerAlmostDone_coherent
  case messageDone => exact messageDone_coherent
  case resH | resHT | resHTT | resHTTP | resLineAlmostDone | reqHttpH | reqHttpHT | reqHttpHTT
      | reqHttpI | reqHttpIC | reqHttpHTTP | headerValueDiscardWsAlmostDone =>
    exact strictCheck_coherent rfl
  case headerValueDiscardWs =>
    rw [headerValueDiscardWs]
    split_ifs
    · exact coherent_stay hstate rfl
    · exact ⟨_, rfl, rfl⟩
    · exact ⟨_, rfl, rfl⟩
    · exact headerValueStart_coherent
  case headerValueDiscardLws =>
    rw [headerValueDiscardLws]
    split_ifs
    · exact ⟨_, rfl, rfl⟩
    · trivial
    · exact coherent_after rfl headerFieldStart_coherent
  case headerValueLws =>
    rw [headerValueLws]
    split_ifs
    · exact headerValueStart_coherent
    · exact headerValueStart_coherent
    · exact headerFieldStart_coherent
  case reqMethod => exact reqMethod_coherent hstate
  case dead =>
    rw [deadState]
    split_ifs
    · exact coherent_stay hstate rfl
    · trivial
  case startRes =>
    rw [startRes]
    dsimp only
    split_ifs
    · exact coherent_stay hstate rfl
    · exact ⟨_, rfl, rfl⟩
    · trivial
  case reqHttpStart =>
    rw [reqHttpStart]
    split_ifs
    · exact coherent_stay hstate rfl
    · exact ⟨_, rfl, rfl⟩
    · exact ⟨_, rfl, rfl⟩
    · trivial
  case resFirstStatusCode =>
    rw [resFirstStatusCode]
    split_ifs
    · exact coherent_stay hstate rfl
    · trivial
    · exact ⟨_, rfl, rfl⟩
  case chunkSizeStart =>
    rw [chunkSizeStart]
    split_ifs
    · trivial
    · cases unhex ch with
      | none => trivial
      | some v => exact ⟨_, rfl, rfl⟩
  case chunkSize => exact chunkSize_coherent hstate
  case chunkParameters =>
    rw [chunkParameters]
    split_ifs
    · trivial
    · exact ⟨_, rfl, rfl⟩
    · exact coherent_stay hstate rfl
  case chunkSizeAlmostDone =>
    rw [chunkSizeAlmostDone]
    dsimp only
    split_ifs <;> first | trivial | exact ⟨_, rfl, rfl⟩
  case chunkDataAlmostDone =>
    rw [chunkDataAlmostDone]
    split_ifs <;> first | trivial | exact ⟨_, rfl, rfl⟩
  case chunkDataDone =>
    rw [chunkDataDone]
    split_ifs <;> first | trivial | exact ⟨_, rfl, rfl⟩
  case resOrRespH =>
    rw [resOrRespH]
    split_ifs <;> first | trivial | exact ⟨_, rfl, rfl⟩
  case resHttpMajor | reqHttpMajor =>
    rw [httpMajor]
    split_ifs <;> first | trivial | exact ⟨_, rfl, rfl⟩
  case resHttpMinor | reqHttpMinor =>
    rw [httpMinor]
    split_ifs <;> first | trivial | exact ⟨_, rfl, rfl⟩
  case resHttpDot | reqHttpDot =>
    rw [httpDot]
    split_ifs <;> first | trivial | exact ⟨_, rfl, rfl⟩
  case resHttpEnd =>
    rw [resHttpEnd]
    split_ifs <;> first | trivial | exact ⟨_, rfl, rfl⟩
  case reqHttpEnd =>
    rw [reqHttpEnd]
    split_ifs <;> first | trivial | exact ⟨_, rfl, rfl⟩
  case reqLineAlmostDone =>
    rw [lfExpected]
    split_ifs <;> first | trivial | exact ⟨_, rfl, rfl⟩

theorem fieldEnd_coherent : (fieldEnd parser ch).Coherent (.inside .headerField) := by
  rw [fieldEnd]
  split_ifs
  · exact ⟨_, rfl, rfl⟩
  · trivial

theorem loopByte_coherent (hnone : oneByte parser ch = none) :
    (loopByte parser ch).Coherent (marking parser.state) := by
  rw [loopByte]
  rcases oneByte_eq_none hnone with hstate | hstate | hstate | hstate | hstate <;> rw [hstate] <;>
    dsimp only
  · split_ifs
    · exact fieldEnd_coherent
    · cases hchar : fieldChar parser ch with
      | none => trivial
      | some next => exact coherent_stay ((fieldChar_state hchar).trans hstate) rfl
  · split_ifs
    · exact ⟨_, rfl, rfl⟩
    · exact coherent_after rfl headerAlmostDone_coherent
    · trivial
    · cases hchar : valueChar parser parser.header_state ch with
      | goOn next h_state => exact coherent_stay (valueChar_kept hstate hchar).1 rfl
      | fail | abort => trivial
  · split_ifs <;> first | trivial | exact ⟨_, rfl, rfl⟩
  · split_ifs
    · trivial
    · exact coherent_after rfl messageDone_coherent
    · exact ⟨_, rfl, rfl⟩
  · exact ⟨_, rfl, by rw [hstate]; rfl⟩

theorem eat_coherent (parser : HttpParser) (ch : UInt8) :
    (eat parser ch).Coherent (marking parser.state) := by
  have hsingle : ∀ parser, (single parser ch).Coherent (marking parser.state) := by
    intro parser
    rw [single]
    cases hturn : oneByte parser ch with
    | none => exact loopByte_coherent hturn
    | some turn => exact oneByte_coherent hturn
  rw [eat]
  split_ifs
  · trivial
  · exact hsingle (parser.count 1)
  · exact hsingle parser

end Cases

end LibConn.Parser
