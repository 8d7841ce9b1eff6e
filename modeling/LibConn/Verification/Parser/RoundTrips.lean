import LibConn.Verification.Parser.Messages

/-! # Round trips

Messages that were written one behind the other are read one after the other, in whatever segments
they arrive: what is called is what was written, up to the pieces. -/

namespace LibConn.Parser

open LibConn.Http

/-- Whether the connection lasts behind a message of this version that says nothing about it. -/
def Version.lasting (v : Version) : Bool :=
  '0'.toUInt8 < v.major && '0'.toUInt8 < v.minor

structure Request where
  method : HttpMethod
  target : Bytes
  version : Version
  entity : Entity
  ne_connect : method ≠ .connect
  targets : Targets method target

def Request.head (request : Request) : Bytes :=
  requestLineText request.method request.target request.version ++
    fieldLines request.entity.fields

def Request.text (request : Request) : Bytes :=
  request.head ++ ([CR, LF] ++ request.entity.content.text)

def Request.calls (request : Request) : List Call :=
  [.messageBegin, .url request.target] ++ request.entity.fields.flatMap fieldCalls ++
    .headersComplete :: request.entity.content.calls request.method

/-- A status for which there is a body behind the head. -/
def hasBody (code : ℕ) : Bool :=
  !(code / 100 = 1 || code = 204 || code = 304)

structure Response where
  version : Version
  code : ℕ
  digits : Bytes
  reason : Bytes
  entity : Entity
  decimal : decimal digits = some code
  code_le : code ≤ 999
  unbroken : ∀ b ∈ reason, b ≠ CR ∧ b ≠ LF
  framed : entity.content = .none → hasBody code = false

def Response.head (response : Response) : Bytes :=
  statusLineText response.version response.digits response.reason ++
    fieldLines response.entity.fields

def Response.text (response : Response) : Bytes :=
  response.head ++ ([CR, LF] ++ response.entity.content.text)

/-- The parser has no method for a response; it hands on what it began with. -/
def Response.calls (response : Response) (method : HttpMethod) : List Call :=
  [.messageBegin, .status response.reason response.code] ++
    response.entity.fields.flatMap fieldCalls ++
    .headersComplete :: response.entity.content.calls method

section RoundTrips

variable {parser last : HttpParser} {n : ℕ} {core : HttpParser} {v : Version}
  {method : HttpMethod} {content : Content} {code : ℕ}

/-! ## Single messages -/

theorem lasting_iff (v : Version) :
    v.lasting = (decide (0 < v.major.toNat - 48) && decide (0 < v.minor.toNat - 48)) := by
  have hpos : ∀ b : UInt8, decide ('0'.toUInt8 < b) = decide (0 < b.toNat - 48) := by
    intro b
    rw [decide_eq_decide, UInt8.lt_iff_toNat_lt]
    exact Nat.sub_pos_iff_lt.symm
  rw [Version.lasting, hpos, hpos]

theorem behind_needsEof (hfresh : Fresh core) (heof : content = .none → core.needsEof = false) :
    (content.behind core).needsEof = false := by
  cases content with
  | none => exact heof rfl
  | sized name digits body spaces =>
      have hcoding : core.uses_transfer_encoding = false := hfresh.uses_transfer_encoding
      have hzero : (0 : ℕ) ≠ ullongMax := by decide
      simp [HttpParser.needsEof, Content.behind, Content.frame, hcoding, hzero]
  | chunked name value body =>
      simp [HttpParser.needsEof, Content.behind, Content.frame, HttpParser.trailing]

theorem behind_keeps (hfresh : Fresh core) (content : Content) :
    (content.behind core).flags.connectionClose = false ∧
      (content.behind core).flags.connectionKeepAlive = false ∧
      (content.behind core).type = core.type ∧
      (content.behind core).http_major = core.http_major ∧
      (content.behind core).http_minor = core.http_minor ∧
      (content.behind core).method = core.method := by
  have hclose : core.flags.connectionClose = false := by rw [hfresh.flags]; rfl
  have hkeep : core.flags.connectionKeepAlive = false := by rw [hfresh.flags]; rfl
  cases content <;> exact ⟨hclose, hkeep, rfl, rfl, rfl, rfl⟩

theorem behind_newMessage (hfresh : Fresh core) (heof : content = .none → core.needsEof = false)
    (hmajor : core.http_major = v.major.toNat - 48)
    (hminor : core.http_minor = v.minor.toNat - 48) :
    (content.behind core).newMessage =
      if v.lasting then if core.type = .request then .startReq else .startRes else .dead := by
  obtain ⟨hclose, hkeep, htype, hmajor', hminor', -⟩ := behind_keeps hfresh content
  rw [HttpParser.newMessage, HttpParser.shouldKeepAlive, behind_needsEof hfresh heof, hclose, hkeep,
    htype, hmajor', hminor', hmajor, hminor, lasting_iff]
  cases decide (0 < v.major.toNat - 48) && decide (0 < v.minor.toNat - 48) <;> rfl

theorem request_leads (request : Request) (hstart : AtStart parser)
    (hn : n + request.head.length + 2 ≤ maxHeaderSize) :
    ∃ last, Leads (parser.withNread n) request.text request.calls last ∧
      last.nread = request.entity.content.carry ∧ last.type = .request ∧
      last.state = if request.version.lasting then .startReq else .dead := by
  obtain ⟨method, target, v, entity, hmethod, htarget⟩ := request
  have hfresh : Fresh (parser.requested method v).core := ⟨rfl, rfl, rfl⟩
  obtain ⟨last, hleads, hstate, hcore, hnread⟩ :=
    message_leads (requestLine_advances hstart htarget v) rfl (entity.takes hfresh) entity.nameable
      (entity.content.heads hfresh hmethod) (entity.content.bodied hfresh fun _ => rfl) hn
  refine ⟨last, hleads, hnread, ?_, hstate.trans (behind_newMessage hfresh (fun _ => rfl) rfl rfl)⟩
  exact (congrArg (fun p => p.type) hcore).trans (behind_keeps hfresh entity.content).2.2.1

theorem needsEof_of_status (hbody : hasBody code = false) (hcode : core.status_code = code) :
    core.needsEof = false := by
  rw [hasBody, Bool.not_eq_false'] at hbody
  rw [HttpParser.needsEof, hcode, hbody, Bool.true_or, if_pos rfl, ite_self]

theorem response_leads (response : Response) (hstart : AtReply parser)
    (hmethod : parser.method ≠ .connect)
    (hn : n + response.head.length + 2 ≤ maxHeaderSize) :
    ∃ last, Leads (parser.withNread n) response.text (response.calls parser.method) last ∧
      last.nread = response.entity.content.carry ∧ last.type = .response ∧
      last.method = parser.method ∧
      last.state = if response.version.lasting then .startRes else .dead := by
  obtain ⟨v, code, digits, reason, entity, hcode, hle, hreason, hframed⟩ := response
  have hfresh : Fresh (parser.answered v code).core := ⟨rfl, rfl, rfl⟩
  have heof : entity.content = .none → (parser.answered v code).core.needsEof = false :=
    fun h => needsEof_of_status (hframed h) rfl
  obtain ⟨last, hleads, hstate, hcore, hnread⟩ :=
    message_leads (statusLine_advances hstart v hcode hle hreason) rfl (entity.takes hfresh)
      entity.nameable (entity.content.heads hfresh hmethod) (entity.content.bodied hfresh heof) hn
  obtain ⟨-, -, htype, -, -, hsame⟩ := behind_keeps hfresh entity.content
  exact ⟨last, hleads, hnread, (congrArg (fun p => p.type) hcore).trans htype,
    (congrArg (fun p => p.method) hcore).trans hsame,
    hstate.trans (behind_newMessage hfresh heof rfl rfl)⟩

/-! ## Messages one behind the other -/

/-- Heads that fit behind what is counted already, each with the count behind its message. -/
def Roomy : ℕ → List (ℕ × ℕ) → Prop
  | _, [] => True
  | n, (size, carry) :: rest => n + size ≤ maxHeaderSize ∧ Roomy carry rest

theorem leads_flatMap {α : Type} {At : HttpParser → Prop} {text : α → Bytes}
    {calls : α → List Call} {size carry : α → ℕ} {messages : List α}
    (hcount : ∀ parser n, At parser → At (parser.withNread n))
    (hstep : ∀ message ∈ messages, ∀ parser n, At parser → n + size message ≤ maxHeaderSize →
      ∃ last, Leads (parser.withNread n) (text message) (calls message) last ∧
        last.nread = carry message ∧ At last)
    (hat : At parser)
    (hroom : Roomy n (messages.map fun message => (size message, carry message))) :
    ∃ last, Leads (parser.withNread n) (messages.flatMap text) (messages.flatMap calls) last ∧
      At last := by
  induction messages generalizing parser n with
  | nil => exact ⟨_, ⟨[], rfl, rfl⟩, hcount parser n hat⟩
  | cons message messages ih =>
      obtain ⟨hmessage, hmessages⟩ := List.forall_mem_cons.mp hstep
      obtain ⟨hfirst, hrest⟩ := hroom
      obtain ⟨next, hleads, hnread, hnext⟩ := hmessage parser n hat hfirst
      obtain ⟨last, hlater, hlast⟩ := ih hmessages hnext hrest
      rw [← hnread] at hlater
      exact ⟨last, hleads.append hlater, hlast⟩

/-- Requests on a connection that lasts, in whatever segments they arrive: the parser calls for
them what they say, and waits for the next one. -/
theorem requests_read {requests : List Request} {segments : List Bytes} (hstart : AtStart parser)
    (hsound : Sound parser) (hlasting : ∀ request ∈ requests, request.version.lasting = true)
    (hroom : Roomy parser.nread
      (requests.map fun request => (request.head.length + 2, request.entity.content.carry)))
    (hne : segments ≠ []) (hall : ∀ data ∈ segments, data ≠ [])
    (htext : segments.flatten = requests.flatMap Request.text)
    (hlength : segments.flatten.length < 2 ^ 31) :
    ∃ calls last, Feeds parser segments calls segments.flatten.length last ∧
      joined calls = joined (requests.flatMap Request.calls) ∧ AtStart last ∧ Sound last := by
  have hstep : ∀ request ∈ requests, ∀ parser n, AtStart parser →
      n + (request.head.length + 2) ≤ maxHeaderSize →
      ∃ last, Leads (parser.withNread n) request.text request.calls last ∧
        last.nread = request.entity.content.carry ∧ AtStart last := by
    intro request hrequest parser n hat hn
    obtain ⟨last, hleads, hnread, htype, hstate⟩ := request_leads request hat hn
    rw [hlasting request hrequest, if_pos rfl] at hstate
    exact ⟨last, hleads, hnread, .inl ⟨hstate, htype⟩⟩
  obtain ⟨last, hleads, hlast⟩ := leads_flatMap (fun _ _ h => h) hstep hstart hroom
  have hself : parser.withNread parser.nread = parser := rfl
  rw [hself, ← htext] at hleads
  obtain ⟨calls, hfeeds, hcalls, hsound'⟩ := hleads.feeds hsound hne hall rfl hlength
  exact ⟨calls, last, hfeeds, hcalls, hlast, hsound'⟩

/-- The body of the samples. -/
def sampleContent : Content :=
  .sized (ascii "Content-Length") (ascii "5") (ascii "hello") 0 (by decide) (by decide) (by decide)

def sampleRequest : Request where
  method := .put
  target := ascii "/a?b"
  version := .oneOne
  entity := { before := [], content := sampleContent, after := [], plain := List.forall_mem_nil _ }
  ne_connect := by decide
  targets := targets_slash (by decide) (by decide)

theorem requests_read_twice :
    ∃ calls last,
      Feeds (.init .both) [sampleRequest.text, sampleRequest.text] calls
        [sampleRequest.text, sampleRequest.text].flatten.length last ∧
      joined calls = joined ([sampleRequest, sampleRequest].flatMap Request.calls) ∧
      AtStart last ∧ Sound last :=
  requests_read (.inr rfl) (sound_init .both) (by decide) ⟨by decide, by decide, trivial⟩
    (by decide) (by decide) rfl (by decide)

/-- Responses on a connection that lasts, in whatever segments they arrive. -/
theorem responses_read {responses : List Response} {segments : List Bytes}
    (hstart : AtReply parser) (hmethod : parser.method ≠ .connect) (hsound : Sound parser)
    (hlasting : ∀ response ∈ responses, response.version.lasting = true)
    (hroom : Roomy parser.nread
      (responses.map fun response => (response.head.length + 2, response.entity.content.carry)))
    (hne : segments ≠ []) (hall : ∀ data ∈ segments, data ≠ [])
    (htext : segments.flatten = responses.flatMap Response.text)
    (hlength : segments.flatten.length < 2 ^ 31) :
    ∃ calls last, Feeds parser segments calls segments.flatten.length last ∧
      joined calls = joined (responses.flatMap fun response => response.calls parser.method) ∧
      AtReply last ∧ Sound last := by
  let At (p : HttpParser) : Prop := AtReply p ∧ p.method = parser.method
  have hstep : ∀ response ∈ responses, ∀ next n, At next →
      n + (response.head.length + 2) ≤ maxHeaderSize →
      ∃ last, Leads (next.withNread n) response.text (response.calls parser.method) last ∧
        last.nread = response.entity.content.carry ∧ At last := by
    intro response hresponse next n hat hn
    obtain ⟨last, hleads, hnread, htype, hsame, hstate⟩ :=
      response_leads response hat.1 (by rw [hat.2]; exact hmethod) hn
    rw [hlasting response hresponse, if_pos rfl] at hstate
    rw [hat.2] at hleads hsame
    exact ⟨last, hleads, hnread, .inl ⟨hstate, htype⟩, hsame⟩
  have hat : At parser := ⟨hstart, rfl⟩
  obtain ⟨last, hleads, hlast⟩ := leads_flatMap (fun _ _ h => h) hstep hat hroom
  have hself : parser.withNread parser.nread = parser := rfl
  rw [hself, ← htext] at hleads
  obtain ⟨calls, hfeeds, hcalls, hsound'⟩ := hleads.feeds hsound hne hall rfl hlength
  exact ⟨calls, last, hfeeds, hcalls, hlast.1, hsound'⟩

def sampleResponse : Response where
  version := .oneOne
  code := 404
  digits := ascii "404"
  reason := ascii "Not Found"
  entity := { before := [], content := sampleContent, after := [], plain := List.forall_mem_nil _ }
  decimal := by decide
  code_le := by decide
  unbroken := forall_mem_of_all (by decide)
  framed := by intro h; cases h

theorem responses_read_twice :
    ∃ calls last,
      Feeds (.init .both) [sampleResponse.text, sampleResponse.text] calls
        [sampleResponse.text, sampleResponse.text].flatten.length last ∧
      joined calls =
        joined ([sampleResponse, sampleResponse].flatMap fun response => response.calls .delete) ∧
      AtReply last ∧ Sound last :=
  responses_read (.inr rfl) (by decide) (sound_init .both) (by decide)
    ⟨by decide, by decide, trivial⟩ (by decide) (by decide) rfl (by decide)

end RoundTrips

end LibConn.Parser
