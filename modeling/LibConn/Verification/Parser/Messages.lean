import LibConn.Verification.Parser.Chunks
import LibConn.Verification.Parser.FirstLines

/-! # Messages

A first line, fields, an empty line and a body: what the parser calls for them is what they say,
and behind them it stands where the next message begins. -/

namespace LibConn.Parser

open LibConn.Http

/-- The body that belongs to a head, by what the fields have left in the parser: the calls for it,
the count behind it, and the parser behind it. -/
inductive Bodied (core : HttpParser) : Bytes → List Call → ℕ → HttpParser → Prop where
  | none (hchunked : core.flags.chunked = false) (hcoding : core.uses_transfer_encoding = false)
      (hlength : core.content_length = 0 ∨
        core.content_length = ullongMax ∧ core.needsEof = false) :
      Bodied core [] [.messageComplete core.method] 0 { core with upgrade := false }
  | sized {body : Bytes} (hchunked : core.flags.chunked = false)
      (hcoding : core.uses_transfer_encoding = false) (hne : body ≠ [])
      (hlength : core.content_length = body.length) (hlt : body.length < ullongMax) :
      Bodied core body [.body body, .messageComplete core.method] 0
        { core with upgrade := false, content_length := 0 }
  | chunked {core' : HttpParser} (hchunked : core.flags.chunked = true) (body : Chunked)
      (htrailers : TakesAll { core with upgrade := false }.trailing body.trailers core')
      (hkeeps : core'.flags.trailing = true ∧ core'.upgrade = false) :
      Bodied core body.text (body.calls core'.method) ((fieldLines body.trailers).length + 2) core'

/-- A head behind which a body is read, and not another protocol. -/
structure Heads (core : HttpParser) : Prop where
  trailing : core.flags.trailing = false
  skipbody : core.flags.skipbody = false
  clashes : core.clashes = false
  asksUpgrade : core.asksUpgrade = false

section Messages

variable {parser line start last : HttpParser} {first body text : Bytes}
  {calls pending : List Call} {fields : List (Bytes × Bytes)} {core core' end' : HttpParser}
  {carry n : ℕ}

/-- The parser behind the empty line of a message that is no upgrade. -/
def HttpParser.opened (line : HttpParser) (s : State) : HttpParser :=
  { line with state := s, upgrade := false, nread := 0 }

theorem headersDone_eq (hheads : Heads line.core) :
    headersDone line.headed LF =
      if line.flags.chunked then .next (line.opened .chunkSizeStart) []
      else if line.uses_transfer_encoding then
        if line.type = .request && !line.lenient_http_headers then
          .fail (line.opened .headersDone) [] .invalidTransferEncoding
        else .next (line.opened .bodyIdentityEof) []
      else if line.content_length = 0 then
        .next (line.opened line.newMessage) [.notify .messageComplete]
      else if line.content_length ≠ ullongMax then .next (line.opened .bodyIdentity) []
      else if !line.needsEof then
        .next (line.opened line.newMessage) [.notify .messageComplete]
      else .next (line.opened .bodyIdentityEof) [] := by
  have hasks : line.asksUpgrade = false := hheads.asksUpgrade
  have hskip : line.flags.skipbody = false := hheads.skipbody
  rw [headersDone, if_neg (by decide), HttpParser.headed, hasks]
  dsimp only
  rw [Bool.false_and, if_neg Bool.false_ne_true, if_neg (by rw [hskip]; exact Bool.false_ne_true)]
  rfl

theorem body_leads (hready : Ready parser pending line) (hcore : line.core = core)
    (hheads : Heads core) (hbody : Bodied core body calls carry end')
    (hn : n + 2 ≤ maxHeaderSize) :
    ∃ last, Leads (parser.withNread n) ([CR, LF] ++ body)
        (pending ++ .headersComplete :: calls) last ∧
      last.state = end'.newMessage ∧ last.core = end' ∧ last.nread = carry := by
  subst hcore
  have hdone := headersDone_eq hheads
  have hhead : ∀ {next ops}, headersDone line.headed LF = .next next ops →
      Leads (parser.withNread n) [CR, LF]
        (pending ++ .headersComplete :: byteCalls .headersAlmostDone LF next ops) next :=
    fun hturn => head_leads hready hheads.trailing hheads.clashes hturn hn
  cases hbody with
  | none hchunked hcoding hlength =>
      have hchunked' : ¬ line.flags.chunked = true := by
        rw [Bool.not_eq_true]
        exact hchunked
      have hcoding' : ¬ line.uses_transfer_encoding = true := by
        rw [Bool.not_eq_true]
        exact hcoding
      rw [if_neg hchunked', if_neg hcoding'] at hdone
      have hturn : headersDone line.headed LF =
          .next (line.opened line.newMessage) [.notify .messageComplete] := by
        rcases hlength with hzero | ⟨hmax, heof⟩
        · rw [hdone, if_pos (by exact hzero)]
        · have hmax' : line.content_length = ullongMax := hmax
          have heof' : line.needsEof = false := heof
          rw [hdone, hmax', if_neg (by decide), if_neg (not_not.mpr rfl), heof']
          rfl
      have hleads := hhead hturn
      rw [byteCalls_notify LF _ _ rfl, byteCalls_outside LF _ rfl] at hleads
      exact ⟨_, hleads, rfl, rfl, rfl⟩
  | sized hchunked hcoding hne hlength hlt =>
      have hchunked' : ¬ line.flags.chunked = true := by
        rw [Bool.not_eq_true]
        exact hchunked
      have hcoding' : ¬ line.uses_transfer_encoding = true := by
        rw [Bool.not_eq_true]
        exact hcoding
      have hlength' : line.content_length = body.length := hlength
      have hpos := List.length_pos_of_ne_nil hne
      rw [if_neg hchunked', if_neg hcoding', if_neg (by omega), if_pos (by omega)] at hdone
      have hleads := hhead hdone
      rw [byteCalls_outside LF _ rfl] at hleads
      have hbody := @identity_leads (line.opened .bodyIdentity) body rfl hne hlength' hlt rfl
      refine ⟨behindIdentity (line.opened .bodyIdentity), ?_, rfl, rfl, rfl⟩
      have hboth := hleads.append hbody
      rw [List.append_assoc] at hboth
      exact hboth
  | chunked hchunked body htrailers hkeeps =>
      have hchunked' : line.flags.chunked = true := hchunked
      rw [if_pos hchunked'] at hdone
      have hleads := hhead hdone
      rw [byteCalls_outside LF _ rfl] at hleads
      obtain ⟨last, hbody, hstate, hcore, hnread⟩ :=
        @chunked_leads (line.opened .chunkSizeStart) end' rfl hchunked' body htrailers hkeeps
      have hboth := hleads.append hbody
      rw [List.append_assoc] at hboth
      exact ⟨last, hboth, hstate, hcore, hnread⟩

/-- A message, from its first line to the next message. -/
theorem message_leads (hfirst : Advances parser first calls start)
    (hstart : start.state = .headerFieldStart) (hfields : TakesAll start.core fields core)
    (hnames : ∀ field ∈ fields, Nameable field.1) (hheads : Heads core) {calls' : List Call}
    (hbody : Bodied core body calls' carry end')
    (hn : n + (first ++ fieldLines fields).length + 2 ≤ maxHeaderSize) :
    ∃ last, Leads (parser.withNread n) (first ++ fieldLines fields ++ ([CR, LF] ++ body))
        (calls ++ fields.flatMap fieldCalls ++ .headersComplete :: calls') last ∧
      last.state = end'.newMessage ∧ last.core = end' ∧ last.nread = carry := by
  obtain ⟨before, middle, pending, line, hadvances, hready, hcalls, hline⟩ :=
    hfields.advances hnames (.first hstart) rfl
  obtain ⟨last, hends, hlast⟩ := body_leads hready hline hheads hbody hn
  have hhead := (hfirst.append hadvances) n (by omega)
  refine ⟨last, (hhead.append hends).congr (congrArg joined ?_), hlast⟩
  rw [List.append_assoc, ← List.append_assoc before, hcalls, List.nil_append, List.append_assoc]

end Messages

/-! ## What is behind the first line -/

/-- How the length of a body is said, and the body. -/
inductive Content where
  | none
  | sized (name digits body : Bytes) (spaces : ℕ)
      (hname : name.map token = ascii "content-length") (hnumber : decimal digits = some body.length)
      (hle : body.length ≤ lengthMax)
  | chunked (name value : Bytes) (body : Chunked) (hname : name.map token = transferEncoding)
      (hvalue : value.map lower = ascii "chunked") (hinside : ∀ b ∈ value, insideValue b = true)
      (htrailers : ∀ field ∈ body.trailers, Plain field)

def Content.fields : Content → List (Bytes × Bytes)
  | .none => []
  | .sized name digits _ spaces .. => [(name, digits ++ List.replicate spaces ' '.toUInt8)]
  | .chunked name value .. => [(name, value)]

def Content.text : Content → Bytes
  | .none => []
  | .sized _ _ body .. => body
  | .chunked _ _ body .. => body.text

/-- The calls for a body and for the end of the message. -/
def Content.calls (method : HttpMethod) : Content → List Call
  | .none => [.messageComplete method]
  | .sized _ _ body .. =>
      (if body = [] then [] else [.body body]) ++ [.messageComplete method]
  | .chunked _ _ body .. => body.calls method

/-- What is counted of the next message already: nobody resets the count behind trailers. -/
def Content.carry : Content → ℕ
  | .none | .sized .. => 0
  | .chunked _ _ body .. => (fieldLines body.trailers).length + 2

/-- The parser behind the fields. -/
def Content.frame (core : HttpParser) : Content → HttpParser
  | .none => core
  | .sized _ _ body .. =>
      { core with
        flags := { core.flags with contentlength := true }, content_length := body.length }
  | .chunked .. =>
      { core with flags := { core.flags with chunked := true }, uses_transfer_encoding := true }

/-- The parser behind the body. -/
def Content.behind (core : HttpParser) (content : Content) : HttpParser :=
  match content with
  | .none => { core with upgrade := false }
  | .sized .. => { content.frame core with upgrade := false, content_length := 0 }
  | .chunked .. => { content.frame core with upgrade := false }.trailing

structure Entity where
  before : List (Bytes × Bytes)
  content : Content
  after : List (Bytes × Bytes)
  plain : ∀ field ∈ before ++ after, Plain field

def Entity.fields (entity : Entity) : List (Bytes × Bytes) :=
  entity.before ++ (entity.content.fields ++ entity.after)

/-- What `s_start_req`, `s_start_res` and `s_start_req_or_res` leave. -/
structure Fresh (core : HttpParser) : Prop where
  flags : core.flags = .none
  uses_transfer_encoding : core.uses_transfer_encoding = false
  content_length : core.content_length = ullongMax

section Entities

variable {parser start : HttpParser} {core : HttpParser} {content : Content} {entity : Entity}

theorem Content.nameable (content : Content) : ∀ field ∈ content.fields, Nameable field.1 := by
  intro field hfield
  cases content with
  | none => cases hfield
  | sized name digits body spaces hname =>
      obtain rfl := List.mem_singleton.mp hfield
      exact nameable_of_kind
        (m := ⟨.matchingContentLength, ascii "content-length", .contentLength, 4⟩) (by decide) hname
  | chunked name value body hname =>
      obtain rfl := List.mem_singleton.mp hfield
      exact nameable_of_kind
        (m := ⟨.matchingTransferEncoding, transferEncoding, .transferEncoding, 1⟩) (by decide) hname

theorem Entity.nameable (entity : Entity) : ∀ field ∈ entity.fields, Nameable field.1 := by
  intro field hfield
  rcases List.mem_append.mp hfield with hfield | hfield
  · exact (entity.plain field (List.mem_append_left _ hfield)).name
  · rcases List.mem_append.mp hfield with hfield | hfield
    · exact entity.content.nameable field hfield
    · exact (entity.plain field (List.mem_append_right _ hfield)).name

theorem Content.takes (content : Content) (honce : core.flags.contentlength = false) :
    TakesAll core content.fields (content.frame core) := by
  have hnames := content.nameable
  cases content with
  | none => exact .nil
  | sized name digits body spaces hname hnumber hle =>
      have hkind : kindOf (name.map token) = .contentLength := by rw [hname]; decide
      exact .cons (takes_length (hnames _ List.mem_cons_self) hkind honce hnumber hle spaces) .nil
  | chunked name value body hname hvalue hinside =>
      have hkind : kindOf (name.map token) = .transferEncoding := by rw [hname]; decide
      have hmem : (⟨.transferEncoding, ascii "chunked", .matchingTransferEncodingChunked,
          .transferEncodingChunked⟩ : Word) ∈ words := by decide
      have htakes := @takes_word core name value _ (hnames _ List.mem_cons_self) hmem hkind hvalue
        hinside
      rw [HttpParser.named, hname, decide_eq_true List.prefix_rfl, Bool.or_true] at htakes
      exact .cons htakes .nil

theorem Entity.takes (entity : Entity) (hfresh : Fresh core) :
    TakesAll core entity.fields (entity.content.frame core) := by
  have honce : core.flags.contentlength = false := by rw [hfresh.flags]; rfl
  have hbefore : TakesAll core entity.before core :=
    takesAll_plain fun field hfield => entity.plain field (List.mem_append_left _ hfield)
  have hafter : TakesAll (entity.content.frame core) entity.after (entity.content.frame core) :=
    takesAll_plain fun field hfield => entity.plain field (List.mem_append_right _ hfield)
  exact hbefore.append ((entity.content.takes honce).append hafter)

theorem Content.heads (content : Content) (hfresh : Fresh core) (hmethod : core.method ≠ .connect) :
    Heads (content.frame core) := by
  obtain ⟨type, flags, state, header_state, index, uses_transfer_encoding⟩ := core
  obtain ⟨hflags, hcoding, -⟩ := hfresh
  dsimp only at hflags hcoding hmethod
  subst hflags hcoding
  cases content <;> exact ⟨rfl, rfl, rfl, decide_eq_false hmethod⟩

theorem Content.bodied (content : Content) (hfresh : Fresh core)
    (heof : content = .none → core.needsEof = false) :
    Bodied (content.frame core) content.text (content.calls core.method) content.carry
      (content.behind core) := by
  have hcoding := hfresh.uses_transfer_encoding
  have hflags := hfresh.flags
  cases content with
  | none =>
      exact .none (by rw [Content.frame, hflags]; rfl) hcoding
        (.inr ⟨hfresh.content_length, heof rfl⟩)
  | sized name digits body spaces hname hnumber hle =>
      have hchunked : core.flags.chunked = false := by rw [hflags]; rfl
      by_cases hbody : body = []
      · subst hbody
        exact .none hchunked hcoding (.inl rfl)
      · have hlt : body.length < ullongMax := Nat.lt_of_le_of_lt hle (by decide)
        have hsized := @Bodied.sized
          ((Content.sized name digits body spaces hname hnumber hle).frame core) body hchunked
          hcoding hbody rfl hlt
        rw [Content.calls, if_neg hbody]
        exact hsized
  | chunked name value body hname hvalue hinside htrailers =>
      exact .chunked rfl body (takesAll_plain htrailers) ⟨rfl, rfl⟩

end Entities

end LibConn.Parser
