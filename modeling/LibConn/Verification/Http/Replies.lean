import LibConn.Model.HttpClient
import LibConn.Verification.Http.Assembly
import Mathlib.Data.List.Infix

/-! # What the parser reports of a response

The counterpart of `Delivery`: the callbacks of one response, what they leave in `resp` and
when they leave the state complete. -/

namespace LibConn.Http

variable {σ : Type}

/-- A response in pieces. The reason phrase comes in `reason` calls; there is one at least, and one
for each name. -/
structure Reply where
  status_code : ℤ
  reason : ℕ
  headers : List HeaderPieces
  body : BodyPieces
  method : HttpMethod
  reason_pos : 0 < reason
  names : ∀ h ∈ headers, h.name ≠ []

/-- The callbacks before `on_headers_complete`. -/
def Reply.head (reply : Reply) : List Callback :=
  .messageBegin :: List.replicate reply.reason (.status reply.status_code) ++
    reply.headers.flatMap HeaderPieces.callbacks

/-- The callbacks before `on_message_complete`. -/
def Reply.front (reply : Reply) : List Callback :=
  reply.head ++ .headersComplete :: reply.body.callbacks

def Reply.callbacks (reply : Reply) : List Callback :=
  reply.front ++ [.messageComplete reply.method]

/-- The bytes of the body. -/
def BodyPieces.content : BodyPieces → Bytes
  | .contentLength pieces => pieces.flatten
  | .chunked chunks _ => chunks.flatten.flatten

/-! ## The state -/

theorem AwaitsBody.complete {cs : List Callback} (h : AwaitsBody cs) (hp : HttpParserData) :
    (cs.foldl onCallback hp).state = .messageComplete := by
  obtain ⟨head, chunks, rfl, hchunks⟩ := h
  rw [List.foldl_append, List.foldl_cons]
  have hrest : ∀ hp : HttpParserData, chunks.foldl onCallback hp = hp := by
    induction chunks with
    | nil => exact fun _ => rfl
    | cons c chunks ih =>
        intro hp
        have hsame : onCallback hp c = hp := by
          rcases hchunks c List.mem_cons_self with rfl | rfl <;> rfl
        rw [List.foldl_cons, hsame]
        exact ih (fun c' hc' => hchunks c' (List.mem_cons_of_mem _ hc')) hp
  rw [hrest]
  rfl

section Reply

variable {reply : Reply} {cs : List Callback}

theorem Reply.front_unmarked (reply : Reply) : ∀ c ∈ reply.front, c.completes = false := by
  intro c hc
  rcases List.mem_append.mp hc with hc | hc
  · rcases List.mem_append.mp hc with hc | hc
    · rcases List.mem_cons.mp hc with rfl | hc
      · rfl
      · rw [(List.mem_replicate.mp hc).2]
        rfl
    · exact (HeaderPieces.inner c hc).completes
  · rcases List.mem_cons.mp hc with rfl | hc
    · rfl
    · exact (BodyPieces.inner c hc).completes

theorem Reply.unmarked_of_prefix (hbegins : cs <+: reply.callbacks) (hpart : cs ≠ reply.callbacks) :
    ∀ c ∈ cs, c.completes = false := by
  intro c hc
  rcases List.prefix_concat_iff.mp hbegins with hall | hfront
  · exact absurd hall hpart
  · exact reply.front_unmarked c (hfront.subset hc)

theorem Reply.begins (hbegins : cs <+: reply.callbacks) (hne : cs ≠ []) :
    ∃ rest, cs = .messageBegin :: rest := by
  cases cs with
  | nil => exact absurd rfl hne
  | cons c rest =>
      obtain ⟨rfl, -⟩ : c = .messageBegin ∧ _ := List.cons_prefix_cons.mp hbegins
      exact ⟨rest, rfl⟩

theorem Reply.not_awaitsBody (reply : Reply) : ¬ AwaitsBody reply.callbacks := by
  intro h
  have hlast := h.last
  rw [Reply.callbacks, List.getLast?_concat] at hlast
  rcases hlast with hlast | hlast | hlast <;> cases hlast

/-- Once something of a response is reported, the state is complete at the end of the
headers and at the end of the response. -/
theorem Reply.complete_iff (hbegins : cs <+: reply.callbacks) (hne : cs ≠ [])
    (hp : HttpParserData) :
    (cs.foldl onCallback hp).state = .messageComplete ↔
      AwaitsBody cs ∨ cs = reply.callbacks := by
  constructor
  · intro h
    by_cases hall : cs = reply.callbacks
    · exact .inr hall
    · obtain ⟨rest, rfl⟩ := Reply.begins hbegins hne
      have hunmarked := Reply.unmarked_of_prefix hbegins hall
      exact .inl (awaitsBody_of_begun (fun c hc => hunmarked c (List.mem_cons_of_mem _ hc)) h)
  · rintro (h | rfl)
    · exact h.complete hp
    · rw [Reply.callbacks, List.foldl_append]
      rfl

end Reply

/-! ## The members that matter to a response -/

/-- Two parsers that do the same with `resp` from now on. -/
structure SameMessage (hp hp' : HttpParserData) : Prop where
  parser_type : hp.parser_type = hp'.parser_type
  header_field : hp.header_field = hp'.header_field
  header_value : hp.header_value = hp'.header_value
  resp : hp.resp = hp'.resp

section SameMessage

variable {hp hp' : HttpParserData}

theorem SameMessage.handleHeader (h : SameMessage hp hp') :
    SameMessage (handleHeader hp) (handleHeader hp') := by
  obtain ⟨htype, hfield, hvalue, hresp⟩ := h
  rw [Http.handleHeader, Http.handleHeader, ← hfield, ← hvalue, ← hresp, ← htype]
  split_ifs
  · cases hp.parser_type <;> exact ⟨rfl, rfl, rfl, rfl⟩
  · exact ⟨htype, hfield, hvalue, hresp⟩

theorem SameMessage.onCallback (h : SameMessage hp hp') (c : Callback) :
    SameMessage (onCallback hp c) (onCallback hp' c) := by
  cases c with
  | headerField at' =>
      obtain ⟨htype, hfield, hvalue, hresp⟩ := h.handleHeader
      exact ⟨htype, congrArg (· ++ at') hfield, hvalue, hresp⟩
  | headersComplete =>
      obtain ⟨htype, hfield, hvalue, hresp⟩ := h.handleHeader
      exact ⟨htype, hfield, hvalue, hresp⟩
  | headerValue at' =>
      exact ⟨h.parser_type, h.header_field, congrArg (· ++ at') h.header_value, h.resp⟩
  | status _ | body _ =>
      obtain ⟨htype, hfield, hvalue, hresp⟩ := h
      simp only [Http.onCallback, onStatus, onBody, ← htype, ← hresp]
      cases hp.parser_type <;> exact ⟨rfl, hfield, hvalue, rfl⟩
  | messageBegin | url _ | messageComplete _ | chunkHeader | chunkComplete =>
      exact { h with }

theorem SameMessage.foldl (h : SameMessage hp hp') (cs : List Callback) :
    SameMessage (cs.foldl Http.onCallback hp) (cs.foldl Http.onCallback hp') := by
  induction cs generalizing hp hp' with
  | nil => exact h
  | cons c cs ih => exact ih (h.onCallback c)

theorem onCallback_state (h : hp.state = hp'.state) (c : Callback) :
    (onCallback hp c).state = (onCallback hp' c).state := by
  cases c with
  | status _ | body _ =>
      simp only [onCallback, onStatus, onBody]
      cases hp.parser_type <;> cases hp'.parser_type <;> rfl
  | chunkHeader | chunkComplete => exact h
  | messageBegin | url _ | headerField _ | headerValue _ | headersComplete
  | messageComplete _ => rfl

theorem foldl_state (cs : List Callback) (h : hp.state = hp'.state) :
    (cs.foldl onCallback hp).state = (cs.foldl onCallback hp').state := by
  induction cs generalizing hp hp' with
  | nil => exact h
  | cons c cs ih => exact ih (onCallback_state h c)

end SameMessage

/-! ## The response that the pieces amount to -/

/-- What a callback adds to `body`. -/
def Callback.bodyPart : Callback → Bytes
  | .body at' => at'
  | _ => []

theorem onCallback_body {hp : HttpParserData} (h : hp.parser_type = .response) (c : Callback) :
    (onCallback hp c).parser_type = .response ∧
      (onCallback hp c).resp.body = hp.resp.body ++ c.bodyPart := by
  have hstored : (handleHeader hp).parser_type = .response ∧
      (handleHeader hp).resp.body = hp.resp.body ++ [] := by
    rw [List.append_nil, handleHeader, h]
    split_ifs
    · exact ⟨rfl, rfl⟩
    · exact ⟨h, rfl⟩
  cases c with
  | body at' =>
      rw [onCallback, onBody, h]
      exact ⟨rfl, rfl⟩
  | status _ =>
      rw [onCallback, onStatus, h]
      exact ⟨rfl, (List.append_nil _).symm⟩
  | headerField _ | headersComplete => exact hstored
  | messageBegin | url _ | headerValue _ | messageComplete _ | chunkHeader | chunkComplete =>
      exact ⟨h, (List.append_nil _).symm⟩

theorem foldl_body {hp : HttpParserData} (h : hp.parser_type = .response) (cs : List Callback) :
    (cs.foldl onCallback hp).parser_type = .response ∧
      (cs.foldl onCallback hp).resp.body = hp.resp.body ++ cs.flatMap Callback.bodyPart := by
  induction cs generalizing hp with
  | nil => exact ⟨h, (List.append_nil _).symm⟩
  | cons c cs ih =>
      obtain ⟨htype, hbody⟩ := onCallback_body h c
      obtain ⟨htypes, hbodies⟩ := ih htype
      refine ⟨htypes, ?_⟩
      rw [List.foldl_cons, hbodies, hbody, List.flatMap_cons, List.append_assoc]

theorem flatMap_bodyPart_map (pieces : List Bytes) :
    (pieces.map Callback.body).flatMap Callback.bodyPart = pieces.flatten := by
  rw [List.flatMap_map]
  exact List.flatMap_id'

theorem HeaderPieces.bodyParts (headers : List HeaderPieces) :
    (headers.flatMap HeaderPieces.callbacks).flatMap Callback.bodyPart = [] := by
  refine List.flatMap_eq_nil_iff.mpr fun c hc => ?_
  obtain ⟨h, -, hc⟩ := List.mem_flatMap.mp hc
  rcases List.mem_append.mp hc with hc | hc <;>
    obtain ⟨piece, -, rfl⟩ := List.mem_map.mp hc <;> rfl

theorem BodyPieces.bodyParts (body : BodyPieces) :
    body.callbacks.flatMap Callback.bodyPart = body.content := by
  cases body with
  | contentLength pieces => exact flatMap_bodyPart_map pieces
  | chunked chunks trailers =>
      have hchunk : ∀ chunk : List Bytes, (Callback.chunkHeader :: chunk.map .body ++
          [Callback.chunkComplete]).flatMap Callback.bodyPart = chunk.flatten := by
        intro chunk
        rw [List.cons_append, List.flatMap_cons, List.flatMap_append, flatMap_bodyPart_map]
        exact List.append_nil _
      rw [BodyPieces.callbacks, List.flatMap_append, List.flatMap_append, List.flatMap_cons,
        HeaderPieces.bodyParts, List.flatMap_assoc, BodyPieces.content]
      simp only [hchunk, Callback.bodyPart, List.flatMap_cons, List.flatMap_nil, List.append_nil]
      rw [List.flatten_flatten]
      rfl

theorem Reply.bodyParts (reply : Reply) :
    reply.callbacks.flatMap Callback.bodyPart = reply.body.content := by
  have hstatus : (List.replicate reply.reason
      (Callback.status reply.status_code)).flatMap Callback.bodyPart = [] := by
    refine List.flatMap_eq_nil_iff.mpr fun c hc => ?_
    rw [(List.mem_replicate.mp hc).2]
    rfl
  simp only [Reply.callbacks, Reply.front, Reply.head, List.flatMap_append, List.flatMap_cons,
    hstatus, HeaderPieces.bodyParts, BodyPieces.bodyParts, Callback.bodyPart, List.flatMap_nil,
    List.append_nil, List.nil_append]

/-- No part of a header waits in the members for the rest. -/
structure NothingPending (hp : HttpParserData) : Prop where
  header_field : hp.header_field = []
  header_value : hp.header_value = []

section Headers

variable {hp : HttpParserData}

theorem onCallback_quiet (hp : HttpParserData) {c : Callback} (hc : c.Quiet)
    (hends : c.endsHeaders = false) :
    (onCallback hp c).header_field = hp.header_field ∧
      (onCallback hp c).header_value = hp.header_value ∧
      (onCallback hp c).resp.headers = hp.resp.headers := by
  cases c with
  | headerField _ => exact hc.elim
  | headerValue _ => exact hc.elim
  | headersComplete => cases hends
  | status _ | body _ =>
      simp only [onCallback, onStatus, onBody]
      cases hp.parser_type <;> exact ⟨rfl, rfl, rfl⟩
  | messageBegin | url _ | messageComplete _ | chunkHeader | chunkComplete =>
      exact ⟨rfl, rfl, rfl⟩

theorem foldl_quiet {cs : List Callback} (hcs : ∀ c ∈ cs, c.Quiet ∧ c.endsHeaders = false)
    (hp : HttpParserData) :
    (cs.foldl onCallback hp).header_field = hp.header_field ∧
      (cs.foldl onCallback hp).header_value = hp.header_value ∧
      (cs.foldl onCallback hp).resp.headers = hp.resp.headers := by
  induction cs generalizing hp with
  | nil => exact ⟨rfl, rfl, rfl⟩
  | cons c cs ih =>
      obtain ⟨hquiet, hends⟩ := hcs c List.mem_cons_self
      obtain ⟨hfield, hvalue, hheaders⟩ := onCallback_quiet hp hquiet hends
      obtain ⟨hfields, hvalues, hrest⟩ :=
        ih (fun c' hc' => hcs c' (List.mem_cons_of_mem _ hc')) (onCallback hp c)
      exact ⟨hfields.trans hfield, hvalues.trans hvalue, hrest.trans hheaders⟩

theorem BodyPieces.quiet {body : BodyPieces} (htrailers : body.trailers = []) :
    ∀ c ∈ body.callbacks, c.Quiet ∧ c.endsHeaders = false := by
  intro c hc
  refine ⟨?_, (BodyPieces.inner c hc).endsHeaders⟩
  cases body with
  | contentLength pieces =>
      obtain ⟨piece, -, rfl⟩ := List.mem_map.mp hc
      trivial
  | chunked chunks trailers =>
      obtain rfl : trailers = [] := htrailers
      simp only [BodyPieces.callbacks, List.mem_append, List.mem_flatMap, List.mem_cons,
        List.mem_map, List.flatMap_nil, List.not_mem_nil, or_false] at hc
      rcases hc with (⟨chunk, -, (rfl | ⟨piece, -, rfl⟩) | rfl⟩ | rfl) | rfl <;> trivial

theorem handleHeader_status (htype : hp.parser_type = .response) :
    (handleHeader hp).resp.status_code = hp.resp.status_code := by
  rw [handleHeader, htype]
  split_ifs <;> rfl

theorem handleHeader_pending (h : hp.header_field = [] → hp.header_value = []) :
    NothingPending (handleHeader hp) := by
  by_cases hname : hp.header_field = []
  · rw [handleHeader_unnamed hname]
    exact ⟨hname, h hname⟩
  · rw [handleHeader, if_pos fun h => hname (List.length_eq_zero_iff.mp h)]
    cases hp.parser_type <;> exact ⟨rfl, rfl⟩

theorem HeaderPieces.field (h : HeaderPieces) (hnamed : h.name ≠ []) (hp : HttpParserData) :
    (h.callbacks.foldl onCallback hp).header_field = h.name.getLastD [] := by
  obtain ⟨name, value⟩ := h
  rw [HeaderPieces.callbacks, List.foldl_append]
  obtain ⟨state, hvalues⟩ := values_foldl value ((name.map .headerField).foldl onCallback hp)
  rw [hvalues]
  dsimp only at hnamed ⊢
  clear hvalues
  induction name generalizing hp with
  | nil => exact absurd rfl hnamed
  | cons piece name ih =>
      cases name with
      | nil => exact onHeaderField_field hp piece
      | cons next name => exact ih (onHeaderField hp piece) (List.cons_ne_nil _ _)

/-- Every name ends in a piece that is not empty. -/
def Reply.Named (reply : Reply) : Prop :=
  ∀ h ∈ reply.headers, h.name.getLastD [] ≠ []

theorem headerList_field {headers : List HeaderPieces}
    (hnamed : ∀ h ∈ headers, h.name.getLastD [] ≠ []) (hne : headers ≠ [])
    (hp : HttpParserData) :
    ((headers.flatMap HeaderPieces.callbacks).foldl onCallback hp).header_field ≠ [] := by
  induction headers generalizing hp with
  | nil => exact absurd rfl hne
  | cons h headers ih =>
      rw [List.flatMap_cons, List.foldl_append]
      cases headers with
      | nil =>
          have hlast := hnamed h List.mem_cons_self
          have hname : h.name ≠ [] := fun hnil => hlast (by rw [hnil]; rfl)
          rw [List.flatMap_nil, List.foldl_nil, h.field hname hp]
          exact hlast
      | cons next headers =>
          exact ih (fun h' hh' => hnamed h' (List.mem_cons_of_mem _ hh'))
            (List.cons_ne_nil _ _) _

theorem Reply.quiet_begin (reply : Reply) :
    ∀ c ∈ Callback.messageBegin :: List.replicate reply.reason (.status reply.status_code),
      c.Quiet ∧ c.endsHeaders = false := by
  intro c hc
  rcases List.mem_cons.mp hc with rfl | hc
  · exact ⟨trivial, rfl⟩
  · rw [(List.mem_replicate.mp hc).2]
    exact ⟨trivial, rfl⟩

/-- A response without trailers leaves nothing behind that waits for the next. -/
theorem NothingPending.reply (h : NothingPending hp) {reply : Reply} (hnamed : reply.Named)
    (htrailers : reply.body.trailers = []) :
    NothingPending (reply.callbacks.foldl onCallback hp) := by
  have hhead : (reply.head.foldl onCallback hp).header_field = [] →
      (reply.head.foldl onCallback hp).header_value = [] := by
    rw [Reply.head, List.foldl_append]
    obtain ⟨-, hvalue, -⟩ := foldl_quiet reply.quiet_begin hp
    by_cases hnone : reply.headers = []
    · rw [hnone]
      exact fun _ => hvalue.trans h.header_value
    · exact fun hfield => absurd hfield (headerList_field hnamed hnone _)
  have hcomplete : NothingPending (onHeadersComplete (reply.head.foldl onCallback hp)) := by
    obtain ⟨hfield, hvalue⟩ := handleHeader_pending hhead
    exact ⟨hfield, hvalue⟩
  rw [Reply.callbacks, Reply.front, List.foldl_append, List.foldl_append, List.foldl_cons]
  obtain ⟨hfield, hvalue, -⟩ := foldl_quiet (BodyPieces.quiet htrailers)
    (onHeadersComplete (reply.head.foldl onCallback hp))
  exact ⟨hfield.trans hcomplete.header_field, hvalue.trans hcomplete.header_value⟩

theorem Reply.afterHead (htype : hp.parser_type = .response) (hpending : NothingPending hp)
    (reply : Reply) :
    (onHeadersComplete (reply.head.foldl onCallback hp)).parser_type = .response ∧
      (onHeadersComplete (reply.head.foldl onCallback hp)).header_field = [] ∧
      (onHeadersComplete (reply.head.foldl onCallback hp)).resp.headers =
        setAll hp.resp.headers (piecePairs reply.headers) := by
  have hends := (onCallback_body (foldl_body htype reply.head).1 .headersComplete).1
  refine ⟨hends, handleHeader_field _, ?_⟩
  rw [Reply.head, List.foldl_append] at hends ⊢
  obtain ⟨hfield, hvalue, hheaders⟩ := foldl_quiet reply.quiet_begin hp
  obtain ⟨hbegun, -⟩ := foldl_body htype
    (Callback.messageBegin :: List.replicate reply.reason (.status reply.status_code))
  obtain ⟨-, hmessage, -⟩ := afterHeaders_eq reply.names (hfield.trans hpending.header_field)
    (hvalue.trans hpending.header_value)
  rw [HttpParserData.messageHeaders, HttpParserData.messageHeaders, hbegun, hheaders] at hmessage
  rw [afterHeaders] at hmessage
  change (onHeadersComplete _).parser_type = .response at hends
  rw [hends] at hmessage
  exact hmessage

/-- A callback stores nothing but the pair at hand. -/
theorem onCallback_stores {names : List Bytes} (htype : hp.parser_type = .response)
    (hfield : hp.header_field ≠ [] → hp.header_field ∈ names) {c : Callback}
    (hc : ∀ piece, c = .headerField piece → piece ∈ names) :
    (∃ more : List (Bytes × Bytes), (∀ it ∈ more, it.1 ∈ names) ∧
      (onCallback hp c).resp.headers = setAll hp.resp.headers more) ∧
    ((onCallback hp c).header_field ≠ [] → (onCallback hp c).header_field ∈ names) := by
  have hstored : ∃ more : List (Bytes × Bytes), (∀ it ∈ more, it.1 ∈ names) ∧
      (handleHeader hp).resp.headers = setAll hp.resp.headers more := by
    by_cases hname : hp.header_field = []
    · exact ⟨[], by simp, by rw [handleHeader_unnamed hname]; rfl⟩
    · refine ⟨[(hp.header_field, hp.header_value)], ?_, ?_⟩
      · exact List.forall_mem_singleton.mpr (hfield hname)
      · rw [handleHeader, if_pos fun h => hname (List.length_eq_zero_iff.mp h), htype]
        rfl
  have hkept : ∃ more : List (Bytes × Bytes), (∀ it ∈ more, it.1 ∈ names) ∧
      hp.resp.headers = setAll hp.resp.headers more := ⟨[], by simp, rfl⟩
  cases c with
  | headerField piece =>
      refine ⟨hstored, fun _ => ?_⟩
      rw [onCallback, onHeaderField_field]
      exact hc piece rfl
  | headersComplete =>
      exact ⟨hstored, fun hne => absurd (handleHeader_field hp) hne⟩
  | status _ => rw [onCallback, onStatus, htype]; exact ⟨hkept, hfield⟩
  | body _ => rw [onCallback, onBody, htype]; exact ⟨hkept, hfield⟩
  | messageBegin | url _ | headerValue _ | messageComplete _ | chunkHeader | chunkComplete =>
      exact ⟨hkept, hfield⟩

theorem foldl_stores {names : List Bytes} {cs : List Callback} (htype : hp.parser_type = .response)
    (hfield : hp.header_field ≠ [] → hp.header_field ∈ names)
    (hcs : ∀ piece, Callback.headerField piece ∈ cs → piece ∈ names) :
    ∃ more : List (Bytes × Bytes), (∀ it ∈ more, it.1 ∈ names) ∧
      (cs.foldl onCallback hp).resp.headers = setAll hp.resp.headers more := by
  induction cs generalizing hp with
  | nil => exact ⟨[], by simp, rfl⟩
  | cons c cs ih =>
      obtain ⟨⟨first, hfirst, hstored⟩, hnext⟩ := onCallback_stores htype hfield
        fun piece hpiece => hcs piece (hpiece ▸ List.mem_cons_self)
      obtain ⟨rest, hrest, hheaders⟩ := ih (onCallback_body htype c).1 hnext
        fun piece hpiece => hcs piece (List.mem_cons_of_mem _ hpiece)
      refine ⟨first ++ rest, fun it hit => ?_, ?_⟩
      · exact (List.mem_append.mp hit).elim (hfirst it) (hrest it)
      · rw [List.foldl_cons, hheaders, hstored, setAll, setAll, setAll, List.foldl_append]

theorem BodyPieces.mem_names {body : BodyPieces} {piece : Bytes}
    (h : Callback.headerField piece ∈ body.callbacks) :
    piece ∈ body.trailers.flatMap HeaderPieces.name := by
  cases body with
  | contentLength pieces => simp [BodyPieces.callbacks] at h
  | chunked chunks trailers =>
      simpa [BodyPieces.callbacks, BodyPieces.trailers, HeaderPieces.callbacks] using h

/-- What `resp` holds in the end: the pairs of the headers, and perhaps some of the trailers. -/
theorem Reply.stored_headers (htype : hp.parser_type = .response) (hpending : NothingPending hp)
    (reply : Reply) :
    ∃ trailers : List (Bytes × Bytes),
      (∀ it ∈ trailers, it.1 ∈ reply.body.trailers.flatMap HeaderPieces.name) ∧
      (reply.callbacks.foldl onCallback hp).resp.headers =
        setAll (setAll hp.resp.headers (piecePairs reply.headers)) trailers := by
  obtain ⟨hends, hfield, hheaders⟩ := reply.afterHead htype hpending
  have hcallbacks : reply.callbacks.foldl onCallback hp =
      (reply.body.callbacks ++ [Callback.messageComplete reply.method]).foldl onCallback
        (onHeadersComplete (reply.head.foldl onCallback hp)) := by
    rw [Reply.callbacks, Reply.front, List.append_assoc, List.foldl_append, List.cons_append,
      List.foldl_cons]
    rfl
  rw [hcallbacks, ← hheaders]
  refine foldl_stores hends (fun hne => absurd hfield hne) fun piece hpiece => ?_
  rw [List.mem_append, List.mem_singleton] at hpiece
  exact BodyPieces.mem_names (hpiece.resolve_right (by simp))

theorem onCallback_status {code : ℤ} (h : hp.parser_type = .response)
    (hcode : hp.resp.status_code = code) {c : Callback} (hc : ∀ k, c = .status k → k = code) :
    (onCallback hp c).resp.status_code = code := by
  have hstored := handleHeader_status h
  cases c with
  | status k => rw [onCallback, onStatus, h]; exact hc k rfl
  | headerField at' => exact hstored.trans hcode
  | headersComplete => exact hstored.trans hcode
  | body at' => rw [onCallback, onBody, h]; exact hcode
  | messageBegin | url | headerValue | messageComplete | chunkHeader | chunkComplete => exact hcode

theorem foldl_status {code : ℤ} {cs : List Callback}
    (h : hp.parser_type = .response) (hcode : hp.resp.status_code = code)
    (hcs : ∀ k, Callback.status k ∈ cs → k = code) :
    (cs.foldl onCallback hp).resp.status_code = code := by
  induction cs generalizing hp with
  | nil => exact hcode
  | cons c cs ih =>
      refine ih (onCallback_body h c).1 (onCallback_status h hcode fun k hk => ?_) fun k hk => ?_
      · exact hcs k (hk ▸ List.mem_cons_self)
      · exact hcs k (List.mem_cons_of_mem _ hk)

theorem status_of_mem_callbacks {reply : Reply} {k : ℤ} (h : Callback.status k ∈ reply.callbacks) :
    k = reply.status_code := by
  have hbody : Callback.status k ∉ reply.body.callbacks := by
    cases reply.body <;> simp [BodyPieces.callbacks, HeaderPieces.callbacks]
  have hstatus : reply.reason ≠ 0 ∧ k = reply.status_code := by
    simpa [Reply.callbacks, Reply.front, Reply.head, HeaderPieces.callbacks, hbody] using h
  exact hstatus.2

/-- Behind the first call for the reason phrase the status is there. -/
theorem Reply.stored_status (htype : hp.parser_type = .response) {reply : Reply}
    {cs : List Callback} (hbegins : cs <+: reply.callbacks) (hcs : 2 ≤ cs.length) :
    (cs.foldl onCallback hp).resp.status_code = reply.status_code := by
  obtain ⟨n, hn⟩ := Nat.exists_eq_succ_of_ne_zero reply.reason_pos.ne'
  have hfirst : reply.callbacks = .messageBegin :: .status reply.status_code ::
      reply.callbacks.drop 2 := by
    rw [Reply.callbacks, Reply.front, Reply.head, hn, List.replicate_succ]
    rfl
  obtain ⟨c, c', rest, rfl⟩ : ∃ c c' rest, cs = c :: c' :: rest := by
    match cs, hcs with
    | c :: c' :: rest, _ => exact ⟨c, c', rest, rfl⟩
  have hall := hbegins
  rw [hfirst, List.cons_prefix_cons, List.cons_prefix_cons] at hall
  obtain ⟨rfl, rfl, -⟩ := hall
  rw [List.foldl_cons, List.foldl_cons]
  have htype' : (onCallback hp .messageBegin).parser_type = .response := htype
  generalize onCallback hp .messageBegin = begun at htype'
  refine foldl_status (onCallback_body htype' _).1 ?_ fun k hk => ?_
  · rw [onCallback, onStatus, htype']
  · exact status_of_mem_callbacks
      (hbegins.subset (List.mem_cons_of_mem _ (List.mem_cons_of_mem _ hk)))

theorem Reply.callbacks_length (reply : Reply) : 2 ≤ reply.callbacks.length := by
  have hpos := reply.reason_pos
  simp [Reply.callbacks, Reply.front, Reply.head]
  omega

end Headers

end LibConn.Http
