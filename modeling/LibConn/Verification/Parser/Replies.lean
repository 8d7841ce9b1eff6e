import LibConn.Model.Parser.Externals
import LibConn.Verification.Http.Clients
import LibConn.Verification.Parser.RoundTrips

/-! # Replies

The clients are verified against any parser that reports a response in pieces. The vendored one
does: in whatever chunks a response arrives, what it reports is the response. -/

namespace LibConn.Parser

open LibConn.Http LibConn.Merging

/-- The bytes of the body. -/
def Content.body : Content → Bytes
  | .none => []
  | .sized _ _ body .. => body
  | .chunked _ _ body .. => body.chunks.flatMap Chunk.data

def Content.trailers : Content → List (Bytes × Bytes)
  | .none | .sized .. => []
  | .chunked _ _ body .. => body.trailers

/-- The pieces are those of the response. -/
structure Carries (reply : Reply) (response : Response) : Prop where
  status_code : reply.status_code = response.code
  headers : reply.headers.map HeaderPieces.whole = response.entity.fields
  content : reply.body.content = response.entity.content.body
  trailers : reply.body.trailers.map HeaderPieces.whole = response.entity.content.trailers

/-- The pieces are those of the request. -/
structure Conveys (d : Delivery) (request : Request) : Prop where
  method : d.method = request.method
  url : d.url.flatten = request.target
  headers : d.headers.map HeaderPieces.whole = request.entity.fields
  content : d.body.content = request.entity.content.body
  trailers : d.body.trailers.map HeaderPieces.whole = request.entity.content.trailers

section Pieces

variable {parts calls : List Call} {call : Call} {text : Bytes}

/-! ## What the pieces of a call are -/

theorem joinsTo_pieces (parser : HttpParser) (f : Field)
    (h : JoinsTo joinCalls parts (dataCall parser text f)) :
    ∃ pieces : List Bytes, parts = pieces.map (fun piece => dataCall parser piece f) ∧
      pieces.flatten = text := by
  generalize hcall : dataCall parser text f = call at h
  induction h generalizing text with
  | single call => exact ⟨[text], by rw [← hcall]; rfl, List.append_nil text⟩
  | cons _ hjoin ih =>
      obtain ⟨parser', f', s, t, rfl, rfl, rfl⟩ := exists_dataCall hjoin
      obtain ⟨rfl, hsame⟩ := dataCall_congr hcall
      obtain ⟨pieces, rfl, rfl⟩ := ih (hsame t)
      exact ⟨s :: pieces, by rw [← hsame s]; rfl, rfl⟩

theorem joinsTo_ne_nil (h : JoinsTo joinCalls parts call) : parts ≠ [] := by
  cases h <;> exact List.cons_ne_nil _ _

theorem joinsTo_whole (h : JoinsTo joinCalls parts call)
    (hcall : ∀ parser s f, call ≠ dataCall parser s f) : parts = [call] := by
  cases h with
  | single => rfl
  | cons _ hjoin =>
      obtain ⟨parser, f, s, t, -, -, rfl⟩ := exists_dataCall hjoin
      exact absurd rfl (hcall parser _ f)

theorem notification_ne {call : Call}
    (h : call = .messageBegin ∨ call = .headersComplete ∨ call = .chunkHeader ∨
      call = .chunkComplete ∨ ∃ method, call = .messageComplete method)
    (parser : HttpParser) (s : Bytes) (f : Field) : call ≠ dataCall parser s f := by
  rcases h with rfl | rfl | rfl | rfl | ⟨method, rfl⟩ <;> cases f <;> simp [dataCall]

/-! ## Fields, chunks and bodies in pieces -/

theorem spread_fields {fields : List (Bytes × Bytes)}
    (h : Spread joinCalls calls (fields.flatMap fieldCalls)) :
    ∃ headers : List HeaderPieces,
      calls.map Call.callback = headers.flatMap HeaderPieces.callbacks ∧
        headers.map HeaderPieces.whole = fields ∧ ∀ h ∈ headers, h.name ≠ [] := by
  induction fields generalizing calls with
  | nil =>
      obtain rfl := spread_nil h
      exact ⟨[], rfl, rfl, by simp⟩
  | cons field fields ih =>
      obtain ⟨names, behind, rfl, hnames, hbehind⟩ := spread_cons h
      obtain ⟨values, rest, rfl, hvalues, hrest⟩ := spread_cons hbehind
      obtain ⟨headers, hheaders, hwhole, hnamed⟩ := ih hrest
      have hne := joinsTo_ne_nil hnames
      obtain ⟨name, rfl, hname⟩ := joinsTo_pieces (.init .both) .headerField hnames
      obtain ⟨value, rfl, hvalue⟩ := joinsTo_pieces (.init .both) .headerValue hvalues
      refine ⟨⟨name, value⟩ :: headers, ?_, ?_, ?_⟩
      · rw [List.map_append, List.map_append, hheaders, List.flatMap_cons, HeaderPieces.callbacks,
          List.map_map, List.map_map, List.append_assoc]
        rfl
      · rw [List.map_cons, hwhole, HeaderPieces.whole, hname, hvalue]
      · exact List.forall_mem_cons.mpr ⟨fun hnil => hne (List.map_eq_nil_iff.mpr hnil), hnamed⟩

theorem spread_chunks {chunks : List Chunk}
    (h : Spread joinCalls calls (chunks.flatMap Chunk.calls)) :
    ∃ pieces : List (List Bytes),
      calls.map Call.callback =
          pieces.flatMap (fun chunk => .chunkHeader :: chunk.map .body ++ [.chunkComplete]) ∧
        pieces.map List.flatten = chunks.map Chunk.data := by
  induction chunks generalizing calls with
  | nil =>
      obtain rfl := spread_nil h
      exact ⟨[], rfl, rfl⟩
  | cons chunk chunks ih =>
      obtain ⟨header, behind, rfl, hheader, hbehind⟩ := spread_cons h
      obtain ⟨data, behind, rfl, hdata, hbehind⟩ := spread_cons hbehind
      obtain ⟨complete, rest, rfl, hcomplete, hrest⟩ := spread_cons hbehind
      obtain ⟨pieces, hpieces, hwhole⟩ := ih hrest
      obtain rfl := joinsTo_whole hheader (notification_ne (by simp))
      obtain rfl := joinsTo_whole hcomplete (notification_ne (by simp))
      obtain ⟨body, rfl, hbody⟩ := joinsTo_pieces (.init .both) .body hdata
      refine ⟨body :: pieces, ?_, ?_⟩
      · rw [List.map_append, List.map_append, List.map_append, hpieces, List.flatMap_cons,
          List.map_map, List.append_assoc]
        rfl
      · rw [List.map_cons, List.map_cons, hwhole, hbody]

theorem spread_content {content : Content} {method : HttpMethod}
    (h : Spread joinCalls calls (content.calls method)) :
    ∃ body : BodyPieces,
      calls.map Call.callback = body.callbacks ++ [.messageComplete method] ∧
        body.content = content.body ∧ body.trailers.map HeaderPieces.whole = content.trailers := by
  cases content with
  | none =>
      obtain ⟨complete, rest, rfl, hcomplete, hrest⟩ := spread_cons h
      obtain rfl := spread_nil hrest
      obtain rfl := joinsTo_whole hcomplete (notification_ne (by simp))
      exact ⟨.contentLength [], rfl, rfl, rfl⟩
  | sized name digits body spaces =>
      obtain ⟨front, behind, rfl, hfront, hbehind⟩ := spread_append h
      obtain ⟨complete, rest, rfl, hcomplete, hrest⟩ := spread_cons hbehind
      obtain rfl := spread_nil hrest
      obtain rfl := joinsTo_whole hcomplete (notification_ne (by simp))
      by_cases hempty : body = []
      · subst hempty
        rw [if_pos rfl] at hfront
        obtain rfl := spread_nil hfront
        exact ⟨.contentLength [], rfl, rfl, rfl⟩
      · rw [if_neg hempty] at hfront
        obtain ⟨data, rest, rfl, hdata, hrest⟩ := spread_cons hfront
        obtain rfl := spread_nil hrest
        obtain ⟨pieces, rfl, rfl⟩ := joinsTo_pieces (.init .both) .body hdata
        refine ⟨.contentLength pieces, ?_, rfl, rfl⟩
        rw [List.append_nil, List.append_nil, List.map_append, List.map_map]
        rfl
  | chunked name value body =>
      obtain ⟨front, behind, rfl, hfront, hbehind⟩ := spread_append h
      obtain ⟨header, behind, rfl, hheader, hbehind⟩ := spread_cons hbehind
      obtain ⟨fields, behind, rfl, hfields, hbehind⟩ := spread_append hbehind
      obtain ⟨last, behind, rfl, hlast, hbehind⟩ := spread_cons hbehind
      obtain ⟨complete, rest, rfl, hcomplete, hrest⟩ := spread_cons hbehind
      obtain rfl := spread_nil hrest
      obtain rfl := joinsTo_whole hheader (notification_ne (by simp))
      obtain rfl := joinsTo_whole hlast (notification_ne (by simp))
      obtain rfl := joinsTo_whole hcomplete (notification_ne (by simp))
      obtain ⟨chunks, hchunks, hwhole⟩ := spread_chunks hfront
      obtain ⟨trailers, htrailers, hfields, -⟩ := spread_fields hfields
      refine ⟨.chunked chunks trailers, ?_, ?_, hfields⟩
      · rw [List.map_append, hchunks, List.map_append, List.map_append, htrailers,
          BodyPieces.callbacks]
        simp [Call.callback]
      · rw [BodyPieces.content, Content.body, List.flatMap_def, ← hwhole, List.flatten_flatten]

/-! ## Calls of which no neighbours join -/

theorem isChain_fields {fields : List (Bytes × Bytes)} {rest : List Call}
    (hrest : rest.IsChain fun a b => joinCalls a b = none)
    (hfirst : ∀ c ∈ rest.head?, ∀ text, joinCalls (.headerValue text) c = none) :
    (fields.flatMap fieldCalls ++ rest).IsChain fun a b => joinCalls a b = none := by
  induction fields with
  | nil => exact hrest
  | cons field fields ih =>
      have hnext : ∀ c ∈ (fields.flatMap fieldCalls ++ rest).head?,
          joinCalls (.headerValue field.2) c = none := by
        intro c hc
        cases fields with
        | nil => exact hfirst c hc field.2
        | cons =>
            obtain rfl := Option.some.inj hc
            rfl
      refine List.isChain_cons.mpr ⟨fun c hc => ?_, List.isChain_cons.mpr ⟨hnext, ih⟩⟩
      obtain rfl := Option.some.inj hc
      rfl

theorem isChain_chunks {chunks : List Chunk} {rest : List Call}
    (hrest : rest.IsChain fun a b => joinCalls a b = none) :
    (chunks.flatMap Chunk.calls ++ rest).IsChain fun a b => joinCalls a b = none := by
  have hapart : ∀ c, joinCalls .chunkComplete c = none := fun c => by cases c <;> rfl
  induction chunks with
  | nil => exact hrest
  | cons chunk chunks ih =>
      exact .cons_cons rfl (.cons_cons rfl (List.isChain_cons.mpr ⟨fun c _ => hapart c, ih⟩))

theorem isChain_content (content : Content) (method : HttpMethod) :
    (content.calls method).IsChain fun a b => joinCalls a b = none := by
  cases content with
  | none => exact .singleton _
  | sized name digits body spaces =>
      rw [Content.calls]
      split_ifs
      · exact .singleton _
      · exact .cons_cons rfl (.singleton _)
  | chunked name value body =>
      have hend : [Call.chunkComplete, .messageComplete method].IsChain
          fun a b => joinCalls a b = none := .cons_cons rfl (.singleton _)
      have hfields := @isChain_fields body.trailers _ hend fun c hc text => by
        obtain rfl := Option.some.inj hc
        rfl
      refine isChain_chunks (List.isChain_cons.mpr ⟨fun c _ => by cases c <;> rfl, hfields⟩)

/-- The calls for a message, of which `call` is for the first line. -/
theorem isChain_message (entity : Entity) (method : HttpMethod)
    (hbegins : joinCalls .messageBegin call = none)
    (hfield : ∀ name, joinCalls call (.headerField name) = none)
    (hcomplete : joinCalls call .headersComplete = none) :
    (.messageBegin :: call :: (entity.fields.flatMap fieldCalls ++
      .headersComplete :: entity.content.calls method)).IsChain fun a b => joinCalls a b = none := by
  have hcontent : (Call.headersComplete :: entity.content.calls method).IsChain
      fun a b => joinCalls a b = none :=
    List.isChain_cons.mpr ⟨fun c _ => by cases c <;> rfl, isChain_content _ method⟩
  have hfields := @isChain_fields entity.fields _ hcontent fun c hc text => by
    obtain rfl := Option.some.inj hc
    rfl
  refine .cons_cons hbegins (List.isChain_cons.mpr ⟨fun c hc => ?_, hfields⟩)
  cases hfirst : entity.fields with
  | nil =>
      rw [hfirst] at hc
      obtain rfl := Option.some.inj hc
      exact hcomplete
  | cons field fields =>
      rw [hfirst] at hc
      obtain rfl := Option.some.inj hc
      exact hfield field.1

theorem joined_response (response : Response) (method : HttpMethod) :
    joined (response.calls method) = response.calls method := by
  rw [Response.calls, List.append_assoc]
  exact merge_eq_self (isChain_message response.entity method rfl (fun _ => rfl) rfl)

theorem joined_request (request : Request) : joined request.calls = request.calls := by
  rw [Request.calls, List.append_assoc]
  exact merge_eq_self (isChain_message request.entity request.method rfl (fun _ => rfl) rfl)

end Pieces

/-! ## Responses in chunks -/

section Replies

variable {encodeKey : Bytes → Bytes} {parser last : HttpParser} {segments : List Bytes}
  {calls : List Call}

theorem outputs_of_feeds {n : ℕ} (h : Feeds parser segments calls n last)
    (hn : n = segments.flatten.length) :
    (vendored encodeKey).reported parser segments = calls.map Call.callback ∧
      ((vendored encodeKey).outputs parser segments).map Prod.snd = segments.map List.length := by
  induction h with
  | last hexecute =>
      rw [List.flatten_cons, List.flatten_nil, List.append_nil] at hn
      simp [Externals.reported, Externals.outputs, vendored, hexecute, hn]
  | @more parser last data executed segments calls n hexecute hnparsed hok hfeeds ih =>
      rw [List.flatten_cons, List.length_append] at hn
      obtain ⟨hreported, htaken⟩ := ih (by omega)
      rw [Externals.reported] at hreported
      have hrun : (vendored encodeKey).httpParserExecute parser data =
          ⟨executed.calls.map Call.callback, executed.nparsed, executed.parser⟩ := by
        simp only [vendored, hexecute]
      rw [Externals.reported, Externals.outputs, hrun]
      simp only [List.flatMap_cons, List.map_cons, hreported, htaken, hnparsed, List.map_append,
        and_self]

theorem outputs_append {σ : Type} (lib : Externals σ) (st : σ) (chunks later : List Bytes) :
    ∃ more, lib.outputs st (chunks ++ later) = lib.outputs st chunks ++ more ∧
      more.length = later.length := by
  induction chunks generalizing st with
  | nil =>
      refine ⟨lib.outputs st later, rfl, ?_⟩
      induction later generalizing st with
      | nil => rfl
      | cons data later ih => exact congrArg (· + 1) (ih _)
  | cons data chunks ih =>
      obtain ⟨more, houtputs, hlength⟩ := ih (lib.httpParserExecute st data).parser
      exact ⟨more, congrArg (_ :: ·) houtputs, hlength⟩

/-- What a part of the chunks brings is the beginning of what all of them bring. -/
theorem streams_of_all {σ : Type} {lib : Externals σ} {reply : Reply} {chunks later : List Bytes}
    (hreported : lib.reported lib.httpParserInit (chunks ++ later) = reply.callbacks)
    (htaken : (lib.outputs lib.httpParserInit (chunks ++ later)).map Prod.snd =
      (chunks ++ later).map List.length) :
    Streams lib reply chunks := by
  obtain ⟨more, houtputs, hlength⟩ := outputs_append lib lib.httpParserInit chunks later
  rw [houtputs, List.map_append, List.map_append] at htaken
  rw [Externals.reported, houtputs, List.flatMap_append] at hreported
  have hsizes : (more.map Prod.snd).length = (later.map List.length).length := by
    rw [List.length_map, List.length_map, hlength]
  exact ⟨⟨_, hreported⟩, fun _ => (List.append_inj' htaken hsizes).1⟩

/-- The pieces of a message, of which those of its first line are left. -/
theorem spread_message {call : Call} {entity : Entity} {method : HttpMethod}
    (h : Spread joinCalls calls (.messageBegin :: call :: (entity.fields.flatMap fieldCalls ++
      .headersComplete :: entity.content.calls method))) :
    ∃ (first : List Call) (headers : List HeaderPieces) (body : BodyPieces),
      JoinsTo joinCalls first call ∧
      calls.map Call.callback =
        .messageBegin :: first.map Call.callback ++ headers.flatMap HeaderPieces.callbacks ++
          .headersComplete :: (body.callbacks ++ [.messageComplete method]) ∧
      headers.map HeaderPieces.whole = entity.fields ∧ (∀ h ∈ headers, h.name ≠ []) ∧
      body.content = entity.content.body ∧
      body.trailers.map HeaderPieces.whole = entity.content.trailers := by
  obtain ⟨begins, behind, rfl, hbegins, hbehind⟩ := spread_cons h
  obtain ⟨first, behind, rfl, hfirst, hbehind⟩ := spread_cons hbehind
  obtain ⟨fields, behind, rfl, hfields, hbehind⟩ := spread_append hbehind
  obtain ⟨complete, content, rfl, hcomplete, hcontent⟩ := spread_cons hbehind
  obtain rfl := joinsTo_whole hbegins (notification_ne (by simp))
  obtain rfl := joinsTo_whole hcomplete (notification_ne (by simp))
  obtain ⟨headers, hheaders, hwhole, hnamed⟩ := spread_fields hfields
  obtain ⟨body, hbody, hdata, htrailers⟩ := spread_content hcontent
  refine ⟨first, headers, body, hfirst, ?_, hwhole, hnamed, hdata, htrailers⟩
  rw [List.map_append, List.map_append, List.map_append, List.map_append, hheaders, hbody]
  simp [Call.callback]

theorem spread_response {response : Response} {method : HttpMethod}
    (h : Spread joinCalls calls (response.calls method)) :
    ∃ reply : Reply, calls.map Call.callback = reply.callbacks ∧ Carries reply response := by
  rw [Response.calls, List.append_assoc] at h
  obtain ⟨status, headers, body, hstatus, hcalls, hheaders, hnamed, hdata, htrailers⟩ :=
    spread_message h
  have hpos : 0 < status.length := List.length_pos_of_ne_nil (joinsTo_ne_nil hstatus)
  have hcodes : status.map Call.callback =
      List.replicate status.length (.status response.code) := by
    obtain ⟨reason, rfl, -⟩ :=
      joinsTo_pieces { HttpParser.init .both with status_code := response.code } .status hstatus
    rw [List.map_map, List.length_map]
    exact List.map_const'
  refine ⟨⟨response.code, status.length, headers, body, method, hpos, hnamed⟩, ?_, rfl, hheaders,
    hdata, htrailers⟩
  rw [hcalls, hcodes, Reply.callbacks, Reply.front, Reply.head]
  simp

theorem spread_request {request : Request} (h : Spread joinCalls calls request.calls) :
    ∃ d : Delivery, calls.map Call.callback = d.callbacks ∧ Conveys d request := by
  rw [Request.calls, List.append_assoc] at h
  obtain ⟨urls, headers, body, hurls, hcalls, hheaders, -, hdata, htrailers⟩ := spread_message h
  obtain ⟨url, rfl, hurl⟩ := joinsTo_pieces (.init .both) .url hurls
  refine ⟨⟨request.method, url, headers, body⟩, ?_, rfl, hurl, hheaders, hdata, htrailers⟩
  rw [hcalls, List.map_map]
  rfl

/-- What is reported of a text that leads somewhere, cut into segments. -/
theorem reported_of_leads (encodeKey : Bytes → Bytes) {text : Bytes} {target : List Call}
    (h : Leads (.init .both) text target last) (htarget : joined target = target)
    (hempty : text ≠ []) (hall : ∀ data ∈ segments, data ≠ []) (htext : segments.flatten = text)
    (hlength : text.length < 2 ^ 31) :
    ∃ calls, Spread joinCalls calls target ∧
      (vendored encodeKey).reported (.init .both) segments = calls.map Call.callback ∧
      ((vendored encodeKey).outputs (.init .both) segments).map Prod.snd =
        segments.map List.length := by
  have hne : segments ≠ [] := by
    rintro rfl
    exact hempty htext.symm
  obtain ⟨calls, hfeeds, hcalls, -⟩ := h.feeds (sound_init .both) hne hall htext hlength
  rw [htarget] at hcalls
  refine ⟨calls, ?_, outputs_of_feeds hfeeds (congrArg List.length htext.symm)⟩
  rw [← hcalls]
  exact spread_merge calls

theorem exists_reply (encodeKey : Bytes → Bytes) (response : Response)
    (hn : response.head.length + 2 ≤ maxHeaderSize) (hall : ∀ data ∈ segments, data ≠ [])
    (htext : segments.flatten = response.text) (hlength : response.text.length < 2 ^ 31) :
    ∃ reply : Reply, Carries reply response ∧
      (vendored encodeKey).reported (.init .both) segments = reply.callbacks ∧
      ((vendored encodeKey).outputs (.init .both) segments).map Prod.snd =
        segments.map List.length := by
  obtain ⟨last, hleads, -⟩ :=
    @response_leads (.init .both) 0 response (.inr rfl) (by decide) (by rwa [Nat.zero_add])
  obtain ⟨calls, hspread, hreported, htaken⟩ :=
    reported_of_leads encodeKey hleads (joined_response response _) (by simp [Response.text]) hall
      htext hlength
  obtain ⟨reply, hreply, hcarries⟩ := spread_response hspread
  exact ⟨reply, hcarries, hreported.trans hreply, htaken⟩

theorem exists_delivery (encodeKey : Bytes → Bytes) (request : Request)
    (hn : request.head.length + 2 ≤ maxHeaderSize) (hall : ∀ data ∈ segments, data ≠ [])
    (htext : segments.flatten = request.text) (hlength : request.text.length < 2 ^ 31) :
    ∃ d : Delivery, Conveys d request ∧
      (vendored encodeKey).reported (.init .both) segments = d.callbacks ∧
      ((vendored encodeKey).outputs (.init .both) segments).map Prod.snd =
        segments.map List.length := by
  obtain ⟨last, hleads, -⟩ :=
    @request_leads (.init .both) 0 request (.inr rfl) (by rwa [Nat.zero_add])
  obtain ⟨calls, hspread, hreported, htaken⟩ :=
    reported_of_leads encodeKey hleads (joined_request request) (by simp [Request.text]) hall
      htext hlength
  obtain ⟨d, hd, hconveys⟩ := spread_request hspread
  exact ⟨d, hconveys, hreported.trans hd, htaken⟩

/-- A response is reported in pieces of it in whatever chunks it arrives, or as many of them as
arrive. -/
theorem response_streams (encodeKey : Bytes → Bytes) (response : Response)
    {chunks later : List Bytes} (hn : response.head.length + 2 ≤ maxHeaderSize)
    (hall : ∀ data ∈ chunks ++ later, data ≠ [])
    (htext : (chunks ++ later).flatten = response.text) (hlength : response.text.length < 2 ^ 31) :
    ∃ reply : Reply, Carries reply response ∧ Streams (vendored encodeKey) reply chunks ∧
      (vendored encodeKey).reported (.init .both) (chunks ++ later) = reply.callbacks := by
  obtain ⟨reply, hof, hreported, htaken⟩ := exists_reply encodeKey response hn hall htext hlength
  exact ⟨reply, hof, streams_of_all hreported htaken, hreported⟩

theorem response_streams_sample :
    ∃ reply : Reply, Carries reply sampleResponse ∧
      Streams (vendored id) reply [sampleResponse.text.take 20] ∧
      (vendored id).reported (.init .both)
        ([sampleResponse.text.take 20] ++ [sampleResponse.text.drop 20]) = reply.callbacks :=
  response_streams id sampleResponse (by decide) (by decide) (by decide) (by decide)

end Replies

end LibConn.Parser
