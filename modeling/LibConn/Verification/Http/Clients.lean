import LibConn.Verification.Http.Calls
import LibConn.Verification.Http.Replies

/-! # Responses to the clients

Both clients take a response for finished when `isComplete` says so, which is also the case
at the end of its headers. The one that waits has more ways to report success early, and what
it leaves in its parser meets the next response. -/

namespace LibConn.Http

open LibConn.Run

variable {σ : Type}

/-! ## Statements -/

/-- What `http_parser` does with the chunks, one after another: the callbacks it makes and the
number it returns. -/
def Externals.outputs (lib : Externals σ) : σ → List Bytes → List (List Callback × ℕ)
  | _, [] => []
  | st, data :: chunks =>
      let execution := lib.httpParserExecute st data
      (execution.callbacks, execution.nparsed) :: lib.outputs execution.parser chunks

def Externals.parserFrom (lib : Externals σ) (st : σ) (chunks : List Bytes) : σ :=
  chunks.foldl (fun parser data => (lib.httpParserExecute parser data).parser) st

def Externals.reported (lib : Externals σ) (st : σ) (chunks : List Bytes) : List Callback :=
  (lib.outputs st chunks).flatMap Prod.fst

/-- Behind the callbacks `cs` of a response, the chunks bring no others than those that are
left of it; when nothing is left, they have been taken whole. -/
structure StreamsFrom (lib : Externals σ) (reply : Reply) (st : σ) (cs : List Callback)
    (chunks : List Bytes) : Prop where
  reported : cs ++ lib.reported st chunks <+: reply.callbacks
  taken : cs ++ lib.reported st chunks = reply.callbacks →
    (lib.outputs st chunks).map Prod.snd = chunks.map List.length

/-- What `http_parser` is assumed to do with the chunks of a response, all of them or as many
as arrive. -/
def Streams (lib : Externals σ) (reply : Reply) (chunks : List Bytes) : Prop :=
  StreamsFrom lib reply lib.httpParserInit [] chunks

/-- The chunks that the passes of the loop receive. -/
def chunksOf (recvs : List Recv) : List Bytes :=
  (recvs.map Recv.data).filter (· ≠ [])

def readsOf (actions : List TaskAction) : List Bytes :=
  actions.filterMap fun
    | .read data => some data
    | .ioClose => none

/-- `resp` holds a response, over what it held before: the status, the body and every header. What
else it may hold has names from trailers. -/
structure Holds (before : HttpResponse) (reply : Reply) (resp : HttpResponse) : Prop where
  status_code : resp.status_code = reply.status_code
  body : resp.body = before.body ++ reply.body.content
  headers : ∃ trailers : List (Bytes × Bytes),
    (∀ it ∈ trailers, it.1 ∈ reply.body.trailers.flatMap HeaderPieces.name) ∧
      resp.headers =
        setAll (setAll before.headers (reply.headers.map HeaderPieces.whole)) trailers

/-- `exec` returns 0 only when the whole response has been parsed into `resp`. -/
def Truthful (before : HttpResponse) (reply : Reply) (e : Exec σ) : Prop :=
  e.result = some 0 → e.callbacks = reply.callbacks ∧ Holds before reply e.mParser.resp

/-- The callback is called once, when the whole response has been parsed, and with it. -/
structure CalledBack (fresh : Uninitialised) (reply : Reply) (task : HttpTask σ) : Prop where
  once : task.cb.length = if task.callbacks = reply.callbacks then 1 else 0
  whole : ∀ resp ∈ task.cb, Holds (.new fresh) reply resp

/-- The callbacks that a chunk causes. -/
def HttpParser.callbacksFor (lib : Externals σ) (hp : HttpParser σ) (data : Bytes) :
    List Callback :=
  (lib.httpParserExecute hp.parser data).callbacks

/-- `http_parser` takes a chunk whole. -/
def HttpParser.Takes (lib : Externals σ) (hp : HttpParser σ) (data : Bytes) : Prop :=
  (lib.httpParserExecute hp.parser data).nparsed = data.length

/-- A pass that does not time out, that is not interrupted before the first callback while an
earlier response has left the state complete, and whose chunk ends neither between the
headers and the body nor, with that state, before the first callback; and if it is the last one of
the response, the cuts in the names of headers make no difference. -/
structure Exec.Patient (lib : Externals σ) (before : HttpResponse) (reply : Reply) (e : Exec σ)
    (r : Recv) : Prop where
  inTime : r.data = [] → r.timedOut = false
  begun : r.data = [] → r.interrupted = true → e.mParser.state ≠ .messageComplete
  bodyInSight : r.data ≠ [] → e.mParser.Takes lib r.data →
    ¬ AwaitsBody (e.callbacks ++ e.mParser.callbacksFor lib r.data)
  stirred : r.data ≠ [] → e.mParser.Takes lib r.data →
    e.callbacks ++ e.mParser.callbacksFor lib r.data = [] → e.mParser.state ≠ .messageComplete
  sameValues : r.data ≠ [] → e.callbacks ++ e.mParser.callbacksFor lib r.data = reply.callbacks →
    SameValues before.headers reply.headers

/-- No read ends between the headers and the body; and if it is the last one of the response, the
cuts in the names of headers make no difference. -/
def HttpTask.BodyInSight (lib : Externals σ) (reply : Reply) (task : HttpTask σ) :
    TaskAction → Prop
  | .read data =>
      (task.parser.Takes lib data →
        ¬ AwaitsBody (task.callbacks ++ task.parser.callbacksFor lib data)) ∧
      (task.callbacks ++ task.parser.callbacksFor lib data = reply.callbacks →
        SameValues .empty reply.headers)
  | .ioClose => True

/-- The two states of `http_parser` cannot be told apart. -/
def Alike (lib : Externals σ) (st st' : σ) : Prop :=
  ∀ chunks, lib.outputs st chunks = lib.outputs st' chunks

/-- The parser of a client starts at a message boundary, like a new one. -/
structure AtBoundary (lib : Externals σ) (hp : HttpParser σ) : Prop where
  parser : Alike lib hp.parser lib.httpParserInit
  parser_type : hp.parser_type = .response
  pending : NothingPending hp.toHttpParserData

/-- A call of `send` with the response of the server; `keepAlive` is what
`http_should_keep_alive` says of it. -/
structure Exchange extends SendCall where
  reply : Reply
  keepAlive : Bool

/-- What `http_parser` is assumed to do with the response: after one that lets the connection
go on, it is as new. -/
structure Exchange.Documented (lib : Externals σ) (x : Exchange) : Prop where
  streams : Streams lib x.reply (chunksOf x.recvs)
  reusable : x.keepAlive = true →
    lib.reported lib.httpParserInit (chunksOf x.recvs) = x.reply.callbacks →
      Alike lib (lib.parserFrom lib.httpParserInit (chunksOf x.recvs)) lib.httpParserInit

/-- Nothing was received, or all of a response that lets the connection go on and leaves no
part of a header behind. -/
def Exchange.Concluded (lib : Externals σ) (x : Exchange) : Prop :=
  x.sent = false ∨
    (lib.reported lib.httpParserInit (chunksOf x.recvs) = x.reply.callbacks ∧
      x.keepAlive = true ∧ x.reply.Named ∧ x.reply.body.trailers = [])

/-- The first pass of the loop gets on with the response, or leaves the loop. -/
def Exchange.Prompt (lib : Externals σ) (x : Exchange) : Prop :=
  ∀ r, x.recvs.head? = some r →
    if r.data = [] then r.timedOut = true ∨ r.interrupted = false
    else (lib.httpParserExecute lib.httpParserInit r.data).callbacks ≠ []

/-- What the caller of `send` sees. -/
def HttpClient.outcome (lib : Externals σ) (client : HttpClient σ) (x : Exchange) :
    Option (ℤ × HttpResponse) :=
  (client.send lib x.toSendCall).map fun sent => (sent.result, sent.resp)

/-- One call of `send` after another. -/
def HttpClient.sendNext (lib : Externals σ) (client : HttpClient σ) (x : Exchange) :
    Option (HttpClient σ) :=
  (client.send lib x.toSendCall).map Sent.client

/-! ## A stream of chunks -/

section Streams

variable {lib : Externals σ} {reply : Reply} {st st' : σ} {cs : List Callback} {data : Bytes}
  {chunks : List Bytes}

theorem reported_cons (lib : Externals σ) (st : σ) (data : Bytes) (chunks : List Bytes) :
    lib.reported st (data :: chunks) = (lib.httpParserExecute st data).callbacks ++
      lib.reported (lib.httpParserExecute st data).parser chunks := by
  rw [Externals.reported, Externals.outputs, List.flatMap_cons]
  rfl

theorem StreamsFrom.next (h : StreamsFrom lib reply st cs (data :: chunks)) :
    StreamsFrom lib reply (lib.httpParserExecute st data).parser
      (cs ++ (lib.httpParserExecute st data).callbacks) chunks := by
  obtain ⟨hreported, htaken⟩ := h
  rw [reported_cons, ← List.append_assoc] at hreported htaken
  exact ⟨hreported, fun hall => (List.cons.inj (htaken hall)).2⟩

theorem StreamsFrom.part (h : StreamsFrom lib reply st cs chunks) : cs <+: reply.callbacks :=
  (List.prefix_append cs _).trans h.reported

theorem StreamsFrom.taken_last (h : StreamsFrom lib reply st cs (data :: chunks))
    (hall : cs ++ (lib.httpParserExecute st data).callbacks = reply.callbacks) :
    (lib.httpParserExecute st data).nparsed = data.length := by
  obtain ⟨hreported, htaken⟩ := h
  rw [reported_cons, ← List.append_assoc, hall] at hreported htaken
  have hrest : reply.callbacks ++
      lib.reported (lib.httpParserExecute st data).parser chunks = reply.callbacks :=
    (hreported.eq_of_length_le (by rw [List.length_append]; exact Nat.le_add_right _ _))
  exact (List.cons.inj (htaken hrest)).1

theorem Alike.reported (h : Alike lib st st') (chunks : List Bytes) :
    lib.reported st chunks = lib.reported st' chunks :=
  congrArg (List.flatMap Prod.fst) (h chunks)

theorem Alike.execute (h : Alike lib st st') (data : Bytes) :
    (lib.httpParserExecute st data).callbacks = (lib.httpParserExecute st' data).callbacks ∧
      (lib.httpParserExecute st data).nparsed = (lib.httpParserExecute st' data).nparsed := by
  obtain ⟨hfirst, -⟩ := List.cons.inj (h [data])
  exact Prod.mk.inj hfirst

theorem Alike.next (h : Alike lib st st') (data : Bytes) :
    Alike lib (lib.httpParserExecute st data).parser (lib.httpParserExecute st' data).parser :=
  fun chunks => (List.cons.inj (h (data :: chunks))).2

theorem Alike.parserFrom (h : Alike lib st st') (chunks : List Bytes) :
    Alike lib (lib.parserFrom st chunks) (lib.parserFrom st' chunks) := by
  induction chunks generalizing st st' with
  | nil => exact h
  | cons data chunks ih => exact ih (h.next data)

theorem Alike.trans {st'' : σ} (h : Alike lib st st') (h' : Alike lib st' st'') :
    Alike lib st st'' :=
  fun chunks => (h chunks).trans (h' chunks)

theorem Streams.alike (h : Streams lib reply chunks) (halike : Alike lib st lib.httpParserInit) :
    StreamsFrom lib reply st [] chunks := by
  obtain ⟨hreported, htaken⟩ := h
  rw [← halike.reported] at hreported htaken
  rw [← halike chunks] at htaken
  exact ⟨hreported, htaken⟩

theorem chunksOf_none {r : Recv} (h : r.data = []) (recvs : List Recv) :
    chunksOf (r :: recvs) = chunksOf recvs := by
  rw [chunksOf, List.map_cons, List.filter_cons_of_neg (by simpa using h)]
  rfl

theorem chunksOf_some {r : Recv} (h : r.data ≠ []) (recvs : List Recv) :
    chunksOf (r :: recvs) = r.data :: chunksOf recvs := by
  rw [chunksOf, List.map_cons, List.filter_cons_of_pos (by simpa using h)]
  rfl

end Streams

/-! ## Whole responses -/

/-- What the callbacks of a whole response leave in `resp` is the response, if the cuts in its
fields make no difference. -/
theorem Holds.whole {hp : HttpParserData} {reply : Reply} (htype : hp.parser_type = .response)
    (hpending : NothingPending hp) (hsame : SameValues hp.resp.headers reply.headers) :
    Holds hp.resp reply (reply.callbacks.foldl onCallback hp).resp := by
  refine ⟨?_, ?_, ?_⟩
  · exact Reply.stored_status htype (List.prefix_refl _) reply.callbacks_length
  · rw [(foldl_body htype reply.callbacks).2, reply.bodyParts]
  · rw [← setAll_eq_iff.mpr hsame]
    exact reply.stored_headers htype hpending

theorem Holds.sameValues {hp : HttpParserData} (htype : hp.parser_type = .response)
    (hpending : NothingPending hp) {reply : Reply} (htrailers : reply.body.trailers = [])
    (h : Holds hp.resp reply (reply.callbacks.foldl onCallback hp).resp) :
    SameValues hp.resp.headers reply.headers := by
  have hnone : ∀ trailers : List (Bytes × Bytes),
      (∀ it ∈ trailers, it.1 ∈ reply.body.trailers.flatMap HeaderPieces.name) → trailers = [] := by
    intro trailers hnames
    rw [htrailers] at hnames
    exact List.eq_nil_iff_forall_not_mem.mpr fun it hit => List.not_mem_nil (hnames it hit)
  obtain ⟨trailers, hnames, hwhole⟩ := h.headers
  obtain ⟨trailers', hnames', hpieces⟩ := reply.stored_headers htype hpending
  rw [hnone trailers hnames] at hwhole
  rw [hnone trailers' hnames'] at hpieces
  exact setAll_eq_iff.mp (hpieces.symm.trans hwhole)

theorem atBoundary_new (lib : Externals σ) (fresh : Uninitialised) (resp : HttpResponse) :
    AtBoundary lib (.new lib fresh .response resp) :=
  ⟨fun _ => rfl, rfl, rfl, rfl⟩

theorem isComplete_iff (hp : HttpParserData) :
    isComplete hp = true ↔ hp.state = .messageComplete :=
  decide_eq_true_iff

/-! ## The loop -/

/-- The parser and the callbacks once `feedRecvData` has had the data. -/
def Exec.fed (lib : Externals σ) (e : Exec σ) (data : Bytes) : Exec σ :=
  { e with
    mParser := (e.mParser.feedRecvData lib data).2
    callbacks := e.callbacks ++ e.mParser.callbacksFor lib data }

section Loop

variable {lib : Externals σ} {e t : Exec σ} {r : Recv}

@[simp] theorem Exec.return_result (e : Exec σ) (result : ℤ) :
    (e.return result).result = some result :=
  rfl

theorem Exec.untilComplete_cases (e : Exec σ) :
    (e.mParser.state = .messageComplete ∧ e.untilComplete = e.return 0) ∨
      (e.mParser.state ≠ .messageComplete ∧ e.untilComplete = e) := by
  rw [Exec.untilComplete]
  by_cases hstate : e.mParser.state = .messageComplete
  · exact .inl ⟨hstate, if_pos ((isComplete_iff _).mpr hstate)⟩
  · exact .inr ⟨hstate, if_neg fun h => hstate ((isComplete_iff _).mp h)⟩

instance HttpParser.decidableTakes (lib : Externals σ) (hp : HttpParser σ) (data : Bytes) :
    Decidable (hp.Takes lib data) :=
  inferInstanceAs (Decidable (_ = _))

theorem Exec.recv_left {result : ℤ} (hresult : e.result = some result) (lib : Externals σ)
    (r : Recv) : e.recv lib r = none := by
  rw [Exec.recv, hresult]
  rfl

theorem Exec.recv_eq (hresult : e.result = none) (lib : Externals σ) (r : Recv) :
    e.recv lib r = some (
      if r.data = [] then
        if r.timedOut then e.return 0
        else if r.interrupted then e.untilComplete
        else e.return (-1)
      else if e.mParser.Takes lib r.data then (e.fed lib r.data).untilComplete
      else (e.fed lib r.data).return (-1)) := by
  have hgoes : ¬ e.result.isSome = true := by
    rw [hresult]
    decide
  rw [Exec.recv, if_neg hgoes]
  split_ifs with hdata htime hinterrupted htakes
  · rfl
  · rfl
  · rfl
  · exact if_neg (not_not.mpr htakes)
  · exact if_pos htakes

theorem Exec.recv_cases (h : e.recv lib r = some t) :
    e.result = none ∧
      ((r.data = [] ∧ r.timedOut = true ∧ t = e.return 0) ∨
        (r.data = [] ∧ r.timedOut = false ∧ r.interrupted = true ∧ t = e.untilComplete) ∨
        (r.data = [] ∧ r.timedOut = false ∧ r.interrupted = false ∧ t = e.return (-1)) ∨
        (r.data ≠ [] ∧ ¬ e.mParser.Takes lib r.data ∧ t = (e.fed lib r.data).return (-1)) ∨
        (r.data ≠ [] ∧ e.mParser.Takes lib r.data ∧ t = (e.fed lib r.data).untilComplete)) := by
  cases hresult : e.result with
  | some result =>
      rw [Exec.recv_left hresult] at h
      exact absurd h.symm (Option.some_ne_none t)
  | none =>
      rw [Exec.recv_eq hresult] at h
      obtain rfl := Option.some.inj h
      refine ⟨rfl, ?_⟩
      split_ifs with hdata htime hinterrupted htakes
      · exact .inl ⟨hdata, htime, rfl⟩
      · exact .inr (.inl ⟨hdata, Bool.eq_false_of_not_eq_true htime, hinterrupted, rfl⟩)
      · exact .inr (.inr (.inl ⟨hdata, Bool.eq_false_of_not_eq_true htime,
          Bool.eq_false_of_not_eq_true hinterrupted, rfl⟩))
      · exact .inr (.inr (.inr (.inr ⟨hdata, htakes, rfl⟩)))
      · exact .inr (.inr (.inr (.inl ⟨hdata, htakes, rfl⟩)))

theorem Exec.recv_parser (h : e.recv lib r = some t) :
    (r.data = [] → t.mParser = e.mParser ∧ t.callbacks = e.callbacks) ∧
      (r.data ≠ [] → t.mParser = (e.fed lib r.data).mParser ∧
        t.callbacks = (e.fed lib r.data).callbacks) := by
  have huntil : ∀ e : Exec σ,
      e.untilComplete.mParser = e.mParser ∧ e.untilComplete.callbacks = e.callbacks := by
    intro e
    rcases e.untilComplete_cases with ⟨-, h⟩ | ⟨-, h⟩ <;> rw [h] <;> exact ⟨rfl, rfl⟩
  obtain ⟨-, ⟨hdata, -, rfl⟩ | ⟨hdata, -, -, rfl⟩ | ⟨hdata, -, -, rfl⟩ | ⟨hdata, -, rfl⟩ |
    ⟨hdata, -, rfl⟩⟩ := Exec.recv_cases h
  · exact ⟨fun _ => ⟨rfl, rfl⟩, fun h => absurd hdata h⟩
  · exact ⟨fun _ => huntil e, fun h => absurd hdata h⟩
  · exact ⟨fun _ => ⟨rfl, rfl⟩, fun h => absurd hdata h⟩
  · exact ⟨fun h => absurd h hdata, fun _ => ⟨rfl, rfl⟩⟩
  · exact ⟨fun h => absurd h hdata, fun _ => huntil _⟩

theorem Exec.recv_goes_on (h : e.recv lib r = some t) (hresult : t.result = none) :
    t.mParser.state ≠ .messageComplete := by
  have huntil : ∀ e : Exec σ, e.untilComplete.result = none →
      e.untilComplete.mParser.state ≠ .messageComplete := by
    intro e hnone
    rcases e.untilComplete_cases with ⟨-, h⟩ | ⟨hstate, h⟩
    · rw [h] at hnone
      cases hnone
    · rw [h]
      exact hstate
  obtain ⟨-, ⟨-, -, rfl⟩ | ⟨-, -, -, rfl⟩ | ⟨-, -, -, rfl⟩ | ⟨-, -, rfl⟩ | ⟨-, -, rfl⟩⟩ :=
    Exec.recv_cases h
  · cases hresult
  · exact huntil e hresult
  · cases hresult
  · cases hresult
  · exact huntil _ hresult

theorem Exec.recv_zero_iff (h : e.recv lib r = some t) :
    t.result = some 0 ↔
      (r.data = [] ∧ (r.timedOut = true ∨
        (r.interrupted = true ∧ e.mParser.state = .messageComplete))) ∨
      (r.data ≠ [] ∧ e.mParser.Takes lib r.data ∧
        (e.fed lib r.data).mParser.state = .messageComplete) := by
  have huntil : ∀ e : Exec σ, e.result = none →
      (e.untilComplete.result = some 0 ↔ e.mParser.state = .messageComplete) := by
    intro e hnone
    rcases e.untilComplete_cases with ⟨hstate, h⟩ | ⟨hstate, h⟩ <;> rw [h]
    · exact ⟨fun _ => hstate, fun _ => rfl⟩
    · rw [hnone]
      exact ⟨fun h => absurd h.symm (Option.some_ne_none 0), fun h => absurd h hstate⟩
  obtain ⟨hnone, ⟨hdata, htime, rfl⟩ | ⟨hdata, htime, hinterrupted, rfl⟩ |
    ⟨hdata, htime, hinterrupted, rfl⟩ | ⟨hdata, htakes, rfl⟩ | ⟨hdata, htakes, rfl⟩⟩ :=
    Exec.recv_cases h
  · exact ⟨fun _ => .inl ⟨hdata, .inl htime⟩, fun _ => rfl⟩
  · rw [huntil e hnone]
    simp [hdata, htime, hinterrupted]
  · simp [hdata, htime, hinterrupted]
  · simp [hdata, htakes]
  · rw [huntil (e.fed lib r.data) hnone]
    simp [hdata, htakes]

end Loop

/-- `exec` at work on a response, with the passes it has still to take. -/
structure Underway (lib : Externals σ) (client : HttpClient σ) (before : HttpResponse)
    (reply : Reply) (e : Exec σ) (recvs : List Recv) : Prop where
  stream : StreamsFrom lib reply e.mParser.parser e.callbacks (chunksOf recvs)
  data : e.mParser.toHttpParserData =
    e.callbacks.foldl onCallback (client.exec before).mParser.toHttpParserData
  going : e.result = none → e.callbacks ≠ [] → e.mParser.state ≠ .messageComplete

theorem Reply.callbacks_ne_nil (reply : Reply) : reply.callbacks ≠ [] :=
  List.concat_ne_nil _ _

section Underway

variable {lib : Externals σ} {client : HttpClient σ} {before : HttpResponse} {reply : Reply}
  {e t : Exec σ} {r : Recv} {recvs : List Recv}

theorem underway_exec (hclient : AtBoundary lib client.mParser)
    (hstream : Streams lib reply (chunksOf recvs)) :
    Underway lib client before reply (client.exec before) recvs where
  stream := hstream.alike hclient.parser
  data := rfl
  going := fun _ hne => absurd rfl hne

theorem AtBoundary.initHttpResponse (hclient : AtBoundary lib client.mParser)
    (before : HttpResponse) :
    (client.exec before).mParser.parser_type = .response ∧
      NothingPending (client.exec before).mParser.toHttpParserData :=
  ⟨hclient.parser_type, hclient.pending.header_field, hclient.pending.header_value⟩

/-- The members once `http_parser` has seen a chunk. -/
theorem Underway.fed (h : Underway lib client before reply e recvs) (data : Bytes) :
    (e.fed lib data).mParser.toHttpParserData = (e.fed lib data).callbacks.foldl onCallback
      (client.exec before).mParser.toHttpParserData := by
  change (e.mParser.callbacksFor lib data).foldl onCallback e.mParser.toHttpParserData =
    (e.callbacks ++ e.mParser.callbacksFor lib data).foldl onCallback _
  rw [List.foldl_append, h.data]

theorem Underway.recv (h : Underway lib client before reply e (r :: recvs))
    (ht : e.recv lib r = some t) : Underway lib client before reply t recvs := by
  obtain ⟨hnone, hsome⟩ := Exec.recv_parser ht
  by_cases hdata : r.data = []
  · obtain ⟨hparser, hcallbacks⟩ := hnone hdata
    refine ⟨?_, ?_, fun hresult _ => Exec.recv_goes_on ht hresult⟩
    · rw [hparser, hcallbacks, ← chunksOf_none hdata]
      exact h.stream
    · rw [hparser, hcallbacks]
      exact h.data
  · obtain ⟨hparser, hcallbacks⟩ := hsome hdata
    have hstream := h.stream
    rw [chunksOf_some hdata] at hstream
    refine ⟨?_, ?_, fun hresult _ => Exec.recv_goes_on ht hresult⟩
    · rw [hparser, hcallbacks]
      exact hstream.next
    · rw [hparser, hcallbacks]
      exact h.fed r.data

theorem Underway.fed_complete_iff (h : Underway lib client before reply e (r :: recvs))
    (hdata : r.data ≠ []) :
    (e.fed lib r.data).mParser.state = .messageComplete ↔
      (AwaitsBody (e.fed lib r.data).callbacks ∨
        ((e.fed lib r.data).callbacks = [] ∧ e.mParser.state = .messageComplete)) ∨
      (e.fed lib r.data).callbacks = reply.callbacks := by
  have hstream := h.stream
  rw [chunksOf_some hdata] at hstream
  have hbegins : (e.fed lib r.data).callbacks <+: reply.callbacks := hstream.next.part
  by_cases hne : (e.fed lib r.data).callbacks = []
  · have hsame : (e.fed lib r.data).mParser.state = e.mParser.state := by
      obtain ⟨hbefore, -⟩ := List.append_eq_nil_iff.mp hne
      rw [h.fed, hne, h.data, hbefore]
    rw [hsame, hne]
    constructor
    · exact fun hstate => .inl (.inr ⟨rfl, hstate⟩)
    · rintro ((hawaits | ⟨-, hstate⟩) | hwhole)
      · obtain ⟨head, chunks, hnil, -⟩ := hawaits
        exact absurd hnil.symm (List.append_ne_nil_of_right_ne_nil head (List.cons_ne_nil _ _))
      · exact hstate
      · exact absurd hwhole.symm reply.callbacks_ne_nil
  · rw [h.fed, Reply.complete_iff hbegins hne]
    constructor
    · exact Or.imp_left .inl
    · rintro ((hawaits | ⟨hnil, -⟩) | hwhole)
      · exact .inl hawaits
      · exact absurd hnil hne
      · exact .inr hwhole

theorem Underway.not_whole (h : Underway lib client before reply e recvs)
    (hresult : e.result = none) : e.callbacks ≠ reply.callbacks := by
  intro hwhole
  have hne : e.callbacks ≠ [] := hwhole ▸ reply.callbacks_ne_nil
  refine h.going hresult hne ?_
  rw [h.data]
  exact (Reply.complete_iff h.stream.part hne _).mpr (.inr hwhole)

theorem Underway.truthful (hclient : AtBoundary lib client.mParser)
    (h : Underway lib client before reply e (r :: recvs)) (ht : e.recv lib r = some t)
    (hpatient : e.Patient lib before reply r) : Truthful before reply t := by
  intro hzero
  rcases (Exec.recv_zero_iff ht).mp hzero with ⟨hdata, htime | ⟨hinterrupted, hstate⟩⟩ |
    ⟨hdata, htakes, hstate⟩
  · rw [hpatient.inTime hdata] at htime
    cases htime
  · exact absurd hstate (hpatient.begun hdata hinterrupted)
  · rcases (h.fed_complete_iff hdata).mp hstate with (hawaits | ⟨hnil, hstate⟩) | hwhole
    · exact absurd hawaits (hpatient.bodyInSight hdata htakes)
    · exact absurd hstate (hpatient.stirred hdata htakes hnil)
    · obtain ⟨hparser, hcallbacks⟩ := (Exec.recv_parser ht).2 hdata
      rw [hparser, hcallbacks, h.fed, hwhole]
      obtain ⟨htype, hpending⟩ := hclient.initHttpResponse before
      exact ⟨rfl, Holds.whole htype hpending (hpatient.sameValues hdata hwhole)⟩

theorem Underway.patient (hclient : AtBoundary lib client.mParser)
    (h : Underway lib client before reply e (r :: recvs)) (ht : e.recv lib r = some t)
    (htrailers : reply.body.trailers = []) (htruthful : Truthful before reply t) :
    e.Patient lib before reply r := by
  have hpart := h.not_whole (Exec.recv_cases ht).1
  obtain ⟨hkeeps, hfeeds⟩ := Exec.recv_parser ht
  refine ⟨fun hdata => ?_, fun hdata hinterrupted hstate => ?_, fun hdata htakes hawaits => ?_,
    fun hdata htakes hnil hstate => ?_, fun hdata hwhole => ?_⟩
  · by_contra htime
    have hzero := (Exec.recv_zero_iff ht).mpr
      (.inl ⟨hdata, .inl (Bool.eq_true_of_not_eq_false htime)⟩)
    exact hpart ((hkeeps hdata).2 ▸ (htruthful hzero).1)
  · have hzero := (Exec.recv_zero_iff ht).mpr (.inl ⟨hdata, .inr ⟨hinterrupted, hstate⟩⟩)
    exact hpart ((hkeeps hdata).2 ▸ (htruthful hzero).1)
  · have hstate := (h.fed_complete_iff hdata).mpr (.inl (.inl hawaits))
    have hzero := (Exec.recv_zero_iff ht).mpr (.inr ⟨hdata, htakes, hstate⟩)
    have hwhole : (e.fed lib r.data).callbacks = reply.callbacks :=
      (hfeeds hdata).2 ▸ (htruthful hzero).1
    exact reply.not_awaitsBody (hwhole ▸ hawaits)
  · have hstate := (h.fed_complete_iff hdata).mpr (.inl (.inr ⟨hnil, hstate⟩))
    have hzero := (Exec.recv_zero_iff ht).mpr (.inr ⟨hdata, htakes, hstate⟩)
    have hwhole : (e.fed lib r.data).callbacks = reply.callbacks :=
      (hfeeds hdata).2 ▸ (htruthful hzero).1
    exact reply.callbacks_ne_nil (hwhole.symm.trans hnil)
  · have hstream := h.stream
    rw [chunksOf_some hdata] at hstream
    have hstate := (h.fed_complete_iff hdata).mpr (.inr hwhole)
    have hzero := (Exec.recv_zero_iff ht).mpr (.inr ⟨hdata, hstream.taken_last hwhole, hstate⟩)
    have hholds := (htruthful hzero).2
    have hwhole' : (e.fed lib r.data).callbacks = reply.callbacks := hwhole
    rw [(hfeeds hdata).1, h.fed, hwhole'] at hholds
    obtain ⟨htype, hpending⟩ := hclient.initHttpResponse before
    exact Holds.sameValues htype hpending htrailers hholds

theorem truthful_along (hclient : AtBoundary lib client.mParser)
    (hstream : Streams lib reply (chunksOf recvs)) :
    (Meets (Exec.recv lib) (Exec.Patient lib before reply) (client.exec before) recvs →
      Along (Exec.recv lib) (Truthful before reply) (client.exec before) recvs) ∧
    (reply.body.trailers = [] →
      Along (Exec.recv lib) (Truthful before reply) (client.exec before) recvs →
        Meets (Exec.recv lib) (Exec.Patient lib before reply) (client.exec before) recvs) := by
  have hstart : Truthful before reply (client.exec before) := fun h => by cases h
  have hstep : ∀ e r recvs t,
      Underway lib client before reply e (r :: recvs) ∧ Truthful before reply e →
        e.Patient lib before reply r → e.recv lib r = some t →
          Underway lib client before reply t recvs ∧ Truthful before reply t :=
    fun e r recvs t h hpatient ht => ⟨h.1.recv ht, h.1.truthful hclient ht hpatient⟩
  have htold : ∀ e recvs, Underway lib client before reply e recvs ∧ Truthful before reply e →
      Truthful before reply e := fun _ _ => And.right
  have hbegin : Underway lib client before reply (client.exec before) recvs :=
    underway_exec hclient hstream
  refine ⟨along_of_meets_rest htold hstep ⟨hbegin, hstart⟩, fun htrailers => ?_⟩
  exact (along_iff_meets_rest htold hstep
    (fun e r recvs t h ht htruthful => h.1.patient hclient ht htrailers htruthful) recvs
    ⟨hbegin, hstart⟩).mp

end Underway

/-! ## The callback -/

/-- A task with the events that are still to come. -/
structure Pursued (lib : Externals σ) (fresh : Uninitialised) (reply : Reply)
    (task : HttpTask σ) (actions : List TaskAction) : Prop where
  keepalive : task.keepalive = false
  data : task.parser.toHttpParserData =
    task.callbacks.foldl onCallback (HttpTask.new lib fresh).parser.toHttpParserData
  stream : task.closed = false →
    StreamsFrom lib reply task.parser.parser task.callbacks (readsOf actions)
  isOpen : task.closed = false → task.cb = [] ∧ task.callbacks ≠ reply.callbacks

/-- The task once `feedRecvData` has had the data. -/
def HttpTask.fed (lib : Externals σ) (task : HttpTask σ) (data : Bytes) : HttpTask σ :=
  { task with
    parser := (task.parser.feedRecvData lib data).2
    callbacks := task.callbacks ++ task.parser.callbacksFor lib data }

section Pursued

variable {lib : Externals σ} {fresh : Uninitialised} {reply : Reply} {task t : HttpTask σ}
  {data : Bytes} {actions : List TaskAction}

theorem HttpTask.onread_cases (hkeepalive : task.keepalive = false) (data : Bytes) :
    (¬ task.parser.Takes lib data ∧
      task.onread lib data = { task.fed lib data with closed := true }) ∨
    (task.parser.Takes lib data ∧ (task.fed lib data).parser.state = .messageComplete ∧
      task.onread lib data = { task.fed lib data with
        cb := task.cb ++ [(task.fed lib data).parser.resp]
        closed := true }) ∨
    (task.parser.Takes lib data ∧ (task.fed lib data).parser.state ≠ .messageComplete ∧
      task.onread lib data = task.fed lib data) := by
  by_cases htakes : task.parser.Takes lib data
  · refine .inr ?_
    have hread : task.onread lib data =
        if isComplete (task.fed lib data).parser.toHttpParserData then
          { task.fed lib data with
            cb := task.cb ++ [(task.fed lib data).parser.resp]
            closed := true }
        else task.fed lib data := by
      obtain ⟨parser, callbacks, keepalive, closed, cb⟩ := task
      obtain rfl : keepalive = false := hkeepalive
      exact if_neg (not_not.mpr htakes)
    rw [hread]
    by_cases hstate : (task.fed lib data).parser.state = .messageComplete
    · exact .inl ⟨htakes, hstate, if_pos ((isComplete_iff _).mpr hstate)⟩
    · exact .inr ⟨htakes, hstate, if_neg fun h => hstate ((isComplete_iff _).mp h)⟩
  · exact .inl ⟨htakes, if_pos htakes⟩

theorem pursued_new (hstream : Streams lib reply (readsOf actions)) :
    Pursued lib fresh reply (.new lib fresh) actions where
  keepalive := rfl
  data := rfl
  stream := fun _ => hstream
  isOpen := fun _ => ⟨rfl, reply.callbacks_ne_nil.symm⟩

theorem Pursued.fed (h : Pursued lib fresh reply task actions) (data : Bytes) :
    (task.fed lib data).parser.toHttpParserData = (task.fed lib data).callbacks.foldl onCallback
      (HttpTask.new lib fresh).parser.toHttpParserData := by
  change (task.parser.callbacksFor lib data).foldl onCallback task.parser.toHttpParserData =
    (task.callbacks ++ task.parser.callbacksFor lib data).foldl onCallback _
  rw [List.foldl_append, h.data]

theorem HttpTask.step_read (ht : task.step lib (.read data) = some t) :
    task.closed = false ∧ t = task.onread lib data := by
  simp only [HttpTask.step] at ht
  split_ifs at ht with hclosed
  exact ⟨Bool.eq_false_of_not_eq_true hclosed, (Option.some.inj ht).symm⟩

theorem HttpTask.step_ioClose (ht : task.step lib .ioClose = some t) :
    t = { task with closed := true } := by
  simp only [HttpTask.step] at ht
  split_ifs at ht
  exact (Option.some.inj ht).symm

theorem Pursued.closed (hkeepalive : task.keepalive = false)
    (hdata : task.parser.toHttpParserData =
      task.callbacks.foldl onCallback (HttpTask.new lib fresh).parser.toHttpParserData)
    (hclosed : task.closed = true) : Pursued lib fresh reply task actions where
  keepalive := hkeepalive
  data := hdata
  stream := fun hopen => absurd (hclosed.symm.trans hopen) (by decide)
  isOpen := fun hopen => absurd (hclosed.symm.trans hopen) (by decide)

theorem Pursued.fed_complete_iff (h : Pursued lib fresh reply task (.read data :: actions))
    (hopen : task.closed = false) :
    (task.fed lib data).parser.state = .messageComplete ↔
      AwaitsBody (task.fed lib data).callbacks ∨
        (task.fed lib data).callbacks = reply.callbacks := by
  have hbegins : (task.fed lib data).callbacks <+: reply.callbacks := (h.stream hopen).next.part
  rw [h.fed]
  by_cases hne : (task.fed lib data).callbacks = []
  · rw [hne]
    constructor
    · intro hstate
      have hstart : (HttpTask.new lib fresh).parser.state ≠ .messageComplete := by
        change HttpParserState.startReqOrRes ≠ .messageComplete
        decide
      exact absurd hstate hstart
    · rintro (hawaits | hwhole)
      · exact hawaits.complete _
      · exact absurd hwhole.symm reply.callbacks_ne_nil
  · exact Reply.complete_iff hbegins hne _

theorem CalledBack.of_open (hcb : task.cb = []) (hpart : task.callbacks ≠ reply.callbacks) :
    CalledBack fresh reply task := by
  refine ⟨?_, fun resp hresp => ?_⟩
  · rw [hcb, if_neg hpart]
    rfl
  · rw [hcb] at hresp
    exact absurd hresp List.not_mem_nil

/-- After a read that does not end between the headers and the body the callback has been called
as it should. -/
theorem Pursued.read (h : Pursued lib fresh reply task (.read data :: actions))
    (hopen : task.closed = false) (hsight : task.BodyInSight lib reply (.read data)) :
    CalledBack fresh reply (task.onread lib data) ∧
      Pursued lib fresh reply (task.onread lib data) actions := by
  obtain ⟨hcb, hpart⟩ := h.isOpen hopen
  have hcomplete := h.fed_complete_iff hopen
  have hstream := h.stream hopen
  have hnew := atBoundary_new lib fresh (.new fresh)
  rcases task.onread_cases h.keepalive data with ⟨htakes, heq⟩ | ⟨htakes, hstate, heq⟩ |
    ⟨htakes, hstate, heq⟩
  · -- an error closes the channel; the response is not whole, since its end is accepted
    have hrest : (task.fed lib data).callbacks ≠ reply.callbacks :=
      fun hwhole => htakes (hstream.taken_last hwhole)
    rw [heq]
    exact ⟨CalledBack.of_open hcb hrest, .closed h.keepalive (h.fed data) rfl⟩
  · have hwhole := (hcomplete.mp hstate).resolve_left (hsight.1 htakes)
    rw [heq]
    refine ⟨⟨?_, fun resp hresp => ?_⟩, .closed h.keepalive (h.fed data) rfl⟩
    · rw [if_pos hwhole, hcb]
      rfl
    · rw [hcb] at hresp
      obtain rfl := List.mem_singleton.mp hresp
      rw [h.fed, hwhole]
      exact Holds.whole hnew.parser_type hnew.pending (hsight.2 hwhole)
  · have hrest := not_or.mp (mt hcomplete.mpr hstate)
    rw [heq]
    exact ⟨CalledBack.of_open hcb hrest.2,
      ⟨h.keepalive, h.fed data, fun _ => hstream.next, fun _ => ⟨hcb, hrest.2⟩⟩⟩

theorem Pursued.bodyInSight (h : Pursued lib fresh reply task (.read data :: actions))
    (hopen : task.closed = false) (htrailers : reply.body.trailers = [])
    (hcalled : CalledBack fresh reply (task.onread lib data)) :
    task.BodyInSight lib reply (.read data) := by
  obtain ⟨hcb, -⟩ := h.isOpen hopen
  have hcomplete := h.fed_complete_iff hopen
  have hnew := atBoundary_new lib fresh (.new fresh)
  rcases task.onread_cases h.keepalive data with ⟨htakes, -⟩ | ⟨htakes, hstate, heq⟩ |
    ⟨htakes, hstate, -⟩
  · exact ⟨fun htakes' => absurd htakes' htakes,
      fun hwhole => absurd ((h.stream hopen).taken_last hwhole) htakes⟩
  · rw [heq] at hcalled
    have hwhole : (task.fed lib data).callbacks = reply.callbacks := by
      by_contra hne
      have honce := hcalled.once
      rw [if_neg hne, hcb] at honce
      cases honce
    refine ⟨fun _ hawaits => reply.not_awaitsBody (hwhole ▸ hawaits), fun _ => ?_⟩
    have hholds := hcalled.whole _ (List.mem_append_right _ List.mem_cons_self)
    rw [h.fed, hwhole] at hholds
    exact Holds.sameValues hnew.parser_type hnew.pending htrailers hholds
  · have hrest := not_or.mp (mt hcomplete.mpr hstate)
    exact ⟨fun _ => hrest.1, fun hwhole => absurd hwhole hrest.2⟩

/-- The callback is called as it should when no read ends between the headers and the body, and
without trailers only then. -/
theorem calledBack_along (hstream : Streams lib reply (readsOf actions)) :
    (Meets (HttpTask.step lib) (HttpTask.BodyInSight lib reply) (.new lib fresh) actions →
      Along (HttpTask.step lib) (CalledBack fresh reply) (.new lib fresh) actions) ∧
    (reply.body.trailers = [] →
      Along (HttpTask.step lib) (CalledBack fresh reply) (.new lib fresh) actions →
        Meets (HttpTask.step lib) (HttpTask.BodyInSight lib reply) (.new lib fresh) actions) := by
  have hstart : CalledBack fresh reply (.new lib fresh) :=
    CalledBack.of_open rfl reply.callbacks_ne_nil.symm
  have hstep : ∀ task a actions t,
      Pursued lib fresh reply task (a :: actions) ∧ CalledBack fresh reply task →
        task.BodyInSight lib reply a → task.step lib a = some t →
          Pursued lib fresh reply t actions ∧ CalledBack fresh reply t := by
    intro task a actions t h hsight ht
    cases a with
    | read data =>
        obtain ⟨hopen, rfl⟩ := HttpTask.step_read ht
        exact (h.1.read hopen hsight).symm
    | ioClose =>
        obtain rfl := HttpTask.step_ioClose ht
        exact ⟨.closed h.1.keepalive h.1.data rfl, h.2.once, h.2.whole⟩
  have htold : ∀ task actions,
      Pursued lib fresh reply task actions ∧ CalledBack fresh reply task →
        CalledBack fresh reply task := fun _ _ => And.right
  have hbegin : Pursued lib fresh reply (.new lib fresh) actions := pursued_new hstream
  refine ⟨along_of_meets_rest htold hstep ⟨hbegin, hstart⟩, fun htrailers =>
    (along_iff_meets_rest htold hstep ?_ actions ⟨hbegin, hstart⟩).mp⟩
  intro task a actions t h ht hcalled
  cases a with
  | read data =>
      obtain ⟨hopen, rfl⟩ := HttpTask.step_read ht
      exact h.1.bodyInSight hopen htrailers hcalled
  | ioClose => trivial

end Pursued

/-! ## One call of `send` after another -/

/-- Two calls of `exec` that cannot be told apart from now on. -/
structure Indistinct (lib : Externals σ) (e e' : Exec σ) : Prop where
  parser : Alike lib e.mParser.parser e'.mParser.parser
  message : SameMessage e.mParser.toHttpParserData e'.mParser.toHttpParserData
  callbacks : e.callbacks = e'.callbacks
  result : e.result = e'.result
  state : e.callbacks ≠ [] → e.mParser.state = e'.mParser.state

/-- The first pass with a parser whose state is left over from an earlier response. -/
def PromptPass (lib : Externals σ) (e : Exec σ) (r : Recv) : Prop :=
  if r.data = [] then r.timedOut = true ∨ r.interrupted = false
  else ∃ rest, e.mParser.callbacksFor lib r.data = .messageBegin :: rest

section Indistinct

variable {lib : Externals σ} {e e' t : Exec σ} {r : Recv} {reply : Reply} {recvs : List Recv}

theorem Indistinct.return (h : Indistinct lib e e') (result : ℤ) :
    Indistinct lib (e.return result) (e'.return result) :=
  ⟨h.parser, h.message, h.callbacks, rfl, h.state⟩

theorem Indistinct.untilComplete (h : Indistinct lib e e')
    (hstate : e.mParser.state = e'.mParser.state) :
    Indistinct lib e.untilComplete e'.untilComplete := by
  rw [Exec.untilComplete, Exec.untilComplete, isComplete, isComplete, hstate]
  split_ifs
  · exact h.return 0
  · exact h

theorem Indistinct.takes_iff (h : Indistinct lib e e') (data : Bytes) :
    e.mParser.Takes lib data ↔ e'.mParser.Takes lib data := by
  rw [HttpParser.Takes, HttpParser.Takes, (h.parser.execute data).2]

theorem Indistinct.fed (h : Indistinct lib e e') (data : Bytes)
    (hbegins : e.callbacks = [] → ∃ rest, e.mParser.callbacksFor lib data = .messageBegin :: rest) :
    Indistinct lib (e.fed lib data) (e'.fed lib data) ∧
      (e.fed lib data).mParser.state = (e'.fed lib data).mParser.state := by
  have hnew : e.mParser.callbacksFor lib data = e'.mParser.callbacksFor lib data :=
    (h.parser.execute data).1
  have hstate : (e.fed lib data).mParser.state = (e'.fed lib data).mParser.state := by
    change ((e.mParser.callbacksFor lib data).foldl onCallback _).state =
      ((e'.mParser.callbacksFor lib data).foldl onCallback _).state
    rw [← hnew]
    by_cases hfirst : e.callbacks = []
    · obtain ⟨rest, hrest⟩ := hbegins hfirst
      rw [hrest]
      exact foldl_state rest rfl
    · exact foldl_state _ (h.state hfirst)
  refine ⟨⟨h.parser.next data, ?_, ?_, h.result, fun _ => hstate⟩, hstate⟩
  · change SameMessage ((e.mParser.callbacksFor lib data).foldl onCallback _)
      ((e'.mParser.callbacksFor lib data).foldl onCallback _)
    rw [← hnew]
    exact h.message.foldl _
  · change e.callbacks ++ e.mParser.callbacksFor lib data =
      e'.callbacks ++ e'.mParser.callbacksFor lib data
    rw [h.callbacks, hnew]

theorem Indistinct.recv (h : Indistinct lib e e')
    (hprompt : e.result = none → e.callbacks = [] → PromptPass lib e r) :
    Option.Rel (Indistinct lib) (e.recv lib r) (e'.recv lib r) := by
  cases hresult : e.result with
  | some result =>
      rw [Exec.recv_left hresult, Exec.recv_left (h.result ▸ hresult)]
      exact .none
  | none =>
      rw [Exec.recv_eq hresult, Exec.recv_eq (h.result ▸ hresult)]
      refine .some ?_
      by_cases hdata : r.data = []
      · rw [if_pos hdata, if_pos hdata]
        split_ifs with htime hinterrupted
        · exact h.return 0
        · refine h.untilComplete (h.state fun hfirst => ?_)
          have hpass := hprompt hresult hfirst
          rw [PromptPass, if_pos hdata, hinterrupted] at hpass
          exact hpass.elim htime (by decide)
        · exact h.return (-1)
      · rw [if_neg hdata, if_neg hdata]
        obtain ⟨hfed, hstate⟩ := h.fed r.data fun hfirst => by
          have hpass := hprompt hresult hfirst
          rwa [PromptPass, if_neg hdata] at hpass
        by_cases htakes : e.mParser.Takes lib r.data
        · rw [if_pos htakes, if_pos ((h.takes_iff r.data).mp htakes)]
          exact hfed.untilComplete hstate
        · rw [if_neg htakes, if_neg fun htakes' => htakes ((h.takes_iff r.data).mpr htakes')]
          exact hfed.return (-1)

/-- After a prompt first pass there are callbacks, or the loop is left. -/
theorem Exec.recv_begun (h : e.recv lib r = some t) (hpass : PromptPass lib e r) :
    t.result = none → t.callbacks ≠ [] := by
  intro hgoes hnil
  obtain ⟨hkeeps, hfeeds⟩ := Exec.recv_parser h
  by_cases hdata : r.data = []
  · rw [PromptPass, if_pos hdata] at hpass
    rw [Exec.recv_eq (Exec.recv_cases h).1, if_pos hdata] at h
    obtain rfl := Option.some.inj h
    split_ifs at hgoes with htime hinterrupted
    · cases hgoes
    · exact hpass.elim htime (by rw [hinterrupted]; decide)
    · cases hgoes
  · rw [PromptPass, if_neg hdata] at hpass
    obtain ⟨rest, hrest⟩ := hpass
    have hnone := (List.append_eq_nil_iff.mp ((hfeeds hdata).2.symm.trans hnil)).2
    rw [hrest] at hnone
    cases hnone

theorem exec_parsed (h : exec (Exec.recv lib) e recvs = some t) :
    t.mParser.parser = lib.parserFrom e.mParser.parser (chunksOf recvs) ∧
      t.mParser.toHttpParserData =
        (lib.reported e.mParser.parser (chunksOf recvs)).foldl onCallback
          e.mParser.toHttpParserData := by
  induction recvs generalizing e with
  | nil =>
      obtain rfl := Option.some.inj h
      exact ⟨rfl, rfl⟩
  | cons r recvs ih =>
      obtain ⟨u, hu, hrest⟩ := Option.bind_eq_some_iff.mp h
      obtain ⟨hparser, hdata⟩ := ih hrest
      obtain ⟨hkeeps, hfeeds⟩ := Exec.recv_parser hu
      by_cases hnone : r.data = []
      · rw [chunksOf_none hnone, hparser, hdata, (hkeeps hnone).1]
        exact ⟨rfl, rfl⟩
      · rw [chunksOf_some hnone, hparser, hdata, (hfeeds hnone).1, reported_cons,
          List.foldl_append]
        exact ⟨rfl, rfl⟩

/-- Two calls of `exec` with the same passes to come, the first of them prompt. -/
structure Lockstep (lib : Externals σ) (e e' : Exec σ) (recvs : List Recv) : Prop where
  indistinct : Indistinct lib e e'
  prompt : e.result = none → e.callbacks = [] →
    ∀ r, recvs.head? = some r → PromptPass lib e r

theorem Lockstep.recv (h : Lockstep lib e e' (r :: recvs)) :
    Option.Rel (Lockstep lib · · recvs) (e.recv lib r) (e'.recv lib r) := by
  have hpass : e.result = none → e.callbacks = [] → PromptPass lib e r :=
    fun hresult hfirst => h.prompt hresult hfirst r rfl
  have hstep := h.indistinct.recv hpass
  generalize hu : e.recv lib r = u, e'.recv lib r = u' at hstep
  cases hstep with
  | none => exact .none
  | some hstep =>
      refine .some ⟨hstep, fun hgoes hnil => ?_⟩
      by_cases hfirst : e.callbacks = []
      · exact absurd hnil (Exec.recv_begun hu (hpass (Exec.recv_cases hu).1 hfirst) hgoes)
      · obtain ⟨hkeeps, hfeeds⟩ := Exec.recv_parser hu
        by_cases hdata : r.data = []
        · exact absurd ((hkeeps hdata).2.symm.trans hnil) hfirst
        · exact absurd (List.append_eq_nil_iff.mp ((hfeeds hdata).2.symm.trans hnil)).1 hfirst

end Indistinct

section Sends

variable {lib : Externals σ} {client next : HttpClient σ} {x : Exchange}

/-- The first chunk of a response makes the first callback. -/
theorem Exchange.Prompt.pass (hprompt : x.Prompt lib) (hdocumented : x.Documented lib)
    (hclient : AtBoundary lib client.mParser) {r : Recv} (hr : x.recvs.head? = some r) :
    PromptPass lib (client.exec x.resp) r := by
  have hfirst := hprompt r hr
  rw [PromptPass]
  split_ifs with hdata
  · rw [if_pos hdata] at hfirst
    exact hfirst
  · rw [if_neg hdata, ← (hclient.parser.execute r.data).1] at hfirst
    obtain ⟨recvs, hrecvs⟩ : ∃ recvs, x.recvs = r :: recvs := List.head?_eq_some_iff.mp hr
    have hstream := hdocumented.streams.alike hclient.parser
    rw [hrecvs, chunksOf_some hdata] at hstream
    exact Reply.begins hstream.next.part hfirst

theorem AtBoundary.sendNext (hclient : AtBoundary lib client.mParser)
    (hdocumented : x.Documented lib) (hconcluded : x.Concluded lib)
    (hnext : client.sendNext lib x = some next) : AtBoundary lib next.mParser := by
  obtain ⟨sent, hsent, rfl⟩ := Option.map_eq_some_iff.mp hnext
  rw [HttpClient.send] at hsent
  cases hout : x.sent with
  | false =>
      rw [hout, if_neg Bool.false_ne_true] at hsent
      obtain rfl := Option.some.inj hsent
      exact hclient
  | true =>
      rw [hout, if_pos rfl] at hsent
      obtain ⟨e, he, hresult⟩ := Option.bind_eq_some_iff.mp hsent
      obtain ⟨result, -, rfl⟩ := Option.map_eq_some_iff.mp hresult
      obtain ⟨hwhole, hkeep, hnamed, htrailers⟩ := hconcluded.resolve_left (by rw [hout]; decide)
      obtain ⟨hparser, hdata⟩ := exec_parsed he
      have hreported : lib.reported client.mParser.parser (chunksOf x.recvs) = x.reply.callbacks :=
        (hclient.parser.reported _).trans hwhole
      obtain ⟨htype, hpending⟩ := hclient.initHttpResponse x.resp
      refine ⟨?_, ?_, ?_⟩
      · rw [hparser]
        exact (hclient.parser.parserFrom _).trans (hdocumented.reusable hkeep hwhole)
      · rw [hdata]
        exact (foldl_body htype _).1
      · rw [hdata]
        change NothingPending ((lib.reported client.mParser.parser _).foldl onCallback _)
        rw [hreported]
        exact hpending.reply hnamed htrailers

theorem AtBoundary.sendAll {earlier : List Exchange} (hclient : AtBoundary lib client.mParser)
    (hearlier : ∀ y ∈ earlier, y.Documented lib ∧ y.Concluded lib)
    (hnext : Run.exec (HttpClient.sendNext lib) client earlier = some next) :
    AtBoundary lib next.mParser := by
  induction earlier generalizing client with
  | nil =>
      obtain rfl := Option.some.inj hnext
      exact hclient
  | cons y earlier ih =>
      obtain ⟨between, hbetween, hrest⟩ := Option.bind_eq_some_iff.mp hnext
      obtain ⟨hdocumented, hconcluded⟩ := hearlier y List.mem_cons_self
      exact ih (hclient.sendNext hdocumented hconcluded hbetween)
        (fun y' hy' => hearlier y' (List.mem_cons_of_mem _ hy')) hrest

theorem AtBoundary.outcome (hclient : AtBoundary lib client.mParser)
    (hdocumented : x.Documented lib) (hprompt : x.Prompt lib) (fresh : Uninitialised)
    (resp : HttpResponse) :
    client.outcome lib x = (HttpClient.new lib fresh resp).outcome lib x := by
  rw [HttpClient.outcome, HttpClient.outcome, HttpClient.send, HttpClient.send]
  cases x.sent with
  | false => rfl
  | true =>
      rw [if_pos rfl, if_pos rfl]
      have hsame : Indistinct lib (client.exec x.resp)
          ((HttpClient.new lib fresh resp).exec x.resp) := by
        refine ⟨hclient.parser, ?_, rfl, rfl, fun hne => absurd rfl hne⟩
        obtain ⟨htype, hpending⟩ := hclient.initHttpResponse x.resp
        exact ⟨htype, hpending.header_field, hpending.header_value, rfl⟩
      have hrel := exec_rel (fun _ _ _ _ => Lockstep.recv)
        ⟨hsame, fun _ _ r hr => hprompt.pass hdocumented hclient hr⟩
      generalize Run.exec (Exec.recv lib) (client.exec x.resp) x.recvs = ended,
        Run.exec (Exec.recv lib) ((HttpClient.new lib fresh resp).exec x.resp) x.recvs = ended'
        at hrel
      cases hrel with
      | none => rfl
      | some hend =>
          obtain ⟨hend, -⟩ := hend
          rw [Option.bind_some, Option.bind_some, ← hend.result, Option.map_map, Option.map_map]
          exact congrArg (Option.map · _)
            (funext fun result => congrArg (Prod.mk result) hend.message.resp)

end Sends

/-! ## Results -/

/-- `exec` returns 0 only for a whole response when every pass of its loop is patient; the callback
of the asynchronous client is called once, for the whole response, when no read ends between the
headers and the body; without trailers, only then. And behind calls of `send` that were concluded
the next one starts at a message boundary and does what it would do on a new client. -/
theorem wholeResponses (lib : Externals σ) (fresh : Uninitialised) :
    (∀ (client : HttpClient σ) (before : HttpResponse) (reply : Reply) (recvs : List Recv),
      AtBoundary lib client.mParser → Streams lib reply (chunksOf recvs) →
        (Meets (Exec.recv lib) (Exec.Patient lib before reply) (client.exec before) recvs →
          Along (Exec.recv lib) (Truthful before reply) (client.exec before) recvs) ∧
        (reply.body.trailers = [] →
          Along (Exec.recv lib) (Truthful before reply) (client.exec before) recvs →
            Meets (Exec.recv lib) (Exec.Patient lib before reply) (client.exec before) recvs)) ∧
    (∀ (reply : Reply) (actions : List TaskAction), Streams lib reply (readsOf actions) →
      (Meets (HttpTask.step lib) (HttpTask.BodyInSight lib reply) (.new lib fresh) actions →
        Along (HttpTask.step lib) (CalledBack fresh reply) (.new lib fresh) actions) ∧
      (reply.body.trailers = [] →
        Along (HttpTask.step lib) (CalledBack fresh reply) (.new lib fresh) actions →
          Meets (HttpTask.step lib) (HttpTask.BodyInSight lib reply) (.new lib fresh) actions)) ∧
    (∀ (resp : HttpResponse) (earlier : List Exchange) (client : HttpClient σ),
      (∀ y ∈ earlier, y.Documented lib ∧ y.Concluded lib) →
        exec (HttpClient.sendNext lib) (.new lib fresh resp) earlier = some client →
          AtBoundary lib client.mParser ∧
            ∀ x : Exchange, x.Documented lib → x.Prompt lib →
              client.outcome lib x = (HttpClient.new lib fresh resp).outcome lib x) := by
  refine ⟨fun client before reply recvs => truthful_along,
    fun reply actions => calledBack_along, fun resp earlier client hearlier hclient => ?_⟩
  have hboundary := (atBoundary_new lib fresh resp).sendAll hearlier hclient
  exact ⟨hboundary, fun x hdocumented hprompt =>
    hboundary.outcome hdocumented hprompt fresh resp⟩

def hello : Reply where
  status_code := 200
  reason := 1
  headers := [⟨[ascii "Content-Length"], [ascii "5"]⟩]
  body := .contentLength [ascii "hello"]
  method := .delete
  reason_pos := by decide
  names := by decide

def helloHead : Bytes :=
  ascii "HTTP/1.1 200 OK\r\nContent-Length: 5\r\n\r\n"

/-- `http_parser` on the bytes of `hello`; its state tells whether the body is next. -/
def helloParser : Externals Bool where
  httpParserInit := false
  httpParserExecute := fun inBody data =>
    if inBody then ⟨[.body (data.take 5), .messageComplete .delete], 5, false⟩
    else if data = helloHead then ⟨hello.head ++ [.headersComplete], data.length, true⟩
    else if data = helloHead ++ ascii "hello" then ⟨hello.callbacks, data.length, false⟩
    else ⟨[], 0, false⟩
  wsEncodeKey := id

def helloClient : HttpClient Bool :=
  .new helloParser .zeroed (.new .zeroed)

/-- A call of `send` that receives `hello` in the given chunks. -/
def helloExchange (chunks : List Bytes) : Exchange where
  resp := .new .zeroed
  sent := true
  recvs := chunks.map fun data => ⟨data, false, false⟩
  reply := hello
  keepAlive := true

theorem wholeResponses_hello :
    Along (Exec.recv helloParser) (Truthful (.new .zeroed) hello)
      (helloClient.exec (.new .zeroed)) [⟨helloHead ++ ascii "hello", false, false⟩] ∧
    Along (HttpTask.step helloParser) (CalledBack .zeroed hello) (.new helloParser .zeroed)
      [.read (helloHead ++ ascii "hello")] ∧
    ∀ client, exec (HttpClient.sendNext helloParser) helloClient
        [helloExchange [helloHead ++ ascii "hello"]] = some client →
      AtBoundary helloParser client.mParser := by
  obtain ⟨hexec, htask, hsends⟩ := wholeResponses helloParser .zeroed
  have hsight : ¬ AwaitsBody hello.callbacks := hello.not_awaitsBody
  have hstreams : Streams helloParser hello [helloHead ++ ascii "hello"] :=
    ⟨by decide, by decide⟩
  have huncut : SameValues .empty hello.headers := by
    have hharmless : Harmless (newParser .response) hello.headers := by
      refine harmless_of_uncut fun h hh => ?_
      obtain rfl := List.mem_singleton.mp hh
      exact ⟨ascii "Content-Length", by decide, rfl⟩
    exact hharmless.headers
  refine ⟨?_, ?_, fun client hclient => (hsends _ _ client ?_ hclient).1⟩
  · refine (hexec helloClient _ hello [⟨helloHead ++ ascii "hello", false, false⟩]
      (atBoundary_new _ _ _) hstreams).1 ?_
    intro t ht
    exact ⟨⟨by decide, by decide, fun _ _ => hsight, by decide, fun _ _ => huncut⟩, trivial⟩
  · refine (htask hello [.read (helloHead ++ ascii "hello")] hstreams).1 ?_
    intro t ht
    exact ⟨⟨fun _ => hsight, fun _ => huncut⟩, trivial⟩
  · intro y hy
    obtain rfl := List.mem_singleton.mp hy
    refine ⟨⟨hstreams, fun _ _ _ => rfl⟩, .inr ⟨by decide, rfl, ?_, rfl⟩⟩
    intro h hh
    obtain rfl := List.mem_singleton.mp hh
    decide

/-- A response with a `Content-Type`, whose name is in two chunks. -/
def typedHello : Reply where
  status_code := 200
  reason := 1
  headers :=
    [⟨[ascii "Conte", ascii "nt-Type"], [ascii "a"]⟩, ⟨[ascii "Content-Length"], [ascii "5"]⟩]
  body := .contentLength [ascii "hello"]
  method := .delete
  reason_pos := by decide
  names := by decide

/-- `http_parser` on the two chunks. -/
def typedParser : Externals Bool where
  httpParserInit := false
  httpParserExecute := fun second data =>
    if second then ⟨typedHello.callbacks.drop 3, data.length, true⟩
    else ⟨typedHello.callbacks.take 3, data.length, true⟩
  wsEncodeKey := id

def typedChunks : List Bytes :=
  [ascii "HTTP/1.1 200 OK\r\nConte", ascii "nt-Type: a\r\nContent-Length: 5\r\n\r\nhello"]

/-- The headers of `hello` in a chunk of their own: both clients report success before the
body is there, and the next `send` fails on a response that a new client accepts. A timeout
is success as well, and so is a response whose `Content-Type` is lost. -/
theorem not_wholeResponses_headers_first :
    Streams helloParser hello [helloHead, ascii "hello"] ∧
    ¬ Along (Exec.recv helloParser) (Truthful (.new .zeroed) hello)
      (helloClient.exec (.new .zeroed)) [⟨helloHead, false, false⟩] ∧
    ¬ Along (Exec.recv helloParser) (Truthful (.new .zeroed) hello)
      (helloClient.exec (.new .zeroed)) [⟨[], true, false⟩] ∧
    ¬ Along (HttpTask.step helloParser) (CalledBack .zeroed hello) (.new helloParser .zeroed)
      [.read helloHead] ∧
    (Streams typedParser typedHello typedChunks ∧
      ¬ Along (Exec.recv typedParser) (Truthful (.new .zeroed) typedHello)
        ((HttpClient.new typedParser .zeroed (.new .zeroed)).exec (.new .zeroed))
        (typedChunks.map fun data => ⟨data, false, false⟩)) ∧
    ∃ client, helloClient.sendNext helloParser (helloExchange [helloHead]) = some client ∧
      (client.outcome helloParser (helloExchange [helloHead ++ ascii "hello"])).map Prod.fst =
        some (-1) ∧
      (helloClient.outcome helloParser (helloExchange [helloHead ++ ascii "hello"])).map Prod.fst =
        some 0 := by
  refine ⟨⟨by decide, by decide⟩, ?_, ?_, ?_, ⟨⟨by decide, by decide⟩, ?_⟩, _, rfl, by decide,
    by decide⟩
  · intro h
    have hwhole := ((h.exec rfl) rfl).1
    revert hwhole
    decide
  · intro h
    have hwhole := ((h.exec rfl) rfl).1
    revert hwhole
    decide
  · intro h
    have honce := (h.exec rfl).once
    revert honce
    decide
  · intro h
    obtain ⟨trailers, hnames, hheaders⟩ := ((h.exec rfl) rfl).2.headers
    obtain rfl : trailers = [] :=
      List.eq_nil_iff_forall_not_mem.mpr fun it hit => List.not_mem_nil (hnames it hit)
    have hentries := congrArg OrderedMap.entries hheaders
    exact absurd hentries (by decide +kernel)

end LibConn.Http
