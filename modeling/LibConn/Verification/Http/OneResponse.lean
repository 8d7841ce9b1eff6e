import LibConn.Shared.Run
import LibConn.Verification.Http.Calls

/-! # One response for each request

A connection takes the requests of `deliveries` one after another. Between segments it has
dealt with the requests that are over, and the callbacks of the one under way are those
since its `on_message_begin`. -/

namespace LibConn.Http

open LibConn.Run

variable {σ : Type}

/-- The handlers that ran, each with the method it was routed by. -/
def answers (effects : List Effect) : List (HandleFunc × HttpMethod) :=
  effects.filterMap fun
    | .invoked func method _ => some (func, method)
    | _ => none

/-- The bytes given to `io_send_data`, one entry for each call. -/
def responses (effects : List Effect) : List Bytes :=
  effects.filterMap fun
    | .sent data => some data
    | _ => none

theorem answers_append (effects effects' : List Effect) :
    answers (effects ++ effects') = answers effects ++ answers effects' :=
  List.filterMap_append

theorem responses_append (effects effects' : List Effect) :
    responses (effects ++ effects') = responses effects ++ responses effects' :=
  List.filterMap_append

/-- The handler that is registered for a request. -/
def Delivery.handler (d : Delivery) (router : HttpRouter) : Option HandleFunc :=
  router.getHandleFunc d.method (cStr d.url.flatten)

/-- The requests that are over, and only they, have had their handler and a response. -/
structure Served (router : HttpRouter) (deliveries : List Delivery) (c : Connection σ) :
    Prop where
  answered : (answers c.effects).map (fun answer => (some answer.1, answer.2)) =
    (deliveries.take (completed c.callbacks)).map fun d => (d.handler router, d.method)
  responded : (responses c.effects).length = (answers c.effects).length
  finished : c.callbacks = deliveries.flatMap Delivery.callbacks →
    (answers c.effects).length = deliveries.length

/-- Every request is registered, also under the urls of all requests up to it. -/
def Registered (router : HttpRouter) (deliveries : List Delivery) : Prop :=
  ∀ earlier d later, deliveries = earlier ++ d :: later →
    ∃ func, d.handler router = some func ∧
      router.getHandleFunc d.method
        (cStr ((earlier ++ [d]).flatMap fun d => d.url.flatten)) = some func

/-- Handlers leave no upgrade header in the request. -/
def HandlersPlain (router : HttpRouter) : Prop :=
  ∀ method path func, router.getHandleFunc method path = some func →
    ∀ req resp, HttpHeaders.Plain req.headers → HttpHeaders.Plain (func req resp).1.headers

/-- What a segment must be like. `http_parser` takes all of it and reports the requests in
order; nothing follows the end of a request in its segment; a segment that ends between the
headers and the body finds no route for the method of the request before; and a segment
that follows a finished request causes a callback. -/
structure Orderly (lib : Externals σ) (router : HttpRouter) (deliveries : List Delivery)
    (c : Connection σ) (data : Bytes) : Prop where
  accepted : (lib.httpParserExecute c.handle.mParser.parser data).nparsed = data.length
  reported : c.callbacks ++ c.handle.callbacksFor lib data <+:
    deliveries.flatMap Delivery.callbacks
  alone : ∀ cb ∈ (c.handle.callbacksFor lib data).dropLast, cb.completes = false
  bodyInSight : AwaitsBody (c.callbacks ++ c.handle.callbacksFor lib data) →
    router.getHandleFunc c.handle.mParser.method
      (cStr ((c.callbacks ++ c.handle.callbacksFor lib data).flatMap Callback.urlPart)) = none
  stirred : c.handle.mParser.state = .messageComplete → c.handle.callbacksFor lib data ≠ []

/-- The connection has answered the requests of `done` and has seen `before` of the next. -/
structure Progress (router : HttpRouter) (c : Connection σ) (done later : List Delivery)
    (before : List Callback) : Prop where
  http : c.handle.m_serviceType = .http
  router_eq : c.handle.m_router = router
  callbacks_eq : c.callbacks = done.flatMap Delivery.callbacks ++ before
  underway : ∀ cb ∈ before, cb.completes = false
  isPrefix : before <+: later.flatMap Delivery.callbacks
  url_eq : c.handle.mParser.url = c.callbacks.flatMap Callback.urlPart
  tidy : ∃ hp, Tidy hp ∧ c.handle.mParser.toHttpParserData = before.foldl onCallback hp
  answered : (answers c.effects).map (fun answer => (some answer.1, answer.2)) =
    done.map fun d => (d.handler router, d.method)
  responded : (responses c.effects).length = done.length

theorem Progress.served {router : HttpRouter} {c : Connection σ} {done later : List Delivery}
    {before : List Callback} (h : Progress router c done later before) :
    Served router (done ++ later) c := by
  have hlength : (answers c.effects).length = done.length := by
    simpa using congrArg List.length h.answered
  have hcompleted : completed c.callbacks = done.length := by
    rw [h.callbacks_eq, completed_append, completed_deliveries, completed_unmarked h.underway,
      Nat.add_zero]
  refine ⟨?_, h.responded.trans hlength.symm, fun hall => ?_⟩
  · rw [hcompleted, List.take_left]
    exact h.answered
  · rw [hlength, ← hcompleted, hall, completed_deliveries]

theorem Tidy.withMessages {handle : HttpHandle σ} {messages : HttpRequest × HttpResponse}
    (h : Tidy handle.mParser.toHttpParserData) (hreq : HttpHeaders.Plain messages.1.headers) :
    Tidy (handle.withMessages messages).mParser.toHttpParserData :=
  ⟨h.type, hreq, h.pending, h.cleared⟩

theorem progress_onAccept (lib : Externals σ) (fresh : Uninitialised) (router : HttpRouter)
    (ws_service : Bool) (deliveries : List Delivery) :
    Progress router (onAccept lib fresh router ws_service) [] deliveries [] where
  http := rfl
  router_eq := rfl
  callbacks_eq := rfl
  underway := fun _ hcb => absurd hcb List.not_mem_nil
  isPrefix := List.nil_prefix
  url_eq := rfl
  tidy := ⟨_, tidy_setRouter lib fresh router ws_service, rfl⟩
  answered := rfl
  responded := rfl

/-! ## One segment -/

section Segment

variable {lib : Externals σ} {router : HttpRouter} {c t : Connection σ} {data : Bytes}
  {done later : List Delivery} {before : List Callback}

theorem Progress.accepts (h : Progress router c done later before)
    (ho : Orderly lib router (done ++ later) c data) : Accepts lib c.handle data :=
  ⟨h.http, ho.accepted⟩

theorem Progress.callbacksOf (h : Progress router c done later before) :
    c.callbacksOf lib data = c.handle.callbacksFor lib data := by
  rw [Connection.callbacksOf, h.http]
  rfl

/-- The url, after the segment as before it, is that of all callbacks so far. -/
theorem Progress.parsed_url (h : Progress router c done later before) :
    (c.handle.parsed lib data).mParser.url =
      (c.callbacks ++ c.handle.callbacksFor lib data).flatMap Callback.urlPart := by
  rw [List.flatMap_append, ← h.url_eq]
  exact foldl_url _ _

theorem Progress.remaining (h : Progress router c done later before)
    (ho : Orderly lib router (done ++ later) c data) :
    before ++ c.handle.callbacksFor lib data <+: later.flatMap Delivery.callbacks := by
  have hall := ho.reported
  rw [h.callbacks_eq, List.flatMap_append, List.append_assoc] at hall
  exact (List.prefix_append_right_inj _).mp hall

theorem Progress.parsed_data (h : Progress router c done later before) (lib : Externals σ)
    (data : Bytes) :
    ∃ hp, Tidy hp ∧ (c.handle.parsed lib data).mParser.toHttpParserData =
      (before ++ c.handle.callbacksFor lib data).foldl onCallback hp := by
  obtain ⟨hp, htidy, hdata⟩ := h.tidy
  refine ⟨hp, htidy, ?_⟩
  rw [List.foldl_append, ← hdata]
  rfl

theorem Progress.keep (h : Progress router c done later before)
    (ho : Orderly lib router (done ++ later) c data)
    (hunmarked : ∀ cb ∈ c.handle.callbacksFor lib data, cb.completes = false)
    {effects : List Effect} (hanswers : answers effects = []) (hresponses : responses effects = [])
    (hfed : c.handle.feedRecvData lib data =
      some ⟨data.length, effects, c.handle.parsed lib data⟩)
    (ht : onRecv lib c data = some t) :
    Progress router t done later (before ++ c.handle.callbacksFor lib data) := by
  obtain rfl := onRecv_eq ht hfed
  have hcallbacks : c.callbacks ++ c.callbacksOf lib data =
      c.callbacks ++ c.handle.callbacksFor lib data :=
    congrArg _ h.callbacksOf
  refine ⟨h.http, h.router_eq, ?_, ?_, h.remaining ho, ?_, h.parsed_data lib data, ?_, ?_⟩
  · exact hcallbacks.trans (by rw [h.callbacks_eq, List.append_assoc])
  · exact List.forall_mem_append.mpr ⟨h.underway, hunmarked⟩
  · exact h.parsed_url.trans (congrArg _ hcallbacks.symm)
  · rw [answers_append, hanswers, List.append_nil]
    exact h.answered
  · rw [responses_append, hresponses, List.append_nil]
    exact h.responded

theorem awaitsBody_of_prefix {cs : List Callback}
    (hbegins : cs <+: later.flatMap Delivery.callbacks)
    (hcs : ∀ cb ∈ cs, cb.completes = false) (hne : cs ≠ []) {hp : HttpParserData}
    (h : (cs.foldl onCallback hp).state = .messageComplete) : AwaitsBody cs := by
  cases cs with
  | nil => exact absurd rfl hne
  | cons cb cs =>
      cases later with
      | nil => exact absurd (List.prefix_nil.mp hbegins) (List.cons_ne_nil _ _)
      | cons d later =>
          obtain ⟨rfl, -⟩ : cb = .messageBegin ∧ _ := List.cons_prefix_cons.mp hbegins
          exact awaitsBody_of_begun (fun cb' hcb' => hcs cb' (List.mem_cons_of_mem _ hcb')) h

theorem Progress.unfinished (h : Progress router c done later before)
    (ho : Orderly lib router (done ++ later) c data) (hlater : ∀ d ∈ later, d.Plain)
    (hunmarked : ∀ cb ∈ c.handle.callbacksFor lib data, cb.completes = false)
    (ht : onRecv lib c data = some t) :
    Progress router t done later (before ++ c.handle.callbacksFor lib data) := by
  by_cases hstate : (c.handle.parsed lib data).mParser.state = .messageComplete
  · obtain ⟨hp, htidy, hdata⟩ := h.parsed_data lib data
    have hunderway : ∀ cb ∈ before ++ c.handle.callbacksFor lib data, cb.completes = false :=
      List.forall_mem_append.mpr ⟨h.underway, hunmarked⟩
    have hne : before ++ c.handle.callbacksFor lib data ≠ [] := by
      intro hnil
      obtain ⟨-, hnone⟩ := List.append_eq_nil_iff.mp hnil
      have hsame : (c.handle.parsed lib data).mParser.state = c.handle.mParser.state := by
        rw [c.handle.parsed_data, hnone]
        rfl
      exact ho.stirred (hsame ▸ hstate) hnone
    have hawaits := awaitsBody_of_prefix (h.remaining ho) hunderway hne (hdata ▸ hstate)
    have hplain := (htidy.awaiting hlater (h.remaining ho) hunderway hawaits).headers
    rw [← hdata] at hplain
    have hroute : (c.handle.parsed lib data).m_router.getHandleFunc
        (c.handle.parsed lib data).mParser.method
        (cStr (c.handle.parsed lib data).mParser.url) = none := by
      rw [c.handle.parsed_data, foldl_method hunmarked, ← c.handle.parsed_data, h.parsed_url]
      refine (congrArg (HttpRouter.getHandleFunc · _ _) h.router_eq).trans (ho.bodyInSight ?_)
      rw [h.callbacks_eq, List.append_assoc]
      exact hawaits.append _
    have hfed := (h.accepts ho).complete hstate hplain
    rw [sendHttpResponse_unrouted (c.handle.parsed lib data) h.http hroute] at hfed
    exact h.keep ho hunmarked rfl rfl hfed ht
  · exact h.keep ho hunmarked rfl rfl ((h.accepts ho).incomplete hstate) ht

theorem Progress.finished {d : Delivery} (h : Progress router c done (d :: later) before)
    (ho : Orderly lib router (done ++ d :: later) c data) (hd : d.Plain)
    (hregistered : Registered router (done ++ d :: later)) (hhandlers : HandlersPlain router)
    (hends : before ++ c.handle.callbacksFor lib data = d.callbacks)
    (ht : onRecv lib c data = some t) : Progress router t (done ++ [d]) later [] := by
  obtain ⟨hp, htidy, hdata⟩ := h.parsed_data lib data
  rw [hends] at hdata
  have hall : c.callbacks ++ c.handle.callbacksFor lib data =
      (done ++ [d]).flatMap Delivery.callbacks := by
    rw [h.callbacks_eq, List.append_assoc, hends, List.flatMap_append, List.flatMap_singleton]
  have hstate : (c.handle.parsed lib data).mParser.state = .messageComplete := by
    rw [hdata, d.callbacks_eq, List.foldl_append]
    rfl
  have hmethod : (c.handle.parsed lib data).mParser.method = d.method := by
    rw [hdata, d.callbacks_eq, List.foldl_append]
    rfl
  have hurl : (c.handle.parsed lib data).mParser.url =
      (done ++ [d]).flatMap fun d => d.url.flatten := by
    rw [h.parsed_url, hall, List.flatMap_assoc]
    exact congrArg (List.flatMap · _) (funext Delivery.urlParts)
  have hafter := htidy.delivery hd
  rw [← hdata] at hafter
  obtain ⟨func, hfunc, hroute⟩ := hregistered done d later rfl
  have hrouted : (c.handle.parsed lib data).m_router.getHandleFunc
      (c.handle.parsed lib data).mParser.method
      (cStr (c.handle.parsed lib data).mParser.url) = some func := by
    rw [hmethod, hurl]
    exact (congrArg (HttpRouter.getHandleFunc · _ _) h.router_eq).trans hroute
  have hfed := (h.accepts ho).complete hstate hafter.headers
  rw [sendHttpResponse_routed (c.handle.parsed lib data) h.http hrouted] at hfed
  obtain rfl := onRecv_eq ht hfed
  refine ⟨h.http, h.router_eq, ?_, ?_, List.nil_prefix, ?_, ?_, ?_, ?_⟩
  · rw [List.append_nil, ← hall]
    exact congrArg _ h.callbacksOf
  · exact fun _ hcb => absurd hcb List.not_mem_nil
  · exact h.parsed_url.trans (congrArg (List.flatMap _ <| _ ++ ·) h.callbacksOf.symm)
  · exact ⟨_, hafter.withMessages (hhandlers _ _ _ hroute _ _ hafter.headers), rfl⟩
  · rw [answers_append, List.map_append, h.answered, List.map_append, List.map_singleton, hfunc,
      ← hmethod]
    rfl
  · rw [responses_append, List.length_append, h.responded, List.length_append]
    rfl

theorem Progress.ends (h : Progress router c done later before)
    (ho : Orderly lib router (done ++ later) c data) {cb : Callback}
    (hcb : cb ∈ c.handle.callbacksFor lib data) (hmark : cb.completes = true) :
    ∃ d later', later = d :: later' ∧
      before ++ c.handle.callbacksFor lib data = d.callbacks := by
  obtain ⟨front, last, hnew⟩ : ∃ front last, c.handle.callbacksFor lib data = front ++ [last] := by
    rcases List.eq_nil_or_concat' (c.handle.callbacksFor lib data) with hnil | hconcat
    · rw [hnil] at hcb
      exact absurd hcb List.not_mem_nil
    · exact hconcat
  have hunmarked := ho.alone
  rw [hnew, List.dropLast_concat] at hunmarked
  obtain rfl : cb = last := by
    rw [hnew] at hcb
    rcases List.mem_append.mp hcb with hcb | hcb
    · rw [hunmarked cb hcb] at hmark
      cases hmark
    · exact List.mem_singleton.mp hcb
  obtain ⟨method, rfl⟩ : ∃ method, cb = .messageComplete method := by
    cases cb with
    | messageComplete method => exact ⟨method, rfl⟩
    | _ => cases hmark
  have hfront : ∀ cb ∈ before ++ front, cb.completes = false :=
    List.forall_mem_append.mpr ⟨h.underway, hunmarked⟩
  have hremaining := h.remaining ho
  rw [hnew, ← List.append_assoc before] at hremaining ⊢
  cases later with
  | nil => exact absurd (List.prefix_nil.mp hremaining) (by simp)
  | cons d later' =>
      rw [List.flatMap_cons, d.callbacks_eq, List.append_assoc d.front, List.singleton_append]
        at hremaining
      obtain ⟨hsame, hmethod, -⟩ :=
        first_marked (p := Callback.completes) hremaining rfl rfl hfront d.front_unmarked
      exact ⟨d, later', rfl, by rw [hsame, hmethod, d.callbacks_eq]⟩

theorem Progress.onRecv {deliveries : List Delivery} (h : Progress router c done later before)
    (hdeliveries : deliveries = done ++ later) (hplain : ∀ d ∈ deliveries, d.Plain)
    (hregistered : Registered router deliveries) (hhandlers : HandlersPlain router)
    (ho : Orderly lib router deliveries c data) (ht : Http.onRecv lib c data = some t) :
    ∃ done' later' before', deliveries = done' ++ later' ∧
      Progress router t done' later' before' := by
  subst hdeliveries
  by_cases hunmarked : ∀ cb ∈ c.handle.callbacksFor lib data, cb.completes = false
  · have hlater : ∀ d ∈ later, d.Plain := fun d hd => hplain d (List.mem_append_right _ hd)
    exact ⟨done, later, _, rfl, h.unfinished ho hlater hunmarked ht⟩
  · obtain ⟨cb, hcb, hmark⟩ : ∃ cb ∈ c.handle.callbacksFor lib data, cb.completes = true := by
      simpa using hunmarked
    obtain ⟨d, later', rfl, hends⟩ := h.ends ho hcb hmark
    refine ⟨done ++ [d], later', [], by rw [List.append_assoc, List.singleton_append], ?_⟩
    exact h.finished ho (hplain d (List.mem_append_right _ List.mem_cons_self)) hregistered
      hhandlers hends ht

end Segment

/-! ## Runs -/

/-- Where every header stays clear of an upgrade, every request is registered under the urls
received up to it as under its own, and every segment is orderly, each request gets its
handler and one response when it is over, and not before. -/
theorem served_along (lib : Externals σ) (fresh : Uninitialised) (router : HttpRouter)
    (ws_service : Bool) (deliveries : List Delivery) (segments : List Bytes)
    (hplain : ∀ d ∈ deliveries, d.Plain) (hregistered : Registered router deliveries)
    (hhandlers : HandlersPlain router)
    (h : Meets (onRecv lib) (Orderly lib router deliveries)
      (onAccept lib fresh router ws_service) segments) :
    Along (onRecv lib) (Served router deliveries)
      (onAccept lib fresh router ws_service) segments := by
  have hstep : ∀ c data t,
      (∃ done later before, deliveries = done ++ later ∧ Progress router c done later before) →
      Orderly lib router deliveries c data → onRecv lib c data = some t →
      ∃ done later before, deliveries = done ++ later ∧ Progress router t done later before := by
    rintro c data t ⟨done, later, before, hdeliveries, hprogress⟩ ho ht
    exact hprogress.onRecv hdeliveries hplain hregistered hhandlers ho ht
  refine (along_of_meets hstep ⟨[], deliveries, [], rfl, ?_⟩ h).mono ?_
  · exact progress_onAccept lib fresh router ws_service deliveries
  · rintro c ⟨done, later, before, rfl, hprogress⟩
    exact hprogress.served

def echo : Delivery where
  method := .post
  url := [ascii "/echo"]
  headers := [⟨[ascii "Content-Length"], [ascii "5"]⟩]
  body := .contentLength [ascii "he", ascii "llo"]

def echoSegments : List Bytes :=
  [ascii "POST /echo HTTP/1.1\r\nContent-Length: 5\r\n\r\nhe", ascii "llo"]

def echoParser : Externals Unit :=
  .scripted [
    (ascii "POST /echo HTTP/1.1\r\nContent-Length: 5\r\n\r\nhe",
      echo.head ++ [.headersComplete, .body (ascii "he")]),
    (ascii "llo", [.body (ascii "llo"), .messageComplete .post])]

/-- A body that arrives in two segments, the first of them that of the headers. -/
theorem served_along_echo :
    Along (onRecv echoParser) (Served (HttpRouter.new.post (ascii "/echo") echoHandler) [echo])
      (onAccept echoParser .zeroed (HttpRouter.new.post (ascii "/echo") echoHandler) false)
      echoSegments := by
  apply served_along _ _ _ _ _ _
  · intro d hd h hh
    obtain rfl := List.mem_singleton.mp hd
    obtain rfl : h = ⟨[ascii "Content-Length"], [ascii "5"]⟩ := List.mem_singleton.mp hh
    exact ⟨by decide, by decide⟩
  · intro earlier d later hsplit
    obtain ⟨rfl, rfl, rfl⟩ : earlier = [] ∧ d = echo ∧ later = [] := by
      cases earlier with
      | nil => simpa [eq_comm] using hsplit
      | cons d' earlier => simp at hsplit
    exact ⟨echoHandler, rfl, rfl⟩
  · intro method path func hfunc req resp hreq
    obtain ⟨methodPrefix, -, hfind⟩ := Option.bind_eq_some_iff.mp hfunc
    obtain ⟨-, rfl⟩ := Prod.mk.inj (List.mem_singleton.mp (OrderedMap.mem_of_find hfind))
    exact hreq
  · rintro _ ⟨⟩
    refine ⟨⟨by decide, by decide, by decide, fun h => absurd h.last (by decide), by decide⟩, ?_⟩
    rintro _ ⟨⟩
    exact ⟨⟨by decide, by decide, by decide, fun h => absurd h.last (by decide), by decide⟩,
      trivial⟩

/-- `DELETE /item` with the body `ok`. -/
def deleteItem : Delivery where
  method := .delete
  url := [ascii "/item"]
  headers := [⟨[ascii "Content-Length"], [ascii "2"]⟩]
  body := .contentLength [ascii "ok"]

def itemParser : Externals Unit :=
  .scripted [
    (ascii "GET /ping HTTP/1.1\r\n\r\n", ping.callbacks),
    (ascii "DELETE /item HTTP/1.1\r\nContent-Length: 2\r\n\r\n",
      deleteItem.head ++ [.headersComplete]),
    (ascii "ok", [.body (ascii "ok"), .messageComplete .delete])]

def itemRouter : HttpRouter :=
  (HttpRouter.new.get (ascii "/ping") pingHandler).del (ascii "/item") echoHandler

/-- A request whose body comes in a segment of its own is answered before the body as well
as after it; the second of two equal requests is not answered at all. -/
theorem not_served_split_or_repeated :
    ¬ Along (onRecv itemParser) (Served itemRouter [deleteItem])
      (onAccept itemParser .zeroed itemRouter false)
      [ascii "DELETE /item HTTP/1.1\r\nContent-Length: 2\r\n\r\n", ascii "ok"] ∧
    ¬ Along (onRecv itemParser) (Served itemRouter [ping, ping])
      (onAccept itemParser .zeroed itemRouter false)
      [ascii "GET /ping HTTP/1.1\r\n\r\n", ascii "GET /ping HTTP/1.1\r\n\r\n"] := by
  constructor
  · intro h
    have hfinished := (h.exec rfl).finished
    revert hfinished
    decide
  · intro h
    have hfinished := (h.exec rfl).finished
    revert hfinished
    decide

end LibConn.Http
