import LibConn.Shared.Run
import LibConn.Verification.Http.Calls
import LibConn.Verification.Http.Strings

/-! # Isolation of requests

The same request on a connection that has handled others and on a fresh one. -/

namespace LibConn.Http

open LibConn.Run

variable {σ : Type}

/-- A segment that holds one request. -/
structure Arrival where
  data : Bytes
  delivery : Delivery

/-- A request with a url that a router can read, whose headers ask for no upgrade. -/
structure Arrival.Ordinary (r : Arrival) : Prop where
  url : r.delivery.url.flatten ≠ []
  noNul : 0 ∉ r.delivery.url.flatten
  plain : r.delivery.Plain

/-- The state of `http_parser` after the segments. -/
def Externals.parserAfter (lib : Externals σ) (segments : List Bytes) : σ :=
  segments.foldl (fun parser data => (lib.httpParserExecute parser data).parser)
    lib.httpParserInit

/-- `http_parser` takes the segment and reports the request. -/
structure Reports (lib : Externals σ) (parser : σ) (r : Arrival) : Prop where
  callbacks : (lib.httpParserExecute parser r.data).callbacks = r.delivery.callbacks
  nparsed : (lib.httpParserExecute parser r.data).nparsed = r.data.length

/-- Each request is reported as on a fresh connection. -/
def Documented (lib : Externals σ) (rs : List Arrival) : Prop :=
  ∀ earlier r later, rs = earlier ++ r :: later →
    Reports lib (lib.parserAfter (earlier.map Arrival.data)) r ∧
      Reports lib lib.httpParserInit r

/-- What the effects of a request say about it: the urls used for routing, the headers and
the body that handlers see, and the bytes sent. -/
structure Observation where
  urls : List Bytes
  requests : List (HttpHeaders × Bytes)
  sent : List Bytes

def routedUrls (effects : List Effect) : List Bytes :=
  effects.filterMap fun
    | .routed _ path => some path
    | _ => none

def observe (effects : List Effect) : Observation where
  urls := routedUrls effects
  requests := effects.filterMap fun
    | .invoked _ _ request => some (request.headers, request.body)
    | _ => none
  sent := effects.filterMap fun
    | .sent data => some data
    | _ => none

/-- What a handle shows when it receives the data. -/
def HttpHandle.shows (lib : Externals σ) (handle : HttpHandle σ) (data : Bytes) :
    Option Observation :=
  (handle.feedRecvData lib data).map fun fed => observe fed.effects

/-- Every request of the connection looks as on a fresh connection. -/
def Isolated (lib : Externals σ) (fresh : Uninitialised) (router : HttpRouter)
    (ws_service : Bool) (rs : List Arrival) : Prop :=
  ∀ earlier r later, rs = earlier ++ r :: later →
    ∃ c, exec (onRecv lib) (onAccept lib fresh router ws_service) (earlier.map Arrival.data) =
        some c ∧
      c.handle.shows lib r.data =
        (HttpHandle.setRouter lib fresh router ws_service).shows lib r.data

/-! ## The url of the second request -/

section Complete

variable {lib : Externals σ} {handle : HttpHandle σ} {data : Bytes}

theorem sendHttpResponse_http (handle : HttpHandle σ) (hhttp : handle.m_serviceType = .http) :
    routedUrls handle.sendHttpResponse.1 = [cStr handle.mParser.url] ∧
      handle.sendHttpResponse.2.m_serviceType = .http ∧
      handle.sendHttpResponse.2.mParser.url = handle.mParser.url ∧
      handle.sendHttpResponse.2.mParser.parser = handle.mParser.parser := by
  cases hroute : handle.m_router.getHandleFunc handle.mParser.method
      (cStr handle.mParser.url) with
  | none =>
      rw [sendHttpResponse_unrouted handle hhttp hroute]
      exact ⟨rfl, hhttp, rfl, rfl⟩
  | some func =>
      rw [sendHttpResponse_routed handle hhttp hroute]
      exact ⟨rfl, hhttp, rfl, rfl⟩

theorem switchWSProtocol_urls : routedUrls (handle.switchWSProtocol lib).1 = [] := by
  simp only [HttpHandle.switchWSProtocol]
  split_ifs <;> rfl

theorem Reports.parsed {r : Arrival} (handle : HttpHandle σ)
    (h : Reports lib handle.mParser.parser r) :
    (handle.parsed lib r.data).mParser.state = .messageComplete ∧
      (handle.parsed lib r.data).mParser.url =
        handle.mParser.url ++ r.delivery.url.flatten := by
  rw [handle.parsed_data, HttpHandle.callbacksFor, h.callbacks]
  refine ⟨?_, ?_⟩
  · rw [r.delivery.callbacks_eq, List.foldl_append]
    rfl
  · rw [foldl_url, r.delivery.urlParts]

/-- Where nothing asks for an upgrade, the request is routed by all urls so far. -/
theorem Reports.routed {r : Arrival} (handle : HttpHandle σ)
    (h : Reports lib handle.mParser.parser r)
    (hhttp : handle.m_serviceType = .http) (htidy : Tidy handle.mParser.toHttpParserData)
    (hplain : r.delivery.Plain) :
    ∃ fed, handle.feedRecvData lib r.data = some fed ∧
      routedUrls fed.effects = [cStr (handle.mParser.url ++ r.delivery.url.flatten)] ∧
      fed.handle.m_serviceType = .http ∧
      fed.handle.mParser.url = handle.mParser.url ++ r.delivery.url.flatten ∧
      fed.handle.mParser.parser = (lib.httpParserExecute handle.mParser.parser r.data).parser := by
  obtain ⟨hstate, hurl⟩ := h.parsed handle
  have hafter := htidy.delivery hplain
  rw [← h.callbacks] at hafter
  obtain ⟨hurls, hservice, hsame, hparser⟩ :=
    sendHttpResponse_http (handle.parsed lib r.data) hhttp
  refine ⟨_, Accepts.complete ⟨hhttp, h.nparsed⟩ hstate hafter.headers, ?_, hservice, ?_, hparser⟩
  · rw [hurls, hurl]
  · rw [hsame, hurl]

/-- A request is routed by all urls so far or not routed at all. -/
theorem Reports.routed_or {r : Arrival} (handle : HttpHandle σ)
    (h : Reports lib handle.mParser.parser r)
    (hhttp : handle.m_serviceType = .http) :
    ∃ fed, handle.feedRecvData lib r.data = some fed ∧
      (routedUrls fed.effects = [cStr (handle.mParser.url ++ r.delivery.url.flatten)] ∨
        routedUrls fed.effects = []) := by
  obtain ⟨hstate, hurl⟩ := h.parsed handle
  have haccepts : Accepts lib handle r.data := ⟨hhttp, h.nparsed⟩
  have hfed := haccepts.feedRecvData
  rw [isComplete, decide_eq_true hstate, if_pos rfl] at hfed
  by_cases hupgrade : (handle.parsed lib r.data).isUpgradeWSProtocol = true
  · exact ⟨_, hfed.trans (if_pos hupgrade), .inr switchWSProtocol_urls⟩
  · refine ⟨_, hfed.trans (if_neg hupgrade), .inl ?_⟩
    rw [(sendHttpResponse_http (handle.parsed lib r.data) hhttp).1, hurl]

end Complete

theorem cStr_append_ne {url₁ url₂ : Bytes} (h₁ : url₁ ≠ []) (hnul₁ : 0 ∉ url₁)
    (hnul₂ : 0 ∉ url₂) : cStr (url₁ ++ url₂) ≠ cStr url₂ := by
  have hnul : 0 ∉ url₁ ++ url₂ := fun h => (List.mem_append.mp h).elim hnul₁ hnul₂
  rw [cStr_of_notMem hnul, cStr_of_notMem hnul₂]
  exact fun h => h₁ (List.append_left_eq_self.mp h)

theorem not_exists_shows_second {lib : Externals σ} {fresh : Uninitialised}
    {router : HttpRouter} {ws_service : Bool} {r₁ r₂ : Arrival} {rest : List Arrival}
    (hdocumented : Documented lib (r₁ :: r₂ :: rest)) (h₁ : r₁.Ordinary) (h₂ : r₂.Ordinary) :
    ¬ ∃ c, exec (onRecv lib) (onAccept lib fresh router ws_service)
        ([r₁].map Arrival.data) = some c ∧
      c.handle.shows lib r₂.data =
        (HttpHandle.setRouter lib fresh router ws_service).shows lib r₂.data := by
  rintro ⟨c, hc, hshows⟩
  have htidy := tidy_setRouter lib fresh router ws_service
  obtain ⟨fed, hfed, -, hhttp, hurl, hparser⟩ :=
    (hdocumented [] r₁ _ rfl).2.routed (.setRouter lib fresh router ws_service) rfl
      htidy h₁.plain
  obtain ⟨t, ht, hlast⟩ := Option.bind_eq_some_iff.mp hc
  obtain rfl : t = c := Option.some.inj hlast
  obtain rfl := onRecv_eq ht hfed
  have hreports : Reports lib fed.handle.mParser.parser r₂ :=
    hparser ▸ (hdocumented [r₁] r₂ rest rfl).1
  obtain ⟨fed₂, hfed₂, hurls₂⟩ := hreports.routed_or fed.handle hhttp
  obtain ⟨alone, halone, hurls, -⟩ :=
    (hdocumented [r₁] r₂ rest rfl).2.routed (.setRouter lib fresh router ws_service)
      rfl htidy h₂.plain
  have hsame : routedUrls fed₂.effects = routedUrls alone.effects := by
    rw [HttpHandle.shows, HttpHandle.shows, hfed₂, halone] at hshows
    exact congrArg Observation.urls (Option.some.inj hshows)
  rw [hurls] at hsame
  rcases hurls₂ with hurls₂ | hurls₂
  · rw [hurls₂, hurl] at hsame
    exact cStr_append_ne h₁.url h₁.noNul h₂.noNul (List.singleton_inj.mp hsame)
  · rw [hurls₂] at hsame
    cases hsame

/-- A connection keeps ordinary requests apart exactly when there is at most one. -/
theorem isolated_iff (lib : Externals σ) (fresh : Uninitialised) (router : HttpRouter)
    (ws_service : Bool) (rs : List Arrival) (hdocumented : Documented lib rs)
    (hordinary : ∀ r ∈ rs, r.Ordinary) :
    Isolated lib fresh router ws_service rs ↔ rs.length ≤ 1 := by
  constructor
  · intro h
    rcases rs with _ | ⟨r₁, _ | ⟨r₂, rest⟩⟩
    · exact Nat.zero_le 1
    · exact Nat.le_refl 1
    · exact absurd (h [r₁] r₂ rest rfl)
        (not_exists_shows_second hdocumented (hordinary r₁ (by simp)) (hordinary r₂ (by simp)))
  · intro hlength earlier r later hsplit
    have hnil : earlier = [] := by
      rw [hsplit, List.length_append, List.length_cons] at hlength
      exact List.length_eq_zero_iff.mp (by omega)
    subst hnil
    exact ⟨_, rfl, rfl⟩

def pingArrival : Arrival where
  data := ascii "GET /ping HTTP/1.1\r\n\r\n"
  delivery := ping

def pingParser : Externals Unit :=
  .scripted [(pingArrival.data, ping.callbacks)]

theorem isolated_iff_ping :
    Isolated pingParser .zeroed (HttpRouter.new.get (ascii "/ping") pingHandler) false
      [pingArrival, pingArrival] ↔ [pingArrival, pingArrival].length ≤ 1 := by
  have hmem : ∀ r ∈ [pingArrival, pingArrival], r = pingArrival := by
    intro r hr
    simpa using hr
  apply isolated_iff _ _ _ _ _
  · intro earlier r later hsplit
    obtain rfl := hmem r (hsplit ▸ List.mem_append_right _ List.mem_cons_self)
    exact ⟨⟨rfl, rfl⟩, ⟨rfl, rfl⟩⟩
  · intro r hr
    obtain rfl := hmem r hr
    exact ⟨by decide, by decide, fun h hh => absurd hh List.not_mem_nil⟩

/-- The second of two equal requests is routed by `/ping/ping`. -/
theorem not_isolated_ping_ping :
    ¬ Isolated pingParser .zeroed (HttpRouter.new.get (ascii "/ping") pingHandler) false
      [pingArrival, pingArrival] := by
  intro h
  obtain ⟨c, hc, hshows⟩ := h [pingArrival] pingArrival [] rfl
  obtain ⟨⟩ := hc
  have hurls := congrArg (Option.map Observation.urls) hshows
  revert hurls
  decide

end LibConn.Http
