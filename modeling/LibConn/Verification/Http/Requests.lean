import LibConn.Model.HttpRequests
import LibConn.Verification.Http.Messages

/-! # The framing of a request

`fill_http_header` has a request line for two methods only and never looks at the headers of the
request; `makeHttpRequest` leaves out the body that a GET announces. -/

namespace LibConn.Http

open LibConn.Lines

/-- `http_method_str` -/
def httpMethodStr : HttpMethod → Bytes
  | .delete => ascii "DELETE"
  | .get => ascii "GET"
  | .head => ascii "HEAD"
  | .post => ascii "POST"
  | .put => ascii "PUT"
  | .connect => ascii "CONNECT"
  | .options => ascii "OPTIONS"
  | .trace => ascii "TRACE"
  | .copy => ascii "COPY"
  | .lock => ascii "LOCK"
  | .mkcol => ascii "MKCOL"
  | .move => ascii "MOVE"
  | .propfind => ascii "PROPFIND"
  | .proppatch => ascii "PROPPATCH"
  | .search => ascii "SEARCH"
  | .unlock => ascii "UNLOCK"
  | .bind => ascii "BIND"
  | .rebind => ascii "REBIND"
  | .unbind => ascii "UNBIND"
  | .acl => ascii "ACL"
  | .report => ascii "REPORT"
  | .mkactivity => ascii "MKACTIVITY"
  | .checkout => ascii "CHECKOUT"
  | .merge => ascii "MERGE"
  | .msearch => ascii "M-SEARCH"
  | .notify => ascii "NOTIFY"
  | .subscribe => ascii "SUBSCRIBE"
  | .unsubscribe => ascii "UNSUBSCRIBE"
  | .patch => ascii "PATCH"
  | .purge => ascii "PURGE"
  | .mkcalendar => ascii "MKCALENDAR"
  | .link => ascii "LINK"
  | .unlink => ascii "UNLINK"
  | .source => ascii "SOURCE"

def requestLine (method : HttpMethod) (u : Url) : Bytes :=
  httpMethodStr method ++ ascii " /" ++ cStr u.path ++ ascii " HTTP/1.1"

/-- One request line with the method of the request, lines that each name a field, among them
every header of the request and one Content-Length, an empty line, and as many bytes as that
says, which are the body. -/
def Framed (req : HttpRequest) (u : Url) (text : Bytes) : Prop :=
  ∃ lines fields, head 13 10 [] text = some (requestLine req.method u :: lines, req.body) ∧
    readFields lines = some fields ∧
    (∀ entry ∈ req.headers.entries, fieldLine entry ∈ lines) ∧
    (fields.filter isContentLength).map (fun field => decimal field.2) = [some req.body.length]

/-- The fields that `fill_http_header` writes behind the host. -/
def plainFields (req : HttpRequest) : List (Bytes × Bytes) :=
  [(ascii "User-Agent", ascii "libconn"), (ascii "Accept", ascii "*/*"),
    (ascii "Content-Type", ascii "application/x-www-form-urlencoded"),
    (contentLength, formatInt req.body.length)]

/-- The fields that `fill_http_header` always writes. -/
def writtenFields (req : HttpRequest) (u : Url) : List (Bytes × Bytes) :=
  (ascii "Host", cStr u.host) :: plainFields req

/-- A method with a request line, the body of which is sent, a size that `%d` prints, no headers
but those that are written anyway, and no line end in the URL. -/
structure Sendable (req : HttpRequest) (u : Url) : Prop where
  method : req.method = .get ∧ req.body = [] ∨ req.method = .post
  size : req.body.length < 2 ^ 31
  headers : ∀ entry ∈ req.headers.entries, fieldLine entry ∈ (writtenFields req u).map fieldLine
  path : Unbroken 13 10 (cStr u.path)
  host : Unbroken 13 10 (cStr u.host)

variable {req : HttpRequest} {u : Url}

/-- The lines in front of those fields. -/
def firstLines (method : HttpMethod) (u : Url) : List Bytes :=
  if method = .get ∨ method = .post then [requestLine method u] else []

def sentBody (req : HttpRequest) : Bytes :=
  if req.method = .post then req.body else []

theorem sentBody_eq_iff (h : req.method = .get ∨ req.method = .post) :
    sentBody req = req.body ↔ req.method = .get ∧ req.body = [] ∨ req.method = .post := by
  rcases h with h | h
  · simp [sentBody, h, eq_comm]
  · simp [sentBody, h]

theorem fillHttpHeader_eq (req : HttpRequest) (u : Url) :
    fillHttpHeader req u [] =
      spell (firstLines req.method u ++ (writtenFields req u).map fieldLine) [] := by
  have hcrlf : ascii "\r\n" = [13, 10] := rfl
  have hagent : ascii "User-Agent: libconn\r\n" =
      ascii "User-Agent" ++ ascii ": " ++ ascii "libconn" ++ [13, 10] := rfl
  have haccept : ascii "Accept: */*\r\n" =
      ascii "Accept" ++ ascii ": " ++ ascii "*/*" ++ [13, 10] := rfl
  have htype : ascii "Content-Type: application/x-www-form-urlencoded\r\n" =
      ascii "Content-Type" ++ ascii ": " ++ ascii "application/x-www-form-urlencoded" ++
        [13, 10] := by decide +kernel
  have hhost : ascii "Host: " = ascii "Host" ++ ascii ": " := rfl
  have hlength : ascii "Content-Length: " = contentLength ++ ascii ": " := rfl
  have hversion : ascii " HTTP/1.1\r\n" = ascii " HTTP/1.1" ++ [13, 10] := rfl
  have hget : ascii "GET /" = ascii "GET" ++ ascii " /" := rfl
  have hpost : ascii "POST /" = ascii "POST" ++ ascii " /" := rfl
  have hfirst : (if req.method = .get then
        [] ++ ascii "GET /" ++ cStr u.path ++ ascii " HTTP/1.1\r\n"
      else if req.method = .post then
        [] ++ ascii "POST /" ++ cStr u.path ++ ascii " HTTP/1.1\r\n"
      else []) = (firstLines req.method u).flatMap (· ++ [13, 10]) := by
    rw [hversion, hget, hpost]
    by_cases hget : req.method = .get
    · simp [firstLines, requestLine, httpMethodStr, hget]
    · by_cases hpost : req.method = .post <;>
        simp [firstLines, requestLine, httpMethodStr, hget, hpost]
  rw [fillHttpHeader, hfirst, hhost, hagent, haccept, htype, hlength, hcrlf]
  simp only [spell, fieldLine, writtenFields, plainFields, List.map_cons, List.map_nil,
    List.flatMap_append, List.flatMap_cons, List.flatMap_nil, List.append_assoc, List.cons_append,
    List.nil_append]

theorem makeHttpRequest_eq (req : HttpRequest) (u : Url) :
    makeHttpRequest req u =
      spell (firstLines req.method u ++ (writtenFields req u).map fieldLine) (sentBody req) := by
  rw [makeHttpRequest, fillHttpHeader_eq, fillHttpBody, sentBody]
  by_cases hpost : req.method = .post
  · by_cases hbody : req.body = []
    · simp [hpost, hbody]
    · simp [hpost, hbody, spell]
  · simp [hpost]

theorem plainFields_spellable : ∀ field ∈ plainFields req, Spellable field := by
  simp only [plainFields, List.forall_mem_cons]
  exact ⟨spellable_of_plain (by decide +kernel) (by decide +kernel) (by decide +kernel),
    spellable_of_plain (by decide +kernel) (by decide +kernel) (by decide +kernel),
    spellable_of_plain (by decide +kernel) (by decide +kernel) (by decide +kernel),
    spellable_contentLength _, List.forall_mem_nil _⟩

theorem readFields_writtenFields :
    readFields ((writtenFields req u).map fieldLine) =
      some ((ascii "Host", trim blank (cStr u.host)) :: plainFields req) := by
  have hhost : readField (fieldLine (ascii "Host", cStr u.host)) =
      some (ascii "Host", trim blank (cStr u.host)) := readField_fieldLine (by decide) _
  rw [writtenFields, List.map_cons, readFields, hhost, readFields_map plainFields_spellable]
  rfl

theorem contentLength_writtenFields (host : Bytes) :
    (((ascii "Host", host) :: plainFields req).filter isContentLength).map
      (fun field => decimal field.2) = [decimal (formatInt req.body.length)] := by
  have hhost : ¬ isContentLength (ascii "Host", host) = true := by
    rw [isContentLength, decide_eq_true_eq]
    dsimp only
    decide
  have hlength : ∀ value, isContentLength (contentLength, value) = true := fun _ => rfl
  rw [List.filter_cons_of_neg hhost, plainFields, List.filter_cons_of_neg (by decide),
    List.filter_cons_of_neg (by decide), List.filter_cons_of_neg (by decide),
    List.filter_cons_of_pos (hlength _), List.filter_nil, List.map_singleton]

theorem writtenFields_unbroken (hhost : Unbroken 13 10 (cStr u.host)) :
    ∀ line ∈ (writtenFields req u).map fieldLine, Unbroken 13 10 line ∧ line ≠ [] := by
  refine List.forall_mem_map.mpr fun field hfield => ⟨?_, fieldLine_ne_nil field⟩
  rcases List.mem_cons.mp hfield with rfl | hfield
  · exact fieldLine_unbroken (by decide) hhost
  · obtain ⟨hname, -, hvalue, -⟩ := plainFields_spellable field hfield
    exact fieldLine_unbroken hname hvalue

theorem requestLine_ne_nil (method : HttpMethod) (u : Url) : requestLine method u ≠ [] := by
  rw [requestLine]
  exact List.append_ne_nil_of_right_ne_nil _ (by decide)

theorem requestLine_unbroken_iff {method : HttpMethod} (h : method = .get ∨ method = .post) :
    Unbroken 13 10 (requestLine method u) ↔ Unbroken 13 10 (cStr u.path) := by
  constructor
  · intro hline
    exact hline.within ⟨httpMethodStr method ++ ascii " /", ascii " HTTP/1.1", rfl⟩
  · intro hpath
    have hcr : 13 ∉ httpMethodStr method ++ ascii " /" := by
      rcases h with rfl | rfl <;> decide
    exact (hpath.append_left hcr).append_right (by decide)

theorem httpMethodStr_cons (method : HttpMethod) :
    ∃ b₀ b₁ rest, httpMethodStr method = b₀ :: b₁ :: rest ∧ ¬ (b₀ = 72 ∧ b₁ = 111) := by
  cases method <;> exact ⟨_, _, _, rfl, by decide⟩

/-- A host with a line end, but without a colon, leaves a line that is no field, or no
Content-Length. -/
theorem unbroken_host {lines : List Bytes} {fields : List (Bytes × Bytes)} {body behind : Bytes}
    (hcolon : 58 ∉ cStr u.host)
    (hhead : head 13 10 [] (fieldLine (ascii "Host", cStr u.host) ++ 13 :: 10 :: behind) =
      some (lines, body))
    (hfields : readFields lines = some fields)
    (hlength : (fields.filter isContentLength).map (fun field => decimal field.2) ≠ []) :
    Unbroken 13 10 (cStr u.host) := by
  by_contra hbroken
  obtain ⟨before, after, hsplit, hbefore⟩ := exists_of_broken hbroken (by decide)
  have hline : Unbroken 13 10 (fieldLine (ascii "Host", before)) :=
    fieldLine_unbroken (by decide) hbefore
  have htext : fieldLine (ascii "Host", cStr u.host) ++ 13 :: 10 :: behind =
      fieldLine (ascii "Host", before) ++ 13 :: 10 :: (after ++ 13 :: 10 :: behind) := by
    rw [hsplit, fieldLine_eq, fieldLine_eq]
    simp
  rw [htext, head_line (by decide) hline (fieldLine_ne_nil _)] at hhead
  obtain ⟨⟨lines', body'⟩, hlater, heq⟩ := Option.map_eq_some_iff.mp hhead
  obtain ⟨hlines, -⟩ := Prod.mk.inj heq
  obtain rfl : lines = fieldLine (ascii "Host", before) :: lines' := hlines.symm
  -- the line behind the line end
  obtain ⟨line, rest, hnext, hunbroken, hmem⟩ : ∃ line rest,
      after ++ 13 :: 10 :: behind = line ++ 13 :: 10 :: rest ∧ Unbroken 13 10 line ∧
        line ⊆ after := by
    by_cases hafter : Unbroken 13 10 after
    · exact ⟨after, behind, rfl, hafter, List.Subset.refl _⟩
    · obtain ⟨line, rest, rfl, hline⟩ := exists_of_broken hafter (by decide)
      exact ⟨line, rest ++ 13 :: 10 :: behind, by simp, hline, List.subset_append_left _ _⟩
  rw [hnext] at hlater
  by_cases hempty : line = []
  · rw [hempty, List.nil_append, head_empty] at hlater
    obtain ⟨rfl, -⟩ := Prod.mk.inj (Option.some.inj hlater)
    rw [readFields, readField_fieldLine (by decide)] at hfields
    obtain rfl := Option.some.inj hfields
    exact hlength rfl
  · rw [head_line (by decide) hunbroken hempty] at hlater
    obtain ⟨⟨lines'', body''⟩, -, hcons⟩ := Option.map_eq_some_iff.mp hlater
    obtain ⟨rfl, -⟩ := Prod.mk.inj hcons
    have hname : 58 ∈ line := colon_mem_of_readFields hfields line (by simp)
    refine hcolon ?_
    rw [hsplit]
    exact List.mem_append_right _ (List.mem_cons_of_mem _ (List.mem_cons_of_mem _ (hmem hname)))

theorem requested_of_head {lines : List Bytes} {body : Bytes}
    (h : head 13 10 []
        (spell (firstLines req.method u ++ (writtenFields req u).map fieldLine) (sentBody req)) =
      some (requestLine req.method u :: lines, body)) :
    req.method = .get ∨ req.method = .post := by
  by_contra hother
  obtain ⟨b₀, b₁, rest, hbegins, hne⟩ := httpMethodStr_cons req.method
  have htext := eq_of_head h
  rw [firstLines, if_neg hother, List.nil_append, List.nil_append, requestLine,
    hbegins] at htext
  obtain ⟨h₀, htext⟩ := List.cons.inj htext
  obtain ⟨h₁, -⟩ := List.cons.inj htext
  exact hne ⟨h₀.symm, h₁.symm⟩

/-- What is framed can be sent so. -/
theorem Framed.sendable (hhost : 58 ∉ cStr u.host) (h : Framed req u (makeHttpRequest req u)) :
    Sendable req u := by
  obtain ⟨lines, fields, hhead, hfields, hentries, hlength⟩ := h
  rw [makeHttpRequest_eq] at hhead
  have hmethod := requested_of_head hhead
  rw [firstLines, if_pos hmethod, List.singleton_append, spell_cons] at hhead
  have hline : Unbroken 13 10 (requestLine req.method u) :=
    unbroken_of_head hhead (unbroken_of_length_le_one (by simp)) _ List.mem_cons_self
  rw [head_line (by decide) hline (requestLine_ne_nil _ _)] at hhead
  obtain ⟨⟨lines', body⟩, hlater, heq⟩ := Option.map_eq_some_iff.mp hhead
  obtain ⟨hlines, rfl⟩ := Prod.mk.inj heq
  obtain rfl : lines' = lines := (List.cons.inj hlines).2
  have hunbroken : Unbroken 13 10 (cStr u.host) := by
    rw [writtenFields, List.map_cons, spell_cons] at hlater
    exact unbroken_host hhost hlater hfields (by simp [hlength])
  rw [head_spell (writtenFields_unbroken hunbroken)] at hlater
  obtain ⟨rfl, hbody⟩ := Prod.mk.inj (Option.some.inj hlater)
  obtain rfl := Option.some.inj (readFields_writtenFields.symm.trans hfields)
  rw [contentLength_writtenFields] at hlength
  exact ⟨(sentBody_eq_iff hmethod).mp hbody,
    (decimal_formatInt_iff _).mp (List.cons.inj hlength).1, hentries,
    (requestLine_unbroken_iff hmethod).mp hline, hunbroken⟩

/-- What can be sent so is framed. -/
theorem Sendable.framed (h : Sendable req u) : Framed req u (makeHttpRequest req u) := by
  have hmethod : req.method = .get ∨ req.method = .post := h.method.imp_left And.left
  have hlines : ∀ line ∈ requestLine req.method u :: (writtenFields req u).map fieldLine,
      Unbroken 13 10 line ∧ line ≠ [] :=
    List.forall_mem_cons.mpr
      ⟨⟨(requestLine_unbroken_iff hmethod).mpr h.path, requestLine_ne_nil _ _⟩,
        writtenFields_unbroken h.host⟩
  rw [makeHttpRequest_eq, firstLines, if_pos hmethod, (sentBody_eq_iff hmethod).mpr h.method]
  refine ⟨_, _, head_spell hlines, readFields_writtenFields, h.headers, ?_⟩
  rw [contentLength_writtenFields, (decimal_formatInt_iff _).mpr h.size]

/-- A request is framed exactly where it can be sent so. `parseUrl` ends the host at its first
colon. -/
theorem framed_iff (req : HttpRequest) (u : Url) (hhost : 58 ∉ cStr u.host) :
    Framed req u (makeHttpRequest req u) ↔ Sendable req u :=
  ⟨Framed.sendable hhost, Sendable.framed⟩

/-- A POST of three bytes to `h`. -/
theorem framed_post :
    Framed ⟨[], .post, .empty, ascii "a=1", 0⟩ ⟨ascii "http", ascii "h", 80, ascii "p"⟩
      (makeHttpRequest ⟨[], .post, .empty, ascii "a=1", 0⟩
        ⟨ascii "http", ascii "h", 80, ascii "p"⟩) :=
  (framed_iff _ _ (by decide)).mpr
    ⟨.inr rfl, by decide, List.forall_mem_nil _, by decide, by decide⟩

/-- A GET with the header `X: 1`, which is not sent. -/
theorem not_framed_header :
    ¬ Framed ⟨[], .get, .set .empty [88] [49], [], 0⟩ ⟨ascii "http", ascii "h", 80, ascii "p"⟩
      (makeHttpRequest ⟨[], .get, .set .empty [88] [49], [], 0⟩
        ⟨ascii "http", ascii "h", 80, ascii "p"⟩) := by
  rintro ⟨lines, fields, hhead, -, hentries, -⟩
  have hread : head 13 10 []
      (makeHttpRequest ⟨[], .get, .set .empty [88] [49], [], 0⟩
        ⟨ascii "http", ascii "h", 80, ascii "p"⟩) =
      some (requestLine .get ⟨ascii "http", ascii "h", 80, ascii "p"⟩ ::
        (writtenFields ⟨[], .get, .set .empty [88] [49], [], 0⟩
          ⟨ascii "http", ascii "h", 80, ascii "p"⟩).map fieldLine, []) := by
    decide +kernel
  obtain ⟨hlines, -⟩ := Prod.mk.inj (Option.some.inj (hhead.symm.trans hread))
  obtain rfl := (List.cons.inj hlines).2
  have hline := hentries ([88], [49]) List.mem_cons_self
  revert hline
  decide +kernel

end LibConn.Http
