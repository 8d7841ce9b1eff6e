import LibConn.Model.Http
import Mathlib.Data.List.Induction

/-! # What the parser reports of a request

A request reaches the callbacks in pieces: each string in any number of calls, the body
with or without chunks. The facts below say what the pieces of one request leave in the
members of `HttpParser`. -/

namespace LibConn.Http

/-- A header field, each string in the pieces that the data callbacks carry. -/
structure HeaderPieces where
  name : List Bytes
  value : List Bytes

inductive BodyPieces where
  /-- Also the body of a request that has none. -/
  | contentLength (pieces : List Bytes)
  | chunked (chunks : List (List Bytes)) (trailers : List HeaderPieces)

structure Delivery where
  method : HttpMethod
  url : List Bytes
  headers : List HeaderPieces
  body : BodyPieces

def HeaderPieces.callbacks (h : HeaderPieces) : List Callback :=
  h.name.map .headerField ++ h.value.map .headerValue

def BodyPieces.trailers : BodyPieces → List HeaderPieces
  | .contentLength _ => []
  | .chunked _ trailers => trailers

/-- The last chunk is the empty one; the trailers belong to it. -/
def BodyPieces.callbacks : BodyPieces → List Callback
  | .contentLength pieces => pieces.map .body
  | .chunked chunks trailers =>
      chunks.flatMap (fun chunk => .chunkHeader :: chunk.map .body ++ [.chunkComplete]) ++
        .chunkHeader :: trailers.flatMap HeaderPieces.callbacks ++ [.chunkComplete]

/-- The callbacks before `on_headers_complete`. -/
def Delivery.head (d : Delivery) : List Callback :=
  .messageBegin :: d.url.map .url ++ d.headers.flatMap HeaderPieces.callbacks

def Delivery.callbacks (d : Delivery) : List Callback :=
  d.head ++ .headersComplete :: (d.body.callbacks ++ [.messageComplete d.method])

/-- The last callback for the name carries a nonempty text, which does not make the
header look like `Upgrade: websocket`. -/
structure HeaderPieces.Plain (h : HeaderPieces) : Prop where
  named : h.name.getLastD [] ≠ []
  plain : isUpgradeHeader (h.name.getLastD [], h.value.flatten) = false

def Delivery.Plain (d : Delivery) : Prop :=
  ∀ h ∈ d.headers ++ d.body.trailers, h.Plain

/-- `http_parser` on segments of which each is reported in one way, whatever came before. -/
def Externals.scripted (table : List (Bytes × List Callback)) : Externals Unit where
  httpParserInit := ()
  httpParserExecute := fun _ data =>
    match table.find? fun entry => entry.1 = data with
    | some entry => ⟨entry.2, data.length, ()⟩
    | none => ⟨[], 0, ()⟩
  wsEncodeKey := id

/-! ## The header pair at hand -/

def HttpHeaders.Plain (headers : HttpHeaders) : Prop :=
  ∀ it ∈ headers.entries, isUpgradeHeader it = false

/-- Between two header fields: nothing stored or still pending asks for an upgrade. -/
structure Tidy (hp : HttpParserData) : Prop where
  type : hp.parser_type = .request
  headers : HttpHeaders.Plain hp.req.headers
  pending : isUpgradeHeader (hp.header_field, hp.header_value) = false
  cleared : hp.header_field = [] → hp.header_value = []

theorem isUpgradeHeader_nil (name : Bytes) : isUpgradeHeader (name, []) = false := by
  have h : strcaseEq [] (ascii "websocket") = false := by decide
  rw [isUpgradeHeader, h, Bool.and_false]

theorem Tidy.handleHeader {hp : HttpParserData} (h : Tidy hp) :
    Tidy (handleHeader hp) ∧ (handleHeader hp).header_field = [] ∧
      (handleHeader hp).header_value = [] := by
  obtain ⟨htype, hheaders, hpending, hcleared⟩ := h
  rw [Http.handleHeader]
  split_ifs with hfield
  · rw [htype]
    refine ⟨⟨rfl, ?_, isUpgradeHeader_nil [], fun _ => rfl⟩, rfl, rfl⟩
    exact OrderedMap.forall_set hheaders hpending
  · have hnil : hp.header_field = [] := List.length_eq_zero_iff.mp (not_not.mp hfield)
    exact ⟨⟨htype, hheaders, hpending, hcleared⟩, hnil, hcleared hnil⟩

/-- A callback that is not about a header field leaves the pair alone. -/
def Callback.Quiet : Callback → Prop
  | .headerField _ => False
  | .headerValue _ => False
  | _ => True

theorem Tidy.quiet {hp : HttpParserData} (h : Tidy hp) {c : Callback} (hc : c.Quiet) :
    Tidy (onCallback hp c) := by
  cases c with
  | headerField _ => exact hc.elim
  | headerValue _ => exact hc.elim
  | headersComplete =>
      obtain ⟨htype, hheaders, hpending, hcleared⟩ := h.handleHeader.1
      exact ⟨htype, hheaders, hpending, hcleared⟩
  | status _ =>
      obtain ⟨htype, hheaders, hpending, hcleared⟩ := h
      simp only [onCallback, onStatus, htype]
      exact ⟨rfl, hheaders, hpending, hcleared⟩
  | body _ =>
      obtain ⟨htype, hheaders, hpending, hcleared⟩ := h
      simp only [onCallback, onBody, htype]
      exact ⟨rfl, hheaders, hpending, hcleared⟩
  | messageBegin | url _ | messageComplete _ | chunkHeader | chunkComplete =>
      exact { h with }

theorem Tidy.quietAll {cs : List Callback} (hcs : ∀ c ∈ cs, c.Quiet) {hp : HttpParserData}
    (h : Tidy hp) : Tidy (cs.foldl onCallback hp) := by
  induction cs generalizing hp with
  | nil => exact h
  | cons c cs ih =>
      exact ih (fun c' hc' => hcs c' (List.mem_cons_of_mem _ hc'))
        (h.quiet (hcs c List.mem_cons_self))

theorem Tidy.onHeaderField {hp : HttpParserData} (h : Tidy hp) (piece : Bytes) :
    Tidy (onHeaderField hp piece) ∧ (onHeaderField hp piece).header_field = piece ∧
      (onHeaderField hp piece).header_value = [] := by
  obtain ⟨ht, hfield, hvalue⟩ := h.handleHeader
  have hf : (Http.onHeaderField hp piece).header_field = piece := by
    rw [Http.onHeaderField, hfield, List.nil_append]
  refine ⟨⟨ht.type, ht.headers, ?_, fun _ => hvalue⟩, hf, hvalue⟩
  rw [hf, show (Http.onHeaderField hp piece).header_value = [] from hvalue]
  exact isUpgradeHeader_nil piece

/-- Every call for a name starts the pair again, so the last one decides it. -/
theorem Tidy.names {hp : HttpParserData} (h : Tidy hp) {pieces : List Bytes}
    (hne : pieces ≠ []) :
    Tidy ((pieces.map Callback.headerField).foldl onCallback hp) ∧
      ((pieces.map Callback.headerField).foldl onCallback hp).header_field =
        pieces.getLastD [] ∧
      ((pieces.map Callback.headerField).foldl onCallback hp).header_value = [] := by
  induction pieces generalizing hp with
  | nil => exact absurd rfl hne
  | cons piece pieces ih =>
      cases pieces with
      | nil => exact h.onHeaderField piece
      | cons next pieces => exact ih (h.onHeaderField piece).1 (List.cons_ne_nil _ _)

theorem values_foldl (pieces : List Bytes) (hp : HttpParserData) :
    ∃ state, (pieces.map Callback.headerValue).foldl onCallback hp =
      { hp with header_value := hp.header_value ++ pieces.flatten, state := state } := by
  induction pieces generalizing hp with
  | nil => exact ⟨hp.state, by rw [List.flatten_nil, List.append_nil]; rfl⟩
  | cons piece pieces ih =>
      obtain ⟨state, h⟩ := ih (onHeaderValue hp piece)
      refine ⟨state, h.trans ?_⟩
      rw [List.flatten_cons, ← List.append_assoc]
      rfl

theorem Tidy.header {hp : HttpParserData} (h : Tidy hp) {pieces : HeaderPieces}
    (hplain : pieces.Plain) : Tidy (pieces.callbacks.foldl onCallback hp) := by
  have hne : pieces.name ≠ [] := by
    intro hnil
    exact hplain.named (by rw [hnil]; rfl)
  obtain ⟨ht, hfield, hvalue⟩ := h.names hne
  rw [HeaderPieces.callbacks, List.foldl_append]
  obtain ⟨state, hvalues⟩ := values_foldl pieces.value
    ((pieces.name.map Callback.headerField).foldl onCallback hp)
  rw [hvalues]
  refine ⟨ht.type, ht.headers, ?_, fun hnil => ?_⟩
  · rw [hfield, hvalue]
    exact hplain.plain
  · exact absurd (hfield ▸ hnil) hplain.named

theorem Tidy.headerList {headers : List HeaderPieces} (hplain : ∀ h ∈ headers, h.Plain)
    {hp : HttpParserData} (h : Tidy hp) :
    Tidy ((headers.flatMap HeaderPieces.callbacks).foldl onCallback hp) := by
  induction headers generalizing hp with
  | nil => exact h
  | cons pieces headers ih =>
      rw [List.flatMap_cons, List.foldl_append]
      exact ih (fun h' hh' => hplain h' (List.mem_cons_of_mem _ hh'))
        (h.header (hplain pieces List.mem_cons_self))

theorem Tidy.head {hp : HttpParserData} (h : Tidy hp) {d : Delivery} (hd : d.Plain) :
    Tidy (d.head.foldl onCallback hp) := by
  rw [Delivery.head, List.foldl_append]
  apply Tidy.headerList (fun h' hh' => hd h' (List.mem_append_left _ hh'))
  refine h.quietAll fun c hc => ?_
  rcases List.mem_cons.mp hc with rfl | hc
  · trivial
  · obtain ⟨piece, -, rfl⟩ := List.mem_map.mp hc
    trivial

theorem Tidy.body {hp : HttpParserData} (h : Tidy hp) {body : BodyPieces}
    (hplain : ∀ h ∈ body.trailers, h.Plain) : Tidy (body.callbacks.foldl onCallback hp) := by
  cases body with
  | contentLength pieces =>
      refine h.quietAll fun c hc => ?_
      obtain ⟨piece, -, rfl⟩ := List.mem_map.mp hc
      trivial
  | chunked chunks trailers =>
      rw [BodyPieces.callbacks, List.foldl_append, List.foldl_append, List.foldl_cons]
      have hchunks : ∀ c ∈ chunks.flatMap (fun chunk =>
          Callback.chunkHeader :: chunk.map .body ++ [.chunkComplete]), c.Quiet := by
        intro c hc
        obtain ⟨chunk, -, hc⟩ := List.mem_flatMap.mp hc
        rcases List.mem_append.mp hc with hc | hc
        · rcases List.mem_cons.mp hc with rfl | hc
          · trivial
          · obtain ⟨piece, -, rfl⟩ := List.mem_map.mp hc
            trivial
        · rw [List.mem_singleton.mp hc]
          trivial
      have hbegin := (h.quietAll hchunks).quiet (c := .chunkHeader) trivial
      exact (Tidy.headerList hplain hbegin).quiet (c := .chunkComplete) trivial

theorem Tidy.delivery {hp : HttpParserData} (h : Tidy hp) {d : Delivery} (hd : d.Plain) :
    Tidy (d.callbacks.foldl onCallback hp) := by
  rw [Delivery.callbacks, List.foldl_append, List.foldl_cons, List.foldl_append]
  have hheaders := (h.head hd).quiet (c := .headersComplete) trivial
  exact (hheaders.body fun h' hh' => hd h' (List.mem_append_right _ hh')).quiet
    (c := .messageComplete d.method) trivial

/-! ## The other members -/

/-- What a callback adds to `url`. -/
def Callback.urlPart : Callback → Bytes
  | .url at' => at'
  | _ => []

def Callback.completes : Callback → Bool
  | .messageComplete _ => true
  | _ => false

theorem handleHeader_rest (hp : HttpParserData) :
    (handleHeader hp).url = hp.url ∧ (handleHeader hp).method = hp.method := by
  rw [handleHeader]
  split_ifs
  · cases hp.parser_type <;> exact ⟨rfl, rfl⟩
  · exact ⟨rfl, rfl⟩

theorem onCallback_url (hp : HttpParserData) (c : Callback) :
    (onCallback hp c).url = hp.url ++ c.urlPart := by
  cases c with
  | url _ => rfl
  | headerField _ => exact (handleHeader_rest hp).1.trans (List.append_nil _).symm
  | headersComplete => exact (handleHeader_rest hp).1.trans (List.append_nil _).symm
  | status _ | body _ =>
      simp only [onCallback, onStatus, onBody, Callback.urlPart, List.append_nil]
      cases hp.parser_type <;> rfl
  | messageBegin | headerValue _ | messageComplete _ | chunkHeader | chunkComplete =>
      exact (List.append_nil _).symm

/-- Nothing ever clears `url`. -/
theorem foldl_url (cs : List Callback) (hp : HttpParserData) :
    (cs.foldl onCallback hp).url = hp.url ++ cs.flatMap Callback.urlPart := by
  induction cs generalizing hp with
  | nil => exact (List.append_nil _).symm
  | cons c cs ih =>
      rw [List.foldl_cons, ih, onCallback_url, List.flatMap_cons, List.append_assoc]

theorem onCallback_method (hp : HttpParserData) {c : Callback} (hc : c.completes = false) :
    (onCallback hp c).method = hp.method := by
  cases c with
  | messageComplete m => cases hc
  | headerField _ => exact (handleHeader_rest hp).2
  | headersComplete => exact (handleHeader_rest hp).2
  | status _ | body _ =>
      simp only [onCallback, onStatus, onBody]
      cases hp.parser_type <;> rfl
  | messageBegin | url _ | headerValue _ | chunkHeader | chunkComplete => rfl

theorem foldl_method {cs : List Callback} (hcs : ∀ c ∈ cs, c.completes = false)
    (hp : HttpParserData) : (cs.foldl onCallback hp).method = hp.method := by
  induction cs generalizing hp with
  | nil => rfl
  | cons c cs ih =>
      rw [List.foldl_cons, ih fun c' hc' => hcs c' (List.mem_cons_of_mem _ hc')]
      exact onCallback_method hp (hcs c List.mem_cons_self)

/-! ## The end of the headers -/

/-- The last callback that touches `state` was `on_headers_complete`. -/
def AwaitsBody (cs : List Callback) : Prop :=
  ∃ head chunks, cs = head ++ .headersComplete :: chunks ∧
    ∀ c ∈ chunks, c = .chunkHeader ∨ c = .chunkComplete

theorem AwaitsBody.append {cs : List Callback} (h : AwaitsBody cs) (earlier : List Callback) :
    AwaitsBody (earlier ++ cs) := by
  obtain ⟨head, chunks, rfl, hchunks⟩ := h
  exact ⟨earlier ++ head, chunks, (List.append_assoc _ _ _).symm, hchunks⟩

theorem AwaitsBody.last {cs : List Callback} (h : AwaitsBody cs) :
    cs.getLast? = some .headersComplete ∨ cs.getLast? = some .chunkHeader ∨
      cs.getLast? = some .chunkComplete := by
  obtain ⟨head, chunks, rfl, hchunks⟩ := h
  rcases List.eq_nil_or_concat' chunks with rfl | ⟨chunks, c, rfl⟩
  · exact .inl List.getLast?_concat
  · rw [← List.cons_append, ← List.append_assoc, List.getLast?_concat]
    rcases hchunks c (List.mem_append_right _ (List.mem_singleton.mpr rfl)) with rfl | rfl
    · exact .inr (.inl rfl)
    · exact .inr (.inr rfl)

theorem awaitsBody_of_complete {cs : List Callback} (hcs : ∀ c ∈ cs, c.completes = false)
    {hp : HttpParserData} (hhp : hp.state ≠ .messageComplete)
    (h : (cs.foldl onCallback hp).state = .messageComplete) : AwaitsBody cs := by
  induction cs using List.reverseRecOn with
  | nil => exact absurd h hhp
  | append_singleton cs c ih =>
      have hfirst : ∀ c' ∈ cs, c'.completes = false :=
        fun c' hc' => hcs c' (List.mem_append_left _ hc')
      rw [List.foldl_append] at h
      -- a chunk callback leaves the state as the earlier ones set it
      have hchunk : (c = .chunkHeader ∨ c = .chunkComplete) →
          (cs.foldl onCallback hp).state = .messageComplete → AwaitsBody (cs ++ [c]) := by
        intro hc hstate
        obtain ⟨head, chunks, rfl, hchunks⟩ := ih hfirst hstate
        refine ⟨head, chunks ++ [c], by rw [List.append_assoc, List.cons_append], ?_⟩
        intro c' hc'
        rcases List.mem_append.mp hc' with hc' | hc'
        · exact hchunks c' hc'
        · rw [List.mem_singleton.mp hc']
          exact hc
      cases c with
      | headersComplete => exact ⟨cs, [], rfl, fun c hc => absurd hc List.not_mem_nil⟩
      | chunkHeader => exact hchunk (.inl rfl) h
      | chunkComplete => exact hchunk (.inr rfl) h
      | messageComplete m => cases hcs (.messageComplete m) (by simp)
      | messageBegin | url _ | headerField _ | headerValue _ => cases h
      | status _ =>
          simp only [List.foldl_cons, List.foldl_nil, onCallback, onStatus] at h
          split at h <;> cases h
      | body _ =>
          simp only [List.foldl_cons, List.foldl_nil, onCallback, onBody] at h
          split at h <;> cases h

/-- Between its first callback and its last, only the end of its headers makes a message
look complete. -/
theorem awaitsBody_of_begun {cs : List Callback} (hcs : ∀ c ∈ cs, c.completes = false)
    {hp : HttpParserData}
    (h : ((.messageBegin :: cs).foldl onCallback hp).state = .messageComplete) :
    AwaitsBody (.messageBegin :: cs) := by
  have hbegin : (onMessageBegin hp).state ≠ .messageComplete := by
    change HttpParserState.messageBegin ≠ .messageComplete
    decide
  exact (awaitsBody_of_complete hcs hbegin h).append [.messageBegin]

/-! ## Requests in a row -/

section Markers

variable {α : Type} {p : α → Bool} {xs ys us vs : List α} {a b : α}

theorem prefix_of_unmarked (h : xs <+: us ++ b :: vs) (hb : p b = true)
    (hxs : ∀ x ∈ xs, p x = false) : xs <+: us := by
  rcases List.prefix_or_prefix_of_prefix h (List.prefix_append us (b :: vs)) with h' | h'
  · exact h'
  · obtain ⟨rest, rfl⟩ := h'
    have hrest : rest <+: b :: vs := (List.prefix_append_right_inj us).mp h
    cases rest with
    | nil => exact (List.append_nil us).symm ▸ List.prefix_rfl
    | cons x rest =>
        obtain ⟨rfl, -⟩ := List.cons_prefix_cons.mp hrest
        rw [hxs x (List.mem_append_right _ List.mem_cons_self)] at hb
        cases hb

theorem eq_of_prefix_marked (h : xs ++ a :: ys <+: us ++ vs) (hbegins : xs <+: us)
    (ha : p a = true) (hus : ∀ x ∈ us, p x = false) : xs = us := by
  obtain ⟨rest, rfl⟩ := hbegins
  rw [List.append_assoc, List.prefix_append_right_inj] at h
  cases rest with
  | nil => exact (List.append_nil xs).symm
  | cons x rest =>
      obtain ⟨rfl, -⟩ := List.cons_prefix_cons.mp h
      rw [hus a (List.mem_append_right _ List.mem_cons_self)] at ha
      cases ha

/-- Where one list begins the other, the first marks are at the same place. -/
theorem first_marked (h : xs ++ a :: ys <+: us ++ b :: vs) (ha : p a = true) (hb : p b = true)
    (hxs : ∀ x ∈ xs, p x = false) (hus : ∀ x ∈ us, p x = false) :
    xs = us ∧ a = b ∧ ys <+: vs := by
  have hbegins := prefix_of_unmarked ((List.prefix_append xs (a :: ys)).trans h) hb hxs
  obtain rfl := eq_of_prefix_marked h hbegins ha hus
  obtain ⟨rfl, hys⟩ := List.cons_prefix_cons.mp ((List.prefix_append_right_inj xs).mp h)
  exact ⟨rfl, rfl, hys⟩

theorem only_marked (h : xs ++ a :: ys <+: us ++ b :: vs) (ha : p a = true)
    (hus : ∀ x ∈ us, p x = false) (hvs : ∀ x ∈ vs, p x = false) : xs = us := by
  rcases List.prefix_or_prefix_of_prefix ((List.prefix_append xs (a :: ys)).trans h)
    (List.prefix_append us (b :: vs)) with hbegins | ⟨rest, rfl⟩
  · exact eq_of_prefix_marked h hbegins ha hus
  · rw [List.append_assoc, List.prefix_append_right_inj] at h
    cases rest with
    | nil => exact List.append_nil us
    | cons x rest =>
        obtain ⟨-, hrest⟩ := List.cons_prefix_cons.mp h
        rw [hvs a (hrest.subset (List.mem_append_right _ List.mem_cons_self))] at ha
        cases ha

end Markers

def Callback.endsHeaders : Callback → Bool
  | .headersComplete => true
  | _ => false

/-- A callback for a header field or for a part of the body. -/
structure Callback.Inner (c : Callback) : Prop where
  completes : c.completes = false
  endsHeaders : c.endsHeaders = false
  urlPart : c.urlPart = []

theorem HeaderPieces.inner {headers : List HeaderPieces} :
    ∀ c ∈ headers.flatMap HeaderPieces.callbacks, c.Inner := by
  intro c hc
  obtain ⟨h, -, hc⟩ := List.mem_flatMap.mp hc
  rcases List.mem_append.mp hc with hc | hc <;>
    obtain ⟨piece, -, rfl⟩ := List.mem_map.mp hc <;> exact ⟨rfl, rfl, rfl⟩

theorem BodyPieces.inner {body : BodyPieces} : ∀ c ∈ body.callbacks, c.Inner := by
  intro c hc
  cases body with
  | contentLength pieces =>
      obtain ⟨piece, -, rfl⟩ := List.mem_map.mp hc
      exact ⟨rfl, rfl, rfl⟩
  | chunked chunks trailers =>
      simp only [BodyPieces.callbacks, List.mem_append, List.mem_cons, List.not_mem_nil,
        or_false] at hc
      rcases hc with (hc | rfl | hc) | rfl
      · obtain ⟨chunk, -, hc⟩ := List.mem_flatMap.mp hc
        simp only [List.mem_append, List.mem_cons, List.mem_map, List.not_mem_nil,
          or_false] at hc
        rcases hc with (rfl | ⟨piece, -, rfl⟩) | rfl <;> exact ⟨rfl, rfl, rfl⟩
      · exact ⟨rfl, rfl, rfl⟩
      · exact HeaderPieces.inner c hc
      · exact ⟨rfl, rfl, rfl⟩

theorem Delivery.head_unmarked (d : Delivery) :
    ∀ c ∈ d.head, c.completes = false ∧ c.endsHeaders = false := by
  intro c hc
  rcases List.mem_append.mp hc with hc | hc
  · rcases List.mem_cons.mp hc with rfl | hc
    · exact ⟨rfl, rfl⟩
    · obtain ⟨piece, -, rfl⟩ := List.mem_map.mp hc
      exact ⟨rfl, rfl⟩
  · have hinner := HeaderPieces.inner c hc
    exact ⟨hinner.completes, hinner.endsHeaders⟩

/-- The callbacks before `on_message_complete`. -/
def Delivery.front (d : Delivery) : List Callback :=
  d.head ++ .headersComplete :: d.body.callbacks

theorem Delivery.callbacks_eq (d : Delivery) :
    d.callbacks = d.front ++ [.messageComplete d.method] := by
  rw [Delivery.callbacks, Delivery.front, List.append_assoc, List.cons_append]

theorem Delivery.front_unmarked (d : Delivery) : ∀ c ∈ d.front, c.completes = false := by
  intro c hc
  rcases List.mem_append.mp hc with hc | hc
  · exact (d.head_unmarked c hc).1
  · rcases List.mem_cons.mp hc with rfl | hc
    · rfl
    · exact (BodyPieces.inner c hc).completes

theorem flatMap_urlPart_map (pieces : List Bytes) :
    (pieces.map Callback.url).flatMap Callback.urlPart = pieces.flatten := by
  rw [List.flatMap_map]
  exact List.flatMap_id'

theorem Delivery.urlParts (d : Delivery) :
    d.callbacks.flatMap Callback.urlPart = d.url.flatten := by
  have hheaders : (d.headers.flatMap HeaderPieces.callbacks).flatMap Callback.urlPart = [] :=
    List.flatMap_eq_nil_iff.mpr fun c hc => (HeaderPieces.inner c hc).urlPart
  have hbody : d.body.callbacks.flatMap Callback.urlPart = [] :=
    List.flatMap_eq_nil_iff.mpr fun c hc => (BodyPieces.inner c hc).urlPart
  simp only [Delivery.callbacks, Delivery.head, List.flatMap_append, List.flatMap_cons,
    flatMap_urlPart_map, hheaders, hbody, Callback.urlPart, List.flatMap_nil,
    List.append_nil, List.nil_append]

/-- The completed messages among the callbacks. -/
def completed (cs : List Callback) : ℕ :=
  cs.countP Callback.completes

theorem completed_append (cs cs' : List Callback) :
    completed (cs ++ cs') = completed cs + completed cs' :=
  List.countP_append

theorem completed_unmarked {cs : List Callback} (h : ∀ c ∈ cs, c.completes = false) :
    completed cs = 0 :=
  List.countP_eq_zero.mpr fun c hc => by rw [h c hc]; exact Bool.false_ne_true

theorem Delivery.completed (d : Delivery) : completed d.callbacks = 1 := by
  rw [d.callbacks_eq, completed_append, completed_unmarked d.front_unmarked]
  rfl

theorem completed_deliveries (ds : List Delivery) :
    completed (ds.flatMap Delivery.callbacks) = ds.length := by
  induction ds with
  | nil => rfl
  | cons d ds ih =>
      rw [List.flatMap_cons, completed_append, d.completed, ih, List.length_cons, Nat.add_comm]

/-- The headers are tidy when a request has got as far as the end of its headers. -/
theorem Tidy.awaiting {later : List Delivery} (hlater : ∀ d ∈ later, d.Plain)
    {before : List Callback} (hbegins : before <+: later.flatMap Delivery.callbacks)
    (hbefore : ∀ c ∈ before, c.completes = false) (hawaits : AwaitsBody before)
    {hp : HttpParserData} (h : Tidy hp) : Tidy (before.foldl onCallback hp) := by
  obtain ⟨head, chunks, rfl, hchunks⟩ := hawaits
  cases later with
  | nil => exact absurd (List.prefix_nil.mp hbegins) (by simp)
  | cons d later =>
      rw [List.flatMap_cons, d.callbacks_eq, List.append_assoc, List.singleton_append] at hbegins
      -- the request is not over, so its headers end once
      have hfront := prefix_of_unmarked hbegins rfl hbefore
      obtain rfl : head = d.head :=
        only_marked (p := Callback.endsHeaders) hfront rfl (fun c hc => (d.head_unmarked c hc).2)
          fun c hc => (BodyPieces.inner c hc).endsHeaders
      rw [List.foldl_append, List.foldl_cons]
      refine ((h.head (hlater d List.mem_cons_self)).quiet (c := .headersComplete)
        trivial).quietAll fun c hc => ?_
      rcases hchunks c hc with rfl | rfl <;> trivial

end LibConn.Http
