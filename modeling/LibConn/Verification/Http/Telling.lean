import LibConn.Verification.Http.Replies

/-! # The response that the callbacks tell of

A name or a value comes in a call for each segment that has a part of it: a name goes on until
a value comes, and a value until the next name. Read so, the callbacks tell the response as it
was sent. `HttpParser` reads them otherwise; what it keeps is said here for any callbacks. -/

namespace LibConn.Http

/-- A response that is being told, the last header first. -/
structure Told where
  status_code : Option ℤ
  headers : List (Bytes × Bytes)
  inName : Bool
  deriving DecidableEq, Repr

def Told.nothing : Told :=
  ⟨none, [], false⟩

def Told.add (told : Told) : Callback → Told
  | .messageBegin => .nothing
  | .status status_code => { told with status_code := some status_code }
  | .headerField piece =>
      match told.inName, told.headers with
      | true, (name, value) :: earlier =>
          { told with headers := (name ++ piece, value) :: earlier }
      | _, headers => { told with headers := (piece, []) :: headers, inName := true }
  | .headerValue piece =>
      match told.headers with
      | (name, value) :: earlier =>
          { told with headers := (name, value ++ piece) :: earlier, inName := false }
      | [] => told
  | _ => told

/-- The response that the callbacks tell of, the last one if there are several. -/
def told (cs : List Callback) : Told :=
  cs.foldl Told.add .nothing

/-- The value of the last header with this name. -/
def Told.value (told : Told) (name : Bytes) : Option Bytes :=
  (told.headers.find? fun it => it.1 = name).map Prod.snd

/-! ## A response in pieces -/

section Pieces

theorem told_name (pieces : List Bytes) (status_code : Option ℤ) (name value : Bytes)
    (earlier : List (Bytes × Bytes)) :
    (pieces.map Callback.headerField).foldl Told.add
        ⟨status_code, (name, value) :: earlier, true⟩ =
      ⟨status_code, (name ++ pieces.flatten, value) :: earlier, true⟩ := by
  induction pieces generalizing name with
  | nil => simp
  | cons piece pieces ih =>
      rw [List.map_cons, List.foldl_cons]
      refine (ih (name ++ piece)).trans ?_
      rw [List.flatten_cons, List.append_assoc]

theorem told_value (pieces : List Bytes) (status_code : Option ℤ) (name value : Bytes)
    (earlier : List (Bytes × Bytes)) (hpieces : pieces ≠ []) (inName : Bool) :
    (pieces.map Callback.headerValue).foldl Told.add
        ⟨status_code, (name, value) :: earlier, inName⟩ =
      ⟨status_code, (name, value ++ pieces.flatten) :: earlier, false⟩ := by
  induction pieces generalizing value inName with
  | nil => exact absurd rfl hpieces
  | cons piece pieces ih =>
      rw [List.map_cons, List.foldl_cons]
      change (pieces.map Callback.headerValue).foldl Told.add
        ⟨status_code, (name, value ++ piece) :: earlier, false⟩ = _
      by_cases hlast : pieces = []
      · rw [hlast]
        simp
      · rw [ih (value ++ piece) hlast false, List.flatten_cons, List.append_assoc]

theorem told_header (h : HeaderPieces) (hname : h.name ≠ []) (hvalue : h.value ≠ [])
    (status_code : Option ℤ) (earlier : List (Bytes × Bytes)) :
    h.callbacks.foldl Told.add ⟨status_code, earlier, false⟩ =
      ⟨status_code, h.whole :: earlier, false⟩ := by
  obtain ⟨name, value⟩ := h
  obtain ⟨piece, pieces, rfl⟩ := List.exists_cons_of_ne_nil hname
  rw [HeaderPieces.callbacks, List.foldl_append, List.map_cons, List.foldl_cons]
  change (value.map Callback.headerValue).foldl Told.add ((pieces.map Callback.headerField).foldl
    Told.add ⟨status_code, (piece, []) :: earlier, true⟩) = _
  rw [told_name, told_value value _ _ _ _ hvalue, HeaderPieces.whole, List.flatten_cons]
  rfl

/-- However its names and values are cut, the response is told as a whole. -/
theorem Reply.told_head (reply : Reply) (hvalues : ∀ h ∈ reply.headers, h.value ≠ []) :
    told reply.head =
      ⟨some reply.status_code, (reply.headers.map HeaderPieces.whole).reverse, false⟩ := by
  have hstatus : ∀ n, (List.replicate (n + 1) (Callback.status reply.status_code)).foldl Told.add
      .nothing = ⟨some reply.status_code, [], false⟩ := by
    intro n
    induction n with
    | zero => rfl
    | succ n ih =>
        rw [List.replicate_succ', List.foldl_append, ih]
        rfl
  have hheaders : ∀ (hs : List HeaderPieces) (earlier : List (Bytes × Bytes)),
      (∀ h ∈ hs, h.name ≠ [] ∧ h.value ≠ []) →
      (hs.flatMap HeaderPieces.callbacks).foldl Told.add
          ⟨some reply.status_code, earlier, false⟩ =
        ⟨some reply.status_code, (hs.map HeaderPieces.whole).reverse ++ earlier, false⟩ := by
    intro hs
    induction hs with
    | nil => exact fun _ _ => rfl
    | cons h hs ih =>
        intro earlier hpieces
        obtain ⟨hname, hvalue⟩ := hpieces h List.mem_cons_self
        rw [List.flatMap_cons, List.foldl_append, told_header h hname hvalue,
          ih _ fun h' hh' => hpieces h' (List.mem_cons_of_mem _ hh'), List.map_cons,
          List.reverse_cons, List.append_assoc, List.singleton_append]
  obtain ⟨n, hn⟩ := Nat.exists_eq_succ_of_ne_zero reply.reason_pos.ne'
  rw [told, Reply.head, hn, List.cons_append, List.foldl_cons, List.foldl_append,
    show Told.add .nothing .messageBegin = .nothing from rfl, hstatus,
    hheaders _ _ fun h hh => ⟨reply.names h hh, hvalues h hh⟩, List.append_nil]

end Pieces

/-! ## What is kept of it -/

/-- `handle_header` is called. -/
def Callback.stores : Callback → Bool
  | .headerField _ | .headersComplete => true
  | _ => false

/-- A name or a piece of one is `name`, and it has been stored. -/
def NamedIn (name : Bytes) (cs : List Callback) : Prop :=
  ∃ before behind, cs = before ++ .headerField name :: behind ∧ ∃ c ∈ behind, c.stores = true

/-- The last callback that touches `state` was the end of the headers or of a message. -/
def Ended (cs : List Callback) : Prop :=
  ∃ head c chunks, cs = head ++ c :: chunks ∧ (c.endsHeaders = true ∨ c.completes = true) ∧
    ∀ c ∈ chunks, c = .chunkHeader ∨ c = .chunkComplete

def Callback.statusCode : Callback → Option ℤ
  | .status status_code => some status_code
  | _ => none

/-- The status that is told last. -/
def statusTold (cs : List Callback) : Option ℤ :=
  (cs.filterMap Callback.statusCode).getLast?

/-- A parser for a response with this status, that has done what the callbacks do. -/
def Notified (status : ℤ) (cs : List Callback) (hp : HttpParserData) : Prop :=
  ∃ start : HttpParserData, start.parser_type = .response ∧ start.state ≠ .messageComplete ∧
    start.header_field = [] ∧ start.resp.headers = .empty ∧ start.resp.status_code = status ∧
      hp = cs.foldl onCallback start

section Kept

variable {name : Bytes} {cs : List Callback} {c : Callback} {hp : HttpParserData} {status : ℤ}

theorem Notified.append (h : Notified status cs hp) (more : List Callback) :
    Notified status (cs ++ more) (more.foldl onCallback hp) := by
  obtain ⟨start, htype, hstate, hfield, hheaders, hstatus, rfl⟩ := h
  exact ⟨start, htype, hstate, hfield, hheaders, hstatus, (List.foldl_append ..).symm⟩

theorem namedIn_cons :
    NamedIn name (c :: cs) ↔
      (c = .headerField name ∧ ∃ c ∈ cs, c.stores = true) ∨ NamedIn name cs := by
  constructor
  · rintro ⟨before, behind, hcs, hstores⟩
    rcases List.cons_eq_append_iff.mp hcs with ⟨rfl, hcs⟩ | ⟨before, rfl, rfl⟩
    · obtain ⟨rfl, rfl⟩ := List.cons.inj hcs
      exact .inl ⟨rfl, hstores⟩
    · exact .inr ⟨before, behind, rfl, hstores⟩
  · rintro (⟨rfl, hstores⟩ | ⟨before, behind, rfl, hstores⟩)
    · exact ⟨[], cs, rfl, hstores⟩
    · exact ⟨c :: before, behind, rfl, hstores⟩

theorem handleHeader_find (htype : hp.parser_type = .response) (hname : name ≠ []) :
    (handleHeader hp).resp.headers.find name ≠ none ↔
      hp.resp.headers.find name ≠ none ∨ hp.header_field = name := by
  by_cases hfield : hp.header_field = []
  · rw [handleHeader_unnamed hfield]
    exact ⟨.inl, fun h => h.resolve_right fun hsame => hname (hsame.symm.trans hfield)⟩
  · rw [handleHeader, if_pos fun h => hfield (List.length_eq_zero_iff.mp h), htype]
    dsimp only
    by_cases hsame : hp.header_field = name
    · subst hsame
      rw [OrderedMap.find_set_self]
      exact iff_of_true (Option.some_ne_none _) (.inr rfl)
    · rw [OrderedMap.find_set_of_ne _ _ hsame]
      exact ⟨.inl, fun h => h.resolve_right hsame⟩

theorem onCallback_unstored (htype : hp.parser_type = .response) (hc : c.stores = false) :
    (onCallback hp c).header_field = hp.header_field ∧
      (onCallback hp c).resp.headers = hp.resp.headers := by
  cases c with
  | headerField _ | headersComplete => cases hc
  | status _ => rw [onCallback, onStatus, htype]; exact ⟨rfl, rfl⟩
  | body _ => rw [onCallback, onBody, htype]; exact ⟨rfl, rfl⟩
  | messageBegin | url _ | headerValue _ | messageComplete _ | chunkHeader | chunkComplete =>
      exact ⟨rfl, rfl⟩

/-- The names of the response are the pieces of names, each behind which another name begins or
the headers end. -/
theorem foldl_find_iff (htype : hp.parser_type = .response) (hname : name ≠ []) :
    (cs.foldl onCallback hp).resp.headers.find name ≠ none ↔
      hp.resp.headers.find name ≠ none ∨
        (hp.header_field = name ∧ ∃ c ∈ cs, c.stores = true) ∨ NamedIn name cs := by
  induction cs generalizing hp with
  | nil => simp [NamedIn]
  | cons c cs ih =>
      rw [List.foldl_cons, ih (onCallback_body htype c).1, namedIn_cons, List.exists_mem_cons_iff]
      generalize hlater : (∃ c ∈ cs, c.stores = true) = later
      cases hc : c.stores with
      | false =>
          obtain ⟨hfield, hheaders⟩ := onCallback_unstored htype hc
          have hnot : c ≠ .headerField name := by
            rintro rfl
            cases hc
          rw [hfield, hheaders]
          simp only [hnot, Bool.false_eq_true, false_and, false_or]
      | true =>
          have hstored := handleHeader_find htype hname
          cases c with
          | headerField piece =>
              rw [show (onCallback hp (.headerField piece)).resp.headers.find name ≠ none ↔ _ from
                hstored, onCallback, onHeaderField_field, Callback.headerField.injEq]
              tauto
          | headersComplete =>
              have hfield : (onCallback hp .headersComplete).header_field ≠ name :=
                fun hsame => hname (hsame.symm.trans (handleHeader_field hp))
              rw [show (onCallback hp .headersComplete).resp.headers.find name ≠ none ↔ _ from
                hstored]
              simp only [hfield, reduceCtorEq, false_and, false_or, true_or, and_true]
              exact or_assoc
          | status _ | body _ | messageBegin | url _ | headerValue _ | messageComplete _
          | chunkHeader | chunkComplete => cases hc

theorem statusTold_cons : statusTold (c :: cs) = (statusTold cs).or c.statusCode := by
  rw [statusTold, statusTold, List.filterMap_cons]
  cases c.statusCode with
  | none => rw [Option.or_none]
  | some code =>
      dsimp only
      rw [List.getLast?_cons]
      cases (cs.filterMap Callback.statusCode).getLast? <;> rfl

theorem foldl_statusTold (htype : hp.parser_type = .response) :
    (cs.foldl onCallback hp).resp.status_code =
      (statusTold cs).getD hp.resp.status_code := by
  induction cs generalizing hp with
  | nil => rfl
  | cons c cs ih =>
      rw [List.foldl_cons, ih (onCallback_body htype c).1, statusTold_cons]
      cases statusTold cs with
      | some code => rfl
      | none =>
          cases c with
          | headerField _ => exact handleHeader_status htype
          | headersComplete => exact handleHeader_status htype
          | status _ => rw [onCallback, onStatus, htype]; rfl
          | body _ => rw [onCallback, onBody, htype]; rfl
          | messageBegin | url _ | headerValue _ | messageComplete _ | chunkHeader
          | chunkComplete => rfl

theorem ended_concat :
    Ended (cs ++ [c]) ↔ (c.endsHeaders = true ∨ c.completes = true) ∨
      (c = .chunkHeader ∨ c = .chunkComplete) ∧ Ended cs := by
  constructor
  · rintro ⟨head, last, chunks, hcs, hends, hchunks⟩
    rcases List.eq_nil_or_concat' chunks with rfl | ⟨chunks, chunk, rfl⟩
    · obtain ⟨-, hlast⟩ := List.append_inj' hcs rfl
      exact .inl (List.singleton_injective hlast ▸ hends)
    · rw [← List.cons_append, ← List.append_assoc] at hcs
      obtain ⟨rfl, hlast⟩ := List.append_inj' hcs rfl
      obtain rfl := List.singleton_injective hlast
      refine .inr ⟨hchunks c (List.mem_append_right _ List.mem_cons_self), head, last, chunks, rfl,
        hends, fun c' hc' => hchunks c' (List.mem_append_left _ hc')⟩
  · rintro (hends | ⟨hc, head, last, chunks, rfl, hends, hchunks⟩)
    · exact ⟨cs, c, [], rfl, hends, nofun⟩
    · refine ⟨head, last, chunks ++ [c], by rw [List.append_assoc, List.cons_append], hends,
        fun c' hc' => ?_⟩
      rcases List.mem_append.mp hc' with hc' | hc'
      · exact hchunks c' hc'
      · rw [List.mem_singleton.mp hc']
        exact hc

theorem foldl_ended_iff (hstate : hp.state ≠ .messageComplete) :
    (cs.foldl onCallback hp).state = .messageComplete ↔ Ended cs := by
  induction cs using List.reverseRecOn with
  | nil => exact iff_of_false hstate (by rintro ⟨head, c, chunks, hcs, -⟩; simp at hcs)
  | append_singleton cs c ih =>
      rw [List.foldl_append, List.foldl_cons, List.foldl_nil, ended_concat, ← ih]
      generalize cs.foldl onCallback hp = hp
      cases c with
      | headersComplete => exact iff_of_true rfl (.inl (.inl rfl))
      | messageComplete _ => exact iff_of_true rfl (.inl (.inr rfl))
      | chunkHeader | chunkComplete =>
          simp [onCallback, Callback.endsHeaders, Callback.completes]
      | status _ | body _ =>
          simp only [onCallback, onStatus, onBody]
          cases hp.parser_type <;> simp [Callback.endsHeaders, Callback.completes]
      | messageBegin | url _ | headerField _ | headerValue _ =>
          simp [onCallback, onMessageBegin, onUrl, onHeaderField, onHeaderValue,
            Callback.endsHeaders, Callback.completes]

theorem Notified.parser_type (h : Notified status cs hp) : hp.parser_type = .response := by
  obtain ⟨start, htype, -, -, -, -, rfl⟩ := h
  exact (foldl_body htype cs).1

theorem Notified.complete_iff (h : Notified status cs hp) : isComplete hp = true ↔ Ended cs := by
  obtain ⟨start, -, hstate, -, -, -, rfl⟩ := h
  rw [isComplete, decide_eq_true_eq, foldl_ended_iff hstate]

theorem Notified.status_code (h : Notified status cs hp) :
    hp.resp.status_code = (statusTold cs).getD status := by
  obtain ⟨start, htype, -, -, -, rfl, rfl⟩ := h
  exact foldl_statusTold htype

theorem Notified.find_iff (h : Notified status cs hp) (hname : name ≠ []) :
    hp.resp.headers.find name ≠ none ↔ NamedIn name cs := by
  obtain ⟨start, htype, -, hfield, hheaders, -, rfl⟩ := h
  rw [foldl_find_iff htype hname, hheaders, hfield]
  have hnone : (OrderedMap.empty : HttpHeaders).find name = none := rfl
  simp [hnone, hname.symm]

end Kept

end LibConn.Http
