import LibConn.Verification.Http.Deliveries

/-! # The headers that pieces amount to

`on_header_field` stores the pair at hand and starts another, so a name that comes in several
pieces leaves several entries, and a pair whose name is empty is not stored at all. -/

namespace LibConn.Http

variable {σ : Type}

/-- Each call for a name starts a pair; the values belong to the last. -/
def HeaderPieces.pairs (h : HeaderPieces) : List (Bytes × Bytes) :=
  h.name.dropLast.map (fun piece => (piece, [])) ++ [(h.name.getLastD [], h.value.flatten)]

/-- A pair without a name is not stored, and its value is left for the next pair. -/
def storedPairs : List (Bytes × Bytes) → Bytes → List (Bytes × Bytes)
  | [], _ => []
  | (name, value) :: rest, carry =>
      if name = [] then storedPairs rest (carry ++ value)
      else (name, carry ++ value) :: storedPairs rest []

def setAll (headers : HttpHeaders) (pairs : List (Bytes × Bytes)) : HttpHeaders :=
  pairs.foldl (fun headers it => headers.set it.1 it.2) headers

/-- Among the headers that the pieces of the request amount to is `Upgrade: websocket`. -/
def Delivery.AsksUpgrade (d : Delivery) : Prop :=
  ∃ it ∈ (setAll .empty (storedPairs (d.headers.flatMap HeaderPieces.pairs) [])).entries,
    isUpgradeHeader it = true

/-- What is stored, the pair at hand and whatever follows are what `pairs` amount to with
that. -/
structure Collects (hp : HttpParserData) (pairs : List (Bytes × Bytes)) : Prop where
  type : hp.parser_type = .request
  stored : ∀ rest, setAll hp.req.headers
    (storedPairs ((hp.header_field, hp.header_value) :: rest) []) =
      setAll .empty (storedPairs (pairs ++ rest) [])

section Headers

variable {hp : HttpParserData} {pairs : List (Bytes × Bytes)}

theorem handleHeader_unnamed (hname : hp.header_field = []) : handleHeader hp = hp := by
  rw [handleHeader, if_neg (not_not.mpr (by rw [hname]; rfl))]

theorem handleHeader_named (htype : hp.parser_type = .request) (hname : hp.header_field ≠ []) :
    handleHeader hp = { hp with
      req := { hp.req with headers := hp.req.headers.set hp.header_field hp.header_value }
      headers := hp.headers.set hp.header_field hp.header_value
      header_field := []
      header_value := [] } := by
  have hlength : hp.header_field.length ≠ 0 := fun h => hname (List.length_eq_zero_iff.mp h)
  rw [handleHeader, if_pos hlength]
  simp only [htype]

theorem storedPairs_unnamed {name : Bytes} (hname : name = []) (value piece flat : Bytes)
    (rest : List (Bytes × Bytes)) :
    storedPairs ((name, value) :: (piece, flat) :: rest) [] =
      storedPairs ((piece, value ++ flat) :: rest) [] := by
  simp only [storedPairs, if_pos hname, List.nil_append]

theorem storedPairs_named {name : Bytes} (hname : name ≠ []) (value : Bytes)
    (rest : List (Bytes × Bytes)) :
    storedPairs ((name, value) :: rest) [] = (name, value) :: storedPairs rest [] := by
  rw [storedPairs, if_neg hname, List.nil_append]

theorem Collects.quiet (h : Collects hp pairs) {c : Callback} (hc : c.Quiet)
    (hends : c.endsHeaders = false) : Collects (onCallback hp c) pairs := by
  cases c with
  | headerField _ => exact hc.elim
  | headerValue _ => exact hc.elim
  | headersComplete => cases hends
  | status _ =>
      obtain ⟨htype, hstored⟩ := h
      simp only [onCallback, onStatus, htype]
      exact ⟨rfl, hstored⟩
  | body _ =>
      obtain ⟨htype, hstored⟩ := h
      simp only [onCallback, onBody, htype]
      exact ⟨rfl, hstored⟩
  | messageBegin | url _ | messageComplete _ | chunkHeader | chunkComplete =>
      exact ⟨h.type, h.stored⟩

theorem Collects.pair (h : Collects hp pairs) (piece : Bytes) (values : List Bytes) :
    Collects ((.headerField piece :: values.map .headerValue).foldl onCallback hp)
      (pairs ++ [(piece, values.flatten)]) := by
  obtain ⟨state, hvalues⟩ := values_foldl values (onHeaderField hp piece)
  rw [List.foldl_cons]
  change Collects (List.foldl onCallback (onHeaderField hp piece) (values.map .headerValue)) _
  rw [hvalues]
  obtain ⟨htype, hstored⟩ := h
  refine ⟨?_, fun rest => ?_⟩
  · simp only [onHeaderField, Http.handleHeader]
    split_ifs
    · simp only [htype]
    · exact htype
  · rw [List.append_assoc, List.singleton_append, ← hstored]
    by_cases hname : hp.header_field = []
    · rw [storedPairs_unnamed hname]
      simp only [onHeaderField, handleHeader_unnamed hname, hname, List.nil_append]
    · rw [storedPairs_named hname]
      simp only [onHeaderField, handleHeader_named htype hname, List.nil_append]
      rfl

theorem headers_foldl {R : HttpParserData → List (Bytes × Bytes) → Prop}
    (hpair : ∀ {hp pairs}, R hp pairs → ∀ (piece : Bytes) (values : List Bytes),
      R ((.headerField piece :: values.map .headerValue).foldl onCallback hp)
        (pairs ++ [(piece, values.flatten)]))
    {hs : List HeaderPieces} (hr : R hp pairs) (hnamed : ∀ h ∈ hs, h.name ≠ []) :
    R ((hs.flatMap HeaderPieces.callbacks).foldl onCallback hp)
      (pairs ++ hs.flatMap HeaderPieces.pairs) := by
  have hheader : ∀ h : HeaderPieces, h.name ≠ [] → ∀ {hp pairs}, R hp pairs →
      R (h.callbacks.foldl onCallback hp) (pairs ++ h.pairs) := by
    rintro ⟨name, value⟩ hname hp pairs hr
    rw [HeaderPieces.callbacks, HeaderPieces.pairs]
    dsimp only at hname ⊢
    induction name generalizing hp pairs with
    | nil => exact absurd rfl hname
    | cons piece name ih =>
        cases name with
        | nil => exact hpair hr piece value
        | cons next name =>
            have hrest := ih (List.cons_ne_nil _ _) (hpair hr piece [])
            rw [List.append_assoc] at hrest
            exact hrest
  induction hs generalizing hp pairs with
  | nil => exact (List.append_nil pairs).symm ▸ hr
  | cons h hs ih =>
      rw [List.flatMap_cons, List.flatMap_cons, List.foldl_append, ← List.append_assoc]
      exact ih (hheader h (hnamed h List.mem_cons_self) hr)
        fun h' hh' => hnamed h' (List.mem_cons_of_mem _ hh')

theorem Collects.quietAll {cs : List Callback} (hcs : ∀ c ∈ cs, c.Quiet ∧ c.endsHeaders = false)
    (h : Collects hp pairs) : Collects (cs.foldl onCallback hp) pairs := by
  induction cs generalizing hp with
  | nil => exact h
  | cons c cs ih =>
      obtain ⟨hquiet, hends⟩ := hcs c List.mem_cons_self
      exact ih (fun c' hc' => hcs c' (List.mem_cons_of_mem _ hc')) (h.quiet hquiet hends)

theorem Collects.head (h : Collects hp []) {d : Delivery}
    (hnamed : ∀ h ∈ d.headers, h.name ≠ []) :
    Collects (d.head.foldl onCallback hp) (d.headers.flatMap HeaderPieces.pairs) := by
  rw [Delivery.head, List.foldl_append]
  refine headers_foldl Collects.pair (h.quietAll fun c hc => ?_) hnamed
  rcases List.mem_cons.mp hc with rfl | hc
  · exact ⟨trivial, rfl⟩
  · obtain ⟨piece, -, rfl⟩ := List.mem_map.mp hc
    exact ⟨trivial, rfl⟩

theorem Collects.headersComplete (h : Collects hp pairs) :
    (onHeadersComplete hp).req.headers = setAll .empty (storedPairs pairs []) := by
  have hstored := h.stored []
  rw [List.append_nil] at hstored
  rw [← hstored, storedPairs, onHeadersComplete]
  by_cases hname : hp.header_field = []
  · rw [if_pos hname, handleHeader_unnamed hname]
    rfl
  · rw [if_neg hname, handleHeader_named h.type hname]
    rfl

theorem collects_setRouter (lib : Externals σ) (fresh : Uninitialised) (router : HttpRouter)
    (ws_service : Bool) :
    Collects (HttpHandle.setRouter lib fresh router ws_service).mParser.toHttpParserData [] :=
  ⟨rfl, fun _ => rfl⟩

end Headers

end LibConn.Http
