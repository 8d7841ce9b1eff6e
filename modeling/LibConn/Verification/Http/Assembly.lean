import LibConn.Verification.Http.Headers

/-! # Headers in pieces

`on_header_field` takes every piece of a field for a field of its own. So the headers are
assembled as they were sent where each field comes in one piece, and where the cuts in the
fields happen to make no difference. -/

namespace LibConn.Http

/-- The headers of the request or response that the parser fills. -/
def HttpParserData.messageHeaders (hp : HttpParserData) : HttpHeaders :=
  match hp.parser_type with
  | .request => hp.req.headers
  | .response => hp.resp.headers

/-- A field and a value, put together from their pieces. -/
def HeaderPieces.whole (h : HeaderPieces) : Bytes × Bytes :=
  (h.name.flatten, h.value.flatten)

/-- The parser behind the callbacks for the headers and their end. -/
def afterHeaders (hp : HttpParserData) (hs : List HeaderPieces) : HttpParserData :=
  onHeadersComplete ((hs.flatMap HeaderPieces.callbacks).foldl onCallback hp)

/-- The whole pairs are inserted in order, and none is at hand any more. -/
structure Assembled (hp : HttpParserData) (hs : List HeaderPieces) : Prop where
  headers : (afterHeaders hp hs).headers = setAll hp.headers (hs.map HeaderPieces.whole)
  message : (afterHeaders hp hs).messageHeaders =
    setAll hp.messageHeaders (hs.map HeaderPieces.whole)
  field : (afterHeaders hp hs).header_field = []
  value : (afterHeaders hp hs).header_value = []

/-- The value of the last pair with this name. -/
def lastValue (pairs : List (Bytes × Bytes)) (name : Bytes) : Option Bytes :=
  (pairs.reverse.find? fun it => it.1 = name).map Prod.snd

/-- The values that are left when all pairs are stored: those behind an empty name, if it is the
last. -/
def leftOver : List (Bytes × Bytes) → Bytes → Bytes
  | [], carry => carry
  | (name, value) :: rest, carry =>
      if name = [] then leftOver rest (carry ++ value) else leftOver rest []

/-- The pairs that the pieces amount to, each piece of a field taken for a field. -/
def piecePairs (hs : List HeaderPieces) : List (Bytes × Bytes) :=
  storedPairs (hs.flatMap HeaderPieces.pairs) []

/-- Pieces and whole pairs give the same last value to each name that is not in the map with
that value anyway. -/
def SameValues (headers : HttpHeaders) (hs : List HeaderPieces) : Prop :=
  ∀ name, (lastValue (piecePairs hs) name).or (headers.find name) =
    (lastValue (hs.map HeaderPieces.whole) name).or (headers.find name)

/-- The cuts in the fields make no difference. -/
structure Harmless (hp : HttpParserData) (hs : List HeaderPieces) : Prop where
  headers : SameValues hp.headers hs
  message : SameValues hp.messageHeaders hs
  left : leftOver (hs.flatMap HeaderPieces.pairs) [] = []

/-! ## Maps -/

section Maps

variable {headers : HttpHeaders} {pairs pairs' : List (Bytes × Bytes)}

theorem find_setAll (headers : HttpHeaders) (pairs : List (Bytes × Bytes)) (name : Bytes) :
    (setAll headers pairs).find name = (lastValue pairs name).or (headers.find name) := by
  induction pairs generalizing headers with
  | nil => rfl
  | cons it pairs ih =>
      rw [setAll, List.foldl_cons]
      refine (ih _).trans ?_
      rw [lastValue, lastValue, List.reverse_cons, List.find?_append]
      cases hfind : pairs.reverse.find? fun it => it.1 = name with
      | some last => simp
      | none =>
          by_cases hname : it.1 = name
          · subst hname
            simp [OrderedMap.find_set_self]
          · simp [OrderedMap.find_set_of_ne headers it.2 hname, hname]

theorem setAll_eq_iff : setAll headers pairs = setAll headers pairs' ↔
    ∀ name, (lastValue pairs name).or (headers.find name) =
      (lastValue pairs' name).or (headers.find name) := by
  constructor
  · intro h name
    rw [← find_setAll, ← find_setAll, h]
  · intro h
    apply OrderedMap.ext_find
    intro name
    rw [find_setAll, find_setAll]
    exact h name

end Maps

/-! ## The callbacks -/

section Callbacks

variable {hp₀ hp : HttpParserData} {pairs : List (Bytes × Bytes)}

/-- What is stored, the pair at hand and whatever follows are what `pairs` amount to with that. -/
structure Gathers (hp₀ hp : HttpParserData) (pairs : List (Bytes × Bytes)) : Prop where
  headers : ∀ rest, setAll hp.headers
    (storedPairs ((hp.header_field, hp.header_value) :: rest) []) =
      setAll hp₀.headers (storedPairs (pairs ++ rest) [])
  message : ∀ rest, setAll hp.messageHeaders
    (storedPairs ((hp.header_field, hp.header_value) :: rest) []) =
      setAll hp₀.messageHeaders (storedPairs (pairs ++ rest) [])
  left : ∀ rest, leftOver ((hp.header_field, hp.header_value) :: rest) [] =
    leftOver (pairs ++ rest) []

/-- `handle_header` stores the pair at hand, unless it has no name. -/
theorem handleHeader_stores (hp : HttpParserData) :
    (handleHeader hp).header_field = [] ∧
      if hp.header_field = [] then handleHeader hp = hp
      else
        (handleHeader hp).headers = hp.headers.set hp.header_field hp.header_value ∧
          (handleHeader hp).messageHeaders =
            hp.messageHeaders.set hp.header_field hp.header_value ∧
          (handleHeader hp).header_value = [] := by
  by_cases hname : hp.header_field = []
  · rw [if_pos hname, handleHeader_unnamed hname]
    exact ⟨hname, rfl⟩
  · have hlength : hp.header_field.length ≠ 0 := fun h => hname (List.length_eq_zero_iff.mp h)
    rw [if_neg hname, handleHeader, if_pos hlength]
    cases htype : hp.parser_type with
    | request => simp [HttpParserData.messageHeaders, htype]
    | response => simp [HttpParserData.messageHeaders, htype]

theorem handleHeader_field (hp : HttpParserData) : (handleHeader hp).header_field = [] :=
  (handleHeader_stores hp).1

/-- The piece of a name that was called last is at hand. -/
theorem onHeaderField_field (hp : HttpParserData) (piece : Bytes) :
    (onHeaderField hp piece).header_field = piece :=
  congrArg (· ++ piece) (handleHeader_field hp)

theorem pair_foldl (hp : HttpParserData) (piece : Bytes) (values : List Bytes) :
    let hp' := (Callback.headerField piece :: values.map .headerValue).foldl onCallback hp
    hp'.header_field = piece ∧
      hp'.header_value = (handleHeader hp).header_value ++ values.flatten ∧
      hp'.headers = (handleHeader hp).headers ∧
      hp'.messageHeaders = (handleHeader hp).messageHeaders := by
  obtain ⟨state, hvalues⟩ := values_foldl values (onHeaderField hp piece)
  rw [List.foldl_cons]
  change _ ∧ _
  rw [show onCallback hp (.headerField piece) = onHeaderField hp piece from rfl, hvalues]
  exact ⟨onHeaderField_field hp piece, rfl, rfl, rfl⟩

theorem leftOver_unnamed {name : Bytes} (hname : name = []) (value piece flat : Bytes)
    (rest : List (Bytes × Bytes)) :
    leftOver ((name, value) :: (piece, flat) :: rest) [] =
      leftOver ((piece, value ++ flat) :: rest) [] := by
  simp only [leftOver, if_pos hname, List.nil_append]

theorem Gathers.pair (h : Gathers hp₀ hp pairs) (piece : Bytes) (values : List Bytes) :
    Gathers hp₀ ((.headerField piece :: values.map .headerValue).foldl onCallback hp)
      (pairs ++ [(piece, values.flatten)]) := by
  obtain ⟨hfield, hvalue, hheaders, hmessage⟩ := pair_foldl hp piece values
  have hstores := (handleHeader_stores hp).2
  by_cases hname : hp.header_field = []
  · rw [if_pos hname] at hstores
    rw [hstores] at hvalue hheaders hmessage
    constructor
    · intro rest
      rw [hfield, hvalue, hheaders, ← storedPairs_unnamed hname, h.headers,
        List.append_assoc]
      rfl
    · intro rest
      rw [hfield, hvalue, hmessage, ← storedPairs_unnamed hname, h.message,
        List.append_assoc]
      rfl
    · intro rest
      rw [hfield, hvalue, ← leftOver_unnamed hname, h.left, List.append_assoc]
      rfl
  · rw [if_neg hname] at hstores
    obtain ⟨hset, hsetMessage, hnil⟩ := hstores
    rw [hnil, List.nil_append] at hvalue
    rw [hset] at hheaders
    rw [hsetMessage] at hmessage
    constructor
    · intro rest
      rw [hfield, hvalue, hheaders, List.append_assoc, List.singleton_append, ← h.headers,
        storedPairs_named hname]
      rfl
    · intro rest
      rw [hfield, hvalue, hmessage, List.append_assoc, List.singleton_append, ← h.message,
        storedPairs_named hname]
      rfl
    · intro rest
      rw [hfield, hvalue, List.append_assoc, List.singleton_append, ← h.left]
      conv_rhs => rw [leftOver, if_neg hname]

theorem gathers_start (hfield : hp.header_field = []) (hvalue : hp.header_value = []) :
    Gathers hp hp [] := by
  constructor <;> intro rest <;> rw [hfield, hvalue] <;> rfl

theorem Gathers.complete (h : Gathers hp₀ hp pairs) :
    (onHeadersComplete hp).headers = setAll hp₀.headers (storedPairs pairs []) ∧
      (onHeadersComplete hp).messageHeaders =
        setAll hp₀.messageHeaders (storedPairs pairs []) ∧
      (onHeadersComplete hp).header_field = [] ∧
      (onHeadersComplete hp).header_value = leftOver pairs [] := by
  have hheaders := h.headers []
  have hmessage := h.message []
  have hleft := h.left []
  rw [List.append_nil] at hheaders hmessage hleft
  rw [← hheaders, ← hmessage, ← hleft]
  obtain ⟨hnone, hstores⟩ := handleHeader_stores hp
  by_cases hname : hp.header_field = []
  · rw [if_pos hname] at hstores
    rw [hname]
    simp only [onHeadersComplete, hstores]
    exact ⟨rfl, rfl, hname, rfl⟩
  · rw [if_neg hname] at hstores
    obtain ⟨hset, hsetMessage, hnil⟩ := hstores
    simp only [storedPairs, leftOver, if_neg hname]
    exact ⟨hset, hsetMessage, hnone, hnil⟩

end Callbacks

variable {hp : HttpParserData} {hs : List HeaderPieces}

theorem afterHeaders_eq (hnamed : ∀ h ∈ hs, h.name ≠ []) (hfield : hp.header_field = [])
    (hvalue : hp.header_value = []) :
    (afterHeaders hp hs).headers = setAll hp.headers (piecePairs hs) ∧
      (afterHeaders hp hs).messageHeaders = setAll hp.messageHeaders (piecePairs hs) ∧
      (afterHeaders hp hs).header_field = [] ∧
      (afterHeaders hp hs).header_value = leftOver (hs.flatMap HeaderPieces.pairs) [] :=
  (headers_foldl Gathers.pair (gathers_start hfield hvalue) hnamed).complete

/-- The headers are assembled as they were sent exactly when the cuts in the fields make no
difference. Those in the values never do. -/
theorem assembled_iff_harmless (hnamed : ∀ h ∈ hs, h.name ≠ []) (hfield : hp.header_field = [])
    (hvalue : hp.header_value = []) : Assembled hp hs ↔ Harmless hp hs := by
  obtain ⟨hheaders, hmessage, hnone, hleft⟩ := afterHeaders_eq hnamed hfield hvalue
  constructor
  · intro h
    refine ⟨?_, ?_, ?_⟩
    · exact setAll_eq_iff.mp (hheaders.symm.trans h.headers)
    · exact setAll_eq_iff.mp (hmessage.symm.trans h.message)
    · exact hleft.symm.trans h.value
  · intro h
    refine ⟨?_, ?_, hnone, ?_⟩
    · exact hheaders.trans (setAll_eq_iff.mpr h.headers)
    · exact hmessage.trans (setAll_eq_iff.mpr h.message)
    · exact hleft.trans h.left

/-! ## Which cuts make a difference -/

/-- The field comes in one piece. -/
def HeaderPieces.Uncut (h : HeaderPieces) : Prop :=
  ∃ piece, piece ≠ [] ∧ h.name = [piece]

theorem uncut_pairs {hs : List HeaderPieces} (h : ∀ h ∈ hs, h.Uncut) :
    piecePairs hs = hs.map HeaderPieces.whole ∧
      leftOver (hs.flatMap HeaderPieces.pairs) [] = [] := by
  rw [piecePairs]
  induction hs with
  | nil => exact ⟨rfl, rfl⟩
  | cons header hs ih =>
      obtain ⟨piece, hpiece, hname⟩ := h header List.mem_cons_self
      obtain ⟨hstored, hleft⟩ := ih fun h' hh' => h h' (List.mem_cons_of_mem _ hh')
      have hpairs : header.pairs = [(piece, header.value.flatten)] := by
        rw [HeaderPieces.pairs, hname]
        rfl
      have hwhole : header.whole = (piece, header.value.flatten) := by
        rw [HeaderPieces.whole, hname, List.flatten_singleton]
      rw [List.flatMap_cons, hpairs, List.singleton_append, storedPairs, leftOver,
        if_neg hpiece, if_neg hpiece, List.map_cons, hwhole]
      exact ⟨congrArg _ hstored, hleft⟩

/-- Fields in one piece are assembled, however the values are cut. -/
theorem harmless_of_uncut (h : ∀ h ∈ hs, h.Uncut) : Harmless hp hs := by
  obtain ⟨hpairs, hleft⟩ := uncut_pairs h
  refine ⟨fun name => ?_, fun name => ?_, hleft⟩
  · rw [hpairs]
  · rw [hpairs]

theorem mem_storedPairs {pairs : List (Bytes × Bytes)} {carry : Bytes} {it : Bytes × Bytes}
    (h : it ∈ storedPairs pairs carry) : it.1 ∈ pairs.map Prod.fst := by
  induction pairs generalizing carry with
  | nil => exact absurd h List.not_mem_nil
  | cons pair pairs ih =>
      rw [List.map_cons]
      rw [storedPairs] at h
      split_ifs at h
      · exact List.mem_cons_of_mem _ (ih h)
      · rcases List.mem_cons.mp h with rfl | h
        · exact List.mem_cons_self
        · exact List.mem_cons_of_mem _ (ih h)

theorem not_harmless_of_cut {h : HeaderPieces} (hmem : h ∈ hs)
    (hnew : hp.headers.find h.whole.1 = none)
    (hcut : ∀ h' ∈ hs, h.whole.1 ∉ h'.pairs.map Prod.fst) : ¬ Harmless hp hs := by
  intro hharmless
  have hsame := hharmless.headers h.whole.1
  have hnone : lastValue (piecePairs hs) h.whole.1 = none := by
    rw [lastValue, Option.map_eq_none_iff, List.find?_eq_none]
    intro it hit
    have hfst := mem_storedPairs (List.mem_reverse.mp hit)
    simp only [decide_eq_true_eq]
    intro heq
    obtain ⟨pair, hpair, hname⟩ := List.mem_map.mp hfst
    obtain ⟨h', hh', hpair⟩ := List.mem_flatMap.mp hpair
    exact hcut h' hh' (List.mem_map.mpr ⟨pair, hpair, hname.trans heq⟩)
  have hsome : (lastValue (hs.map HeaderPieces.whole) h.whole.1).isSome = true := by
    rw [lastValue, Option.isSome_map, List.find?_isSome]
    refine ⟨h.whole, List.mem_reverse.mpr (List.mem_map_of_mem hmem), ?_⟩
    exact decide_eq_true rfl
  rw [hnone, hnew, Option.or_none, Option.or_none] at hsame
  rw [← hsame] at hsome
  cases hsome

/-! ## Examples of both -/

/-- A parser that has not been given anything. -/
def newParser (parser_type : HttpParserType) : HttpParserData where
  parser_type := parser_type
  url := []
  method := .get
  header_field := []
  header_value := []
  headers := .empty
  state := .startReqOrRes
  req := { url := [], method := .get, headers := .empty, body := [], status_code := 0 }
  resp := { headers := .empty, body := [], status_code := 0 }

/-- Two headers; the first value comes in two pieces. -/
def cutValue : List HeaderPieces :=
  [⟨[ascii "Host"], [ascii "a.", ascii "b"]⟩, ⟨[ascii "Accept"], [ascii "text"]⟩]

theorem assembled_iff_harmless_cutValue : Assembled (newParser .response) cutValue := by
  refine (assembled_iff_harmless (by decide) rfl rfl).mpr (harmless_of_uncut ?_)
  intro h hmem
  rw [cutValue, List.mem_cons, List.mem_singleton] at hmem
  rcases hmem with rfl | rfl
  · exact ⟨ascii "Host", by decide, rfl⟩
  · exact ⟨ascii "Accept", by decide, rfl⟩

/-- A segment ends within a field, or right behind it. -/
def cutField (first second : String) : List HeaderPieces :=
  [⟨[ascii first, ascii second], [ascii "a"]⟩]

/-- A field cut in two becomes two headers; one that is cut off from its colon loses its
value, which waits for the next header. -/
theorem not_assembled_cutField :
    ¬ Assembled (newParser .request) (cutField "Ho" "st") ∧
      ¬ Assembled (newParser .request) (cutField "Host" "") := by
  constructor
  · intro h
    have hentries := congrArg OrderedMap.entries h.headers
    exact absurd hentries (by decide +kernel)
  · intro h
    have hvalue := h.value
    exact absurd hvalue (by decide +kernel)

end LibConn.Http
