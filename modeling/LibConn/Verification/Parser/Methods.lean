import LibConn.Verification.Parser.Runs

/-! # Methods

`s_req_method` compares with the name of one method and goes over to another one where they part.
It comes out at a method exactly behind the name of that method. -/

namespace LibConn.Parser

open LibConn.Http

/-- A byte of a name behind the `index` bytes in front of it, which `method` begins with. -/
def methodStep : HttpMethod × ℕ → UInt8 → Option (HttpMethod × ℕ)
  | (method, index), ch =>
      if (methodStrings method)[index]? = some ch then some (method, index + 1)
      else if ('A'.toUInt8 ≤ ch && ch ≤ 'Z'.toUInt8) || ch = '-'.toUInt8 then
        (otherMethod method index ch).map fun method => (method, index + 1)
      else none

/-- The parser inside of a method. -/
def HttpParser.atMethod (parser : HttpParser) (at' : HttpMethod × ℕ) : HttpParser :=
  { parser with type := .request, state := .reqMethod, method := at'.1, index := at'.2 }

/-- The parser behind a method. -/
def HttpParser.behindMethod (parser : HttpParser) (method : HttpMethod) (index : ℕ) : HttpParser :=
  { parser with
    type := .request, state := .reqSpacesBeforeUrl, method := method, index := index }

section Methods

variable {parser : HttpParser} {ch : UInt8} {w rest : Bytes} {method method' : HttpMethod}
  {index n : ℕ} {at' at'' : HttpMethod × ℕ}

theorem methodStrings_plain (method : HttpMethod) :
    0 ∉ methodStrings method ∧ ' '.toUInt8 ∉ methodStrings method := by
  cases method <;> decide

theorem otherMethod_spec (h : otherMethod method index ch = some method') :
    (methodStrings method').take (index + 1) = (methodStrings method).take index ++ [ch] ∧
      index < (methodStrings method').length := by
  have htable : ∀ entry ∈ methodEntries,
      (methodStrings entry.2.2.2).take (entry.2.1 + 1) =
          (methodStrings entry.1).take entry.2.1 ++ [entry.2.2.1.toUInt8] ∧
        entry.2.1 < (methodStrings entry.2.2.2).length := by decide
  obtain ⟨entry, hentry, hfound⟩ := List.exists_of_findSome?_eq_some h
  rw [Option.ite_none_right_eq_some] at hfound
  obtain ⟨⟨rfl, rfl, rfl⟩, hmethod⟩ := hfound
  obtain rfl := Option.some.inj hmethod
  exact htable entry hentry

/-- What has been read is what the name at hand begins with. -/
structure Spells (w : Bytes) (at' : HttpMethod × ℕ) : Prop where
  length : at'.2 = w.length
  le : at'.2 ≤ (methodStrings at'.1).length
  begins : w = (methodStrings at'.1).take at'.2

theorem Spells.step (h : Spells w at') (hstep : methodStep at' ch = some at'') :
    Spells (w ++ [ch]) at'' := by
  obtain ⟨method, index⟩ := at'
  obtain ⟨hlength, hle, hbegins⟩ := h
  dsimp only at hlength hle hbegins
  rw [methodStep] at hstep
  split_ifs at hstep with hsame hother
  · obtain rfl := Option.some.inj hstep
    obtain ⟨hlt, hch⟩ := List.getElem?_eq_some_iff.mp hsame
    refine ⟨by rw [List.length_append, ← hlength]; rfl, hlt, ?_⟩
    dsimp only
    rw [List.take_add_one, hsame, ← hbegins]
    rfl
  · obtain ⟨method', hmethod', rfl⟩ := Option.map_eq_some_iff.mp hstep
    obtain ⟨htake, hlt⟩ := otherMethod_spec hmethod'
    refine ⟨by rw [List.length_append, ← hlength]; rfl, hlt, ?_⟩
    dsimp only
    rw [htake, ← hbegins]

theorem Spells.foldlM (h : Spells w at') (hrest : rest.foldlM methodStep at' = some at'') :
    Spells (w ++ rest) at'' := by
  induction rest generalizing w at' with
  | nil =>
      obtain rfl := Option.some.inj hrest
      rw [List.append_nil]
      exact h
  | cons ch rest ih =>
      rw [List.foldlM_cons] at hrest
      obtain ⟨next, hstep, hrest⟩ := Option.bind_eq_some_iff.mp hrest
      rw [List.append_cons]
      exact ih (h.step hstep) hrest

/-- The name at hand is not over yet. -/
def WithinMethod (at' : HttpMethod × ℕ) : Prop :=
  at'.2 ≤ (methodStrings at'.1).length

theorem matcher_expects (hle : index ≤ (methodStrings method).length) (hzero : ch ≠ 0) :
    ∃ expected, (methodStrings method ++ [0])[index]? = some expected ∧
      (ch = expected ↔ (methodStrings method)[index]? = some ch) := by
  rcases hle.lt_or_eq with hlt | rfl
  · refine ⟨(methodStrings method)[index], ?_, ?_⟩
    · rw [List.getElem?_append_left hlt, List.getElem?_eq_getElem hlt]
    · rw [List.getElem?_eq_getElem hlt, Option.some.injEq, eq_comm]
  · refine ⟨0, by simp, ?_⟩
    simp [hzero]

theorem reqMethod_eq (parser : HttpParser) (hwithin : WithinMethod at') (hspace : ch ≠ ' '.toUInt8) :
    reqMethod (parser.atMethod at') ch =
      match methodStep at' ch with
      | some next => .next (parser.atMethod next) []
      | none => .fail (parser.atMethod at') [] .invalidMethod := by
  obtain ⟨method, index⟩ := at'
  have hle : index ≤ (methodStrings method).length := hwithin
  have hlength := methodStrings_length method
  rw [reqMethod]
  by_cases hzero : ch = 0
  · have hnone : methodStep (method, index) 0 = none := by
      rw [methodStep, if_neg fun h => (methodStrings_plain method).1 (List.mem_of_getElem? h),
        if_neg (by decide)]
    rw [if_pos hzero, hzero, hnone]
  · obtain ⟨expected, hexpected, hiff⟩ := matcher_expects hle hzero
    have hindex : nextIndex index = index + 1 := nextIndex_of_lt (by omega)
    rw [if_neg hzero, show (parser.atMethod (method, index)).method = method from rfl,
      show (parser.atMethod (method, index)).index = index from rfl, hexpected, hindex, methodStep]
    dsimp only
    rw [if_neg (by simp [hspace]), if_congr hiff rfl rfl]
    split_ifs
    · rfl
    · cases otherMethod method index ch <;> rfl
    · rfl

theorem methodStep_within (hwithin : WithinMethod at') (hstep : methodStep at' ch = some at'') :
    WithinMethod at'' ∧ ch ≠ ' '.toUInt8 := by
  obtain ⟨method, index⟩ := at'
  rw [methodStep] at hstep
  split_ifs at hstep with hsame hother
  · obtain rfl := Option.some.inj hstep
    obtain ⟨hlt, -⟩ := List.getElem?_eq_some_iff.mp hsame
    refine ⟨hlt, ?_⟩
    rintro rfl
    exact (methodStrings_plain method).2 (List.mem_of_getElem? hsame)
  · obtain ⟨method', hmethod', rfl⟩ := Option.map_eq_some_iff.mp hstep
    refine ⟨(otherMethod_spec hmethod').2, ?_⟩
    rintro rfl
    exact absurd hother (by decide)

/-- `s_req_method` behind the first byte. -/
theorem method_simulates (parser : HttpParser) :
    Simulates WithinMethod parser.atMethod methodStep (fun _ => []) (· ≠ ' '.toUInt8) where
  taken at' ch at'' hwithin hstep := by
    obtain ⟨hwithin', hspace⟩ := methodStep_within hwithin hstep
    refine ⟨hwithin', ⟨rfl, fun n => ?_⟩, byteCalls_outside ch _ rfl⟩
    have hturn := reqMethod_eq (parser.withNread n) hwithin hspace
    rw [hstep] at hturn
    exact hturn
  refused at' ch hwithin hstep hspace := by
    refine ⟨rfl, fun n => ?_⟩
    have hturn := reqMethod_eq (parser.withNread n) hwithin hspace
    rw [hstep] at hturn
    exact ⟨_, _, _, hturn⟩

theorem method_ends (parser : HttpParser) (method : HttpMethod) :
    Passes (parser.atMethod (method, (methodStrings method).length)) ' '.toUInt8
      (parser.behindMethod method ((methodStrings method).length + 1)) [] := by
  refine ⟨rfl, fun n => ?_⟩
  have hlength := methodStrings_length method
  have hturn : reqMethod ((parser.atMethod (method, (methodStrings method).length)).withNread n)
      ' '.toUInt8 =
        .next ((parser.behindMethod method ((methodStrings method).length + 1)).withNread n) [] := by
    rw [reqMethod, if_neg (by decide)]
    dsimp only [HttpParser.atMethod, HttpParser.withNread]
    rw [List.getElem?_append_right le_rfl, Nat.sub_self, nextIndex_of_lt (by omega)]
    rfl
  exact hturn

theorem method_space (parser : HttpParser) (hlt : index < (methodStrings method).length) (n : ℕ) :
    ∃ last, single ((parser.atMethod (method, index)).withNread n) ' '.toUInt8 =
      .fail last [] .invalidMethod := by
  obtain ⟨hzero, hspace⟩ := methodStrings_plain method
  have hmem : (methodStrings method)[index] ∈ methodStrings method := List.getElem_mem hlt
  have hturn : reqMethod ((parser.atMethod (method, index)).withNread n) ' '.toUInt8 =
      .fail ((parser.atMethod (method, index)).withNread n) [] .invalidMethod := by
    rw [reqMethod, if_neg (by decide)]
    dsimp only [HttpParser.atMethod, HttpParser.withNread]
    rw [List.getElem?_append_left hlt, List.getElem?_eq_getElem hlt]
    dsimp only
    rw [if_neg, if_neg, if_neg (by decide)]
    · exact fun h => hspace (h ▸ hmem)
    · rw [Bool.and_eq_true, decide_eq_true_eq, decide_eq_true_eq]
      exact fun h => hzero (h.2 ▸ hmem)
  exact ⟨_, hturn⟩

/-! ## The first byte -/

/-- A parser in front of a request, for all that is known of the connection. -/
def AtStart (parser : HttpParser) : Prop :=
  (parser.state = .startReq ∧ parser.type = .request) ∨ parser.state = .startReqOrRes

/-- The bytes of a method, from the first. -/
def methodRun : Bytes → Option (HttpMethod × ℕ)
  | [] => none
  | ch :: rest => (firstMethod ch).bind fun method => rest.foldlM methodStep (method, 1)

theorem methodRun_methodStrings (method : HttpMethod) :
    methodRun (methodStrings method) = some (method, (methodStrings method).length) := by
  cases method <;> decide +kernel

theorem firstMethod_spec (h : firstMethod ch = some method) :
    isAlpha ch = true ∧ ch ≠ CR ∧ ch ≠ LF ∧ [ch] = (methodStrings method).take 1 ∧
      (ch = 'H'.toUInt8 ↔ method = .head) := by
  obtain ⟨entry, hentry, hfound⟩ := List.exists_of_findSome?_eq_some h
  rw [Option.ite_none_right_eq_some] at hfound
  obtain ⟨rfl, hmethod⟩ := hfound
  obtain rfl := Option.some.inj hmethod
  simp only [List.mem_cons, List.not_mem_nil, or_false] at hentry
  rcases hentry with rfl | rfl | rfl | rfl | rfl | rfl | rfl | rfl | rfl | rfl | rfl | rfl | rfl |
    rfl | rfl <;> decide

theorem methodStrings_ne_nil (method : HttpMethod) : methodStrings method ≠ [] := by
  cases method <;> decide

theorem firstMethod_spells (h : firstMethod ch = some method) : Spells [ch] (method, 1) :=
  ⟨rfl, List.length_pos_of_ne_nil (methodStrings_ne_nil method), (firstMethod_spec h).2.2.2.1⟩

theorem single_startReq (hstate : parser.state = .startReq) (hcr : ch ≠ CR) (hlf : ch ≠ LF) :
    single parser ch =
      match firstMethod ch with
      | some method =>
          .next { parser.begin with method := method, index := 1, state := .reqMethod }
            [.notify .messageBegin]
      | none =>
          if isAlpha ch then
            .fail { parser.begin with method := .delete, index := 1 } [] .invalidMethod
          else .fail parser.begin [] .invalidMethod := by
  rw [single, oneByte, hstate]
  dsimp only [Option.getD_some]
  rw [startReq, if_neg (by simp [hcr, hlf])]
  cases hfirst : firstMethod ch with
  | some method =>
      rw [if_neg (by simp [(firstMethod_spec hfirst).1])]
  | none =>
      dsimp only
      by_cases halpha : isAlpha ch = true
      · rw [if_neg (by simp [halpha]), if_pos halpha]
      · rw [if_pos (by simp [halpha]), if_neg halpha]

/-- The first byte of a request that does not begin as a response may. -/
theorem single_start (hstart : AtStart parser) (hcr : ch ≠ CR) (hlf : ch ≠ LF)
    (hH : parser.state = .startReqOrRes → ch ≠ 'H'.toUInt8) (n : ℕ) :
    match firstMethod ch with
    | some method =>
        single (parser.withNread n) ch =
          .next ((parser.begin.atMethod (method, 1)).withNread n) [.notify .messageBegin]
    | none => ∃ last, single (parser.withNread n) ch = .fail last [] .invalidMethod := by
  have hrequest : ∀ p : HttpParser, p.state = .startReq → p.type = .request →
      (∀ at', p.begin.atMethod at' = (parser.begin.atMethod at').withNread n) →
      match firstMethod ch with
      | some method =>
          single p ch =
            .next ((parser.begin.atMethod (method, 1)).withNread n) [.notify .messageBegin]
      | none => ∃ last, single p ch = .fail last [] .invalidMethod := by
    intro p hp htype hbegin
    rw [single_startReq hp hcr hlf]
    cases firstMethod ch with
    | some method =>
        have hsame : p.begin.type = .request := htype
        dsimp only
        rw [← hbegin, HttpParser.atMethod, hsame]
    | none =>
        dsimp only
        split_ifs <;> exact ⟨_, rfl⟩
  rcases hstart with ⟨hstate, htype⟩ | hstate
  · exact hrequest (parser.withNread n) hstate htype fun _ => rfl
  · have hturn : single (parser.withNread n) ch =
        single { (parser.withNread n).begin with type := .request, state := .startReq } ch := by
      rw [single, oneByte, show (parser.withNread n).state = .startReqOrRes from hstate]
      dsimp only [Option.getD_some]
      rw [startReqOrRes, if_neg (by simp [hcr, hlf]), if_neg (hH hstate)]
      rfl
    rw [hturn]
    exact hrequest _ rfl rfl fun _ => rfl

/-! ## Whole methods -/

theorem passes_H (hstate : parser.state = .startReqOrRes) :
    Passes parser 'H'.toUInt8 (parser.begin.enter .resOrRespH) [.notify .messageBegin] := by
  refine ⟨by rw [hstate]; rfl, fun n => ?_⟩
  rw [single, oneByte, show (parser.withNread n).state = .startReqOrRes from hstate]
  rfl

theorem passes_HE (parser : HttpParser) :
    Passes (parser.enter .resOrRespH) 'E'.toUInt8 (parser.atMethod (.head, 2)) [] :=
  ⟨rfl, fun _ => rfl⟩

theorem AtStart.header (hstart : AtStart parser) :
    parsingHeader parser.state = true ∧ markOf parser.state = none := by
  rcases hstart with ⟨hstate, -⟩ | hstate <;> rw [hstate] <;> exact ⟨rfl, rfl⟩

theorem method_inside (parser : HttpParser) (hwithin : WithinMethod at')
    (hrest : rest.foldlM methodStep at' = some at'') :
    Advances (parser.atMethod at') rest [] (parser.atMethod at'') := by
  have hadvances := ((method_simulates parser).advances hwithin hrest).1
  rw [List.flatMap_eq_nil_iff.mpr fun _ _ => rfl] at hadvances
  exact hadvances

theorem head_of_H (h : (methodStrings method).head? = some 'H'.toUInt8) : method = .head := by
  cases method <;> first | rfl | exact absurd h (by decide)

theorem method_begins (hstart : AtStart parser) (method : HttpMethod) :
    Advances parser (methodStrings method) [.messageBegin]
      (parser.begin.atMethod (method, (methodStrings method).length)) := by
  have hrun := methodRun_methodStrings method
  have hhead : (methodStrings method).head? = some 'H'.toUInt8 → method = .head := head_of_H
  cases hname : methodStrings method with
  | nil => exact absurd hname (methodStrings_ne_nil method)
  | cons ch rest =>
      rw [hname] at hrun hhead
      obtain ⟨first, hfirst, hrest⟩ := Option.bind_eq_some_iff.mp hrun
      obtain ⟨-, hcr, hlf, -, -⟩ := firstMethod_spec hfirst
      obtain ⟨hheader, hmark⟩ := hstart.header
      by_cases hboth : parser.state = .startReqOrRes ∧ ch = 'H'.toUInt8
      · -- this parser looks at two bytes before it knows that it is a request
        obtain ⟨hstate, rfl⟩ := hboth
        obtain rfl := hhead rfl
        obtain rfl : rest = ascii "EAD" := (List.cons.inj hname).2.symm
        have hH := (passes_H hstate).advances
        rw [byteCalls_notify _ _ _ hmark, byteCalls_outside _ _ hmark] at hH
        have hE := (passes_HE parser.begin).advances
        rw [byteCalls_outside _ _ rfl] at hE
        have hAD : (ascii "AD").foldlM methodStep (.head, 2) = some (.head, 4) := by decide
        have hwithin : WithinMethod (.head, 2) := by
          show 2 ≤ (methodStrings .head).length
          decide
        exact hH.append (hE.append (method_inside parser.begin hwithin hAD))
      · have hpasses : Passes parser ch (parser.begin.atMethod (first, 1))
            [.notify .messageBegin] := by
          refine ⟨hheader, fun n => ?_⟩
          have hsingle := single_start hstart hcr hlf (fun hs hc => hboth ⟨hs, hc⟩) n
          rw [hfirst] at hsingle
          exact hsingle
        have hbegin := hpasses.advances
        rw [byteCalls_notify ch _ _ hmark, byteCalls_outside ch _ hmark] at hbegin
        exact hbegin.append (method_inside parser.begin (firstMethod_spells hfirst).le hrest)

theorem method_advances (hstart : AtStart parser) (method : HttpMethod) :
    Advances parser (methodStrings method ++ [' '.toUInt8]) [.messageBegin]
      (parser.begin.behindMethod method ((methodStrings method).length + 1)) := by
  have hends := (method_ends parser.begin method).advances
  rw [byteCalls_outside _ _ rfl] at hends
  exact (method_begins hstart method).append hends

/-! ## What comes out at a method -/

/-- The states of a status line up to its first space. -/
def beforeStatus (s : State) : Bool :=
  s ∈ [.resHT, .resHTT, .resHTTP, .resHttpMajor, .resHttpDot, .resHttpMinor, .resHttpEnd]

theorem beforeStatus_of_ne {next : HttpParser} (hch : ch ≠ ' '.toUInt8)
    (hnext : beforeStatus next.state = true) :
    if ch = ' '.toUInt8 then next.state = .resFirstStatusCode
    else beforeStatus next.state = true := by
  rw [if_neg hch]
  exact hnext

theorem beforeStatus_step {next : HttpParser} {ops : List Op}
    (hstate : beforeStatus parser.state = true) (heat : eat parser ch = .next next ops) :
    if ch = ' '.toUInt8 then next.state = .resFirstStatusCode
    else beforeStatus next.state = true := by
  have hne : ∀ expected, ¬ ch ≠ expected → expected ≠ ' '.toUInt8 → ch ≠ ' '.toUInt8 :=
    fun expected h hexpected => not_not.mp h ▸ hexpected
  have hnum : ¬ (!isNum ch) = true → ch ≠ ' '.toUInt8 := by
    rintro h rfl
    exact h (by decide)
  have hheader : parsingHeader parser.state = true := by
    cases h : parser.state <;> rw [h] at hstate <;> first | rfl | exact absurd hstate (by decide)
  rw [eat, if_pos hheader] at heat
  split_ifs at heat with hlarge
  rw [single, oneByte, show (parser.count 1).state = parser.state from rfl] at heat
  cases h : parser.state <;> rw [h] at hstate heat
  case resHT | resHTT | resHTTP =>
    dsimp only [Option.getD_some] at heat
    rw [strictCheck] at heat
    split_ifs at heat with hch
    obtain ⟨rfl, -⟩ := Turn.next.inj heat
    exact beforeStatus_of_ne (hne _ hch (by decide)) rfl
  case resHttpMajor =>
    dsimp only [Option.getD_some] at heat
    rw [httpMajor] at heat
    split_ifs at heat with hch
    obtain ⟨rfl, -⟩ := Turn.next.inj heat
    exact beforeStatus_of_ne (hnum hch) rfl
  case resHttpDot =>
    dsimp only [Option.getD_some] at heat
    rw [httpDot] at heat
    split_ifs at heat with hch
    obtain ⟨rfl, -⟩ := Turn.next.inj heat
    exact beforeStatus_of_ne (hne _ hch (by decide)) rfl
  case resHttpMinor =>
    dsimp only [Option.getD_some] at heat
    rw [httpMinor] at heat
    split_ifs at heat with hch
    obtain ⟨rfl, -⟩ := Turn.next.inj heat
    exact beforeStatus_of_ne (hnum hch) rfl
  case resHttpEnd =>
    dsimp only [Option.getD_some] at heat
    rw [resHttpEnd] at heat
    split_ifs at heat with hch
    obtain ⟨rfl, -⟩ := Turn.next.inj heat
    rw [if_pos (not_not.mp hch)]
    rfl
  all_goals exact absurd hstate (by decide)

/-- The first space of a status line does not lead to a request. -/
theorem status_never_method {last : HttpParser} {calls calls' : List Call}
    (hstate : beforeStatus parser.state = true) (hspace : ' '.toUInt8 ∉ rest)
    (heats : eats parser calls (rest ++ [' '.toUInt8]) = .all last calls') :
    last.state = .resFirstStatusCode := by
  induction rest generalizing parser calls with
  | nil =>
      rw [List.nil_append, eats] at heats
      cases heat : eat parser ' '.toUInt8 with
      | next next ops =>
          rw [heat] at heats
          obtain ⟨rfl, -⟩ := Eaten.all.inj heats
          exact beforeStatus_step hstate heat
      | leave | fail | abort =>
          rw [heat] at heats
          cases heats
  | cons ch rest ih =>
      rw [List.mem_cons, not_or] at hspace
      rw [List.cons_append, eats] at heats
      cases heat : eat parser ch with
      | next next ops =>
          rw [heat] at heats
          have hnext := beforeStatus_step hstate heat
          rw [if_neg (Ne.symm hspace.1)] at hnext
          exact ih hnext hspace.2 heats
      | leave | fail | abort =>
          rw [heat] at heats
          cases heats

theorem spelled_of_eats {last : HttpParser} {calls calls' : List Call} (hspells : Spells w at')
    (hspace : ' '.toUInt8 ∉ rest) (hn : n + rest.length + 1 ≤ maxHeaderSize)
    (heats : eats ((parser.atMethod at').withNread n) calls (rest ++ [' '.toUInt8]) =
      .all last calls') :
    w ++ rest = methodStrings last.method := by
  have hinside : ∀ b ∈ rest, b ≠ ' '.toUInt8 := fun b hb h => hspace (h ▸ hb)
  cases hfold : rest.foldlM methodStep at' with
  | none =>
      have hfailed := (method_simulates parser).eats_failed hspells.le hfold hinside
        (n := n) (by omega)
      rw [← List.append_nil calls, eats_calls, eats_append_failed hfailed] at heats
      cases heats
  | some number =>
      obtain ⟨method, index⟩ := number
      have hall := hspells.foldlM hfold
      obtain ⟨calls₁, heats₁, -⟩ := method_inside parser hspells.le hfold n (by omega)
      rw [← List.append_nil calls, eats_calls, eats_behind calls₁ heats₁, eats,
        eat_withNread rfl (by omega)] at heats
      rcases hall.le.lt_or_eq with hlt | heq
      · obtain ⟨last', hfail⟩ := method_space parser hlt (n + rest.length + 1)
        rw [hfail] at heats
        cases heats
      · obtain rfl : index = (methodStrings method).length := heq
        rw [(method_ends parser method).single] at heats
        obtain ⟨rfl, -⟩ := Eaten.all.inj heats
        exact hall.begins.trans (List.take_length)

theorem behind_H {last : HttpParser} {calls calls' : List Call} (hspace : ' '.toUInt8 ∉ rest)
    (hn : n + rest.length + 1 ≤ maxHeaderSize)
    (heats : eats ((parser.enter .resOrRespH).withNread n) calls (rest ++ [' '.toUInt8]) =
      .all last calls') (hlast : last.state = .reqSpacesBeforeUrl) :
    'H'.toUInt8 :: rest = methodStrings last.method := by
  have hsingle : ∀ ch, single ((parser.enter .resOrRespH).withNread (n + 1)) ch =
      resOrRespH ((parser.enter .resOrRespH).withNread (n + 1)) ch := fun _ => rfl
  cases rest with
  | nil =>
      rw [List.nil_append, eats, eat_withNread rfl (by rw [List.length_nil] at hn; omega),
        hsingle] at heats
      cases heats
  | cons ch rest =>
      rw [List.mem_cons, not_or] at hspace
      rw [List.length_cons] at hn
      rw [List.cons_append, eats, eat_withNread rfl (by omega), hsingle, resOrRespH] at heats
      by_cases hT : ch = 'T'.toUInt8
      · rw [if_pos hT] at heats
        have hstatus := status_never_method (by rfl) hspace.2 heats
        rw [hstatus] at hlast
        cases hlast
      · by_cases hE : ch = 'E'.toUInt8
        · rw [if_neg hT, if_neg (not_not.mpr hE)] at heats
          have hspells : Spells [72, 69] (.head, 2) := ⟨rfl, by decide, by decide⟩
          have hword := @spelled_of_eats parser _ _ (n + 1) _ _ _ _ hspells hspace.2
            (by omega) heats
          rw [hE]
          exact hword
        · rw [if_neg hT, if_pos hE] at heats
          cases heats

/-- A method is found behind the first word exactly where that is its name. -/
theorem method_iff (hstart : AtStart parser) (hspace : ' '.toUInt8 ∉ w)
    (hbegins : ∀ b ∈ w.head?, b ≠ CR ∧ b ≠ LF)
    (hn : n + w.length + 1 ≤ maxHeaderSize) (method : HttpMethod) :
    (∃ last calls, eats (parser.withNread n) [] (w ++ [' '.toUInt8]) = .all last calls ∧
      last.state = .reqSpacesBeforeUrl ∧ last.method = method) ↔ w = methodStrings method := by
  obtain ⟨hheader, hmark⟩ := hstart.header
  constructor
  · rintro ⟨last, calls, heats, hstate, rfl⟩
    cases w with
    | nil =>
        rw [List.nil_append, eats,
          eat_withNread hheader (by rw [List.length_nil] at hn; omega)] at heats
        obtain ⟨last', hfail⟩ : ∃ last', single (parser.withNread (n + 1)) ' '.toUInt8 =
            .fail last' [] .invalidMethod :=
          @single_start parser ' '.toUInt8 hstart (by decide) (by decide) (fun _ => by decide) (n + 1)
        rw [hfail] at heats
        cases heats
    | cons ch rest =>
        obtain ⟨hcr, hlf⟩ := hbegins ch rfl
        rw [List.mem_cons, not_or] at hspace
        rw [List.length_cons] at hn
        rw [List.cons_append, eats, eat_withNread hheader (by omega)] at heats
        by_cases hboth : parser.state = .startReqOrRes ∧ ch = 'H'.toUInt8
        · obtain ⟨hboth, rfl⟩ := hboth
          rw [(passes_H hboth).single] at heats
          exact behind_H hspace.2 (by omega) heats hstate
        · have hsingle := single_start hstart hcr hlf (fun hs hc => hboth ⟨hs, hc⟩) (n + 1)
          cases hfirst : firstMethod ch with
          | none =>
              rw [hfirst] at hsingle
              obtain ⟨last', hfail⟩ := hsingle
              rw [hfail] at heats
              cases heats
          | some first =>
              rw [hfirst] at hsingle
              dsimp only at hsingle
              rw [hsingle] at heats
              exact spelled_of_eats (firstMethod_spells hfirst) hspace.2 (by omega) heats
  · rintro rfl
    obtain ⟨calls, heats, -⟩ := method_advances hstart method n
      (by rw [List.length_append, List.length_singleton]; omega)
    exact ⟨_, calls, heats, rfl, rfl⟩

theorem method_iff_put :
    (∃ last calls, eats ((HttpParser.init .both).withNread 0) [] (ascii "PUT" ++ [' '.toUInt8]) =
      .all last calls ∧ last.state = .reqSpacesBeforeUrl ∧ last.method = .put) ↔
        ascii "PUT" = methodStrings .put :=
  method_iff (.inr rfl) (by decide)
    (fun b hb => by
      obtain rfl : 'P'.toUInt8 = b := Option.some.inj hb
      decide)
    (by decide) .put

end Methods

end LibConn.Parser
