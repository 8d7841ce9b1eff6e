import Mathlib.Data.List.Infix
import LibConn.Verification.Parser.Runs

/-! # Names

Which header fields the parser looks into is decided by an automaton over the bytes of the name.
It finds the five names that it looks for in any case, and no others. -/

namespace LibConn.Parser

open LibConn.Http

/-- A name that the parser looks for: the state of the comparison, the state behind it, and the
length from which a prefix belongs to no other of these names. -/
structure Matcher where
  state : HeaderState
  name : Bytes
  done : HeaderState
  alone : ℕ
  deriving DecidableEq

def matchers : List Matcher :=
  [⟨.matchingConnection, ascii "connection", .connection, 4⟩,
    ⟨.matchingProxyConnection, ascii "proxy-connection", .connection, 1⟩,
    ⟨.matchingContentLength, ascii "content-length", .contentLength, 4⟩,
    ⟨.matchingTransferEncoding, ascii "transfer-encoding", .transferEncoding, 1⟩,
    ⟨.matchingUpgrade, ascii "upgrade", .upgrade, 1⟩]

def transferEncoding : Bytes :=
  ascii "transfer-encoding"

/-- The prefixes that two names share. -/
def sharedPrefixes : List (Bytes × HeaderState × ℕ) :=
  [(ascii "c", .C, 0), (ascii "co", .CO, 1), (ascii "con", .CON, 2)]

/-- The state and the index behind the lowercased bytes `w` of a name. -/
inductive Follows (w : Bytes) : HeaderState → ℕ → Prop where
  | general {index : ℕ} (other : ∀ m ∈ matchers, ¬ w <+: m.name) : Follows w .general index
  | shared {h : HeaderState} {index : ℕ} (hmem : (w, h, index) ∈ sharedPrefixes) :
      Follows w h index
  | matching {m : Matcher} {index : ℕ} (hm : m ∈ matchers) (alone : m.alone ≤ index + 1)
      (short : index + 1 < m.name.length) (hw : w = m.name.take (index + 1)) :
      Follows w m.state index
  | found {m : Matcher} {index : ℕ} (hm : m ∈ matchers) (hw : w = m.name) :
      Follows w m.done index

section Names

variable {w : Bytes} {c ch : UInt8} {h : HeaderState} {index k : ℕ} {name : Bytes}
  {m m' : Matcher} {parser : HttpParser}

/-! ## The table -/

theorem eq_of_alone (hm : m ∈ matchers) (hm' : m' ∈ matchers)
    (h : m.name.take m.alone <+: m'.name) : m = m' := by
  have htable : ∀ m ∈ matchers, ∀ m' ∈ matchers, m.name.take m.alone <+: m'.name → m = m' := by
    decide
  exact htable m hm m' hm' h

theorem matcher_bounds (hm : m ∈ matchers) :
    0 < m.alone ∧ m.alone ≤ m.name.length ∧ m.name.length ≤ 17 := by
  have htable : ∀ m ∈ matchers, 0 < m.alone ∧ m.alone ≤ m.name.length ∧ m.name.length ≤ 17 := by
    decide
  exact htable m hm

theorem eq_of_prefix (hm : m ∈ matchers) (hm' : m' ∈ matchers) (hk : m.alone ≤ k)
    (hbegins : m.name.take k <+: w) (h : w <+: m'.name) : m = m' := by
  refine eq_of_alone hm hm' (List.IsPrefix.trans ?_ (hbegins.trans h))
  rw [← Nat.min_eq_left hk, ← List.take_take]
  exact List.take_prefix _ _

theorem concat_take_prefix_iff (hk : k ≤ name.length) :
    name.take k ++ [c] <+: name ↔ name[k]? = some c := by
  conv_lhs => rw [← List.take_append_drop k name]
  rw [List.take_append_of_le_length (by rw [List.length_take]; omega), List.take_take,
    Nat.min_self, List.prefix_append_right_inj]
  rw [← List.head?_drop]
  cases name.drop k with
  | nil => simp
  | cons b rest => simp [eq_comm]

theorem matchName_eq {same done other : HeaderState} (hk : k < name.length) :
    matchName k name c same done other =
      if name.take k ++ [c] <+: name then
        if k + 1 = name.length then done else same
      else other := by
  have hiff : name.take k ++ [c] <+: name ↔ c = name.getD k 0 := by
    rw [concat_take_prefix_iff hk.le, List.getD_eq_getElem?_getD, List.getElem?_eq_getElem hk,
      Option.some.injEq, Option.getD_some, eq_comm]
  have hlast : k = name.length - 1 ↔ k + 1 = name.length := by omega
  rw [matchName, if_congr hiff rfl rfl]
  generalize name.getD k 0 = expected
  by_cases hc : c = expected
  · rw [if_neg (by simp [hc, hk.le]), if_pos hc, if_congr hlast rfl rfl]
  · rw [if_pos (by simp [hc]), if_neg hc]

/-! ## The automaton -/

theorem ne_space_of_token (hch : token ch ≠ 0) : ch ≠ ' '.toUInt8 := by
  rintro rfl
  exact hch (if_pos rfl)

theorem fieldChar_matching (hm : m ∈ matchers) (hstate : parser.header_state = m.state) :
    ∃ next, next = matchName (nextIndex parser.index) m.name (token ch) m.state m.done .general ∧
      fieldChar parser ch = some
        { parser with
          index := nextIndex parser.index
          header_state := next
          uses_transfer_encoding :=
            parser.uses_transfer_encoding || decide (next = .transferEncoding) } := by
  refine ⟨_, rfl, ?_⟩
  have hne : ∀ state done, state ≠ .transferEncoding → done ≠ .transferEncoding →
      decide (matchName (nextIndex parser.index) m.name (token ch) state done .general =
        .transferEncoding) = false := by
    intro state done hs hd
    rw [decide_eq_false_iff_not, matchName]
    split_ifs
    · simp
    · exact hd
    · exact hs
  simp only [matchers, List.mem_cons, List.not_mem_nil, or_false] at hm
  rcases hm with rfl | rfl | rfl | rfl | rfl
  case inr.inr.inr.inl =>
    rw [fieldChar, hstate]
  all_goals
    rw [fieldChar, hstate, hne _ _ (by decide) (by decide), Bool.or_false]

theorem fieldChar_found (hm : m ∈ matchers) (hstate : parser.header_state = m.done)
    (hch : ch ≠ ' '.toUInt8) :
    fieldChar parser ch = some { parser with header_state := .general } := by
  have hdone : ∀ m ∈ matchers, m.done = .connection ∨ m.done = .contentLength ∨
      m.done = .transferEncoding ∨ m.done = .upgrade := by decide
  rw [fieldChar, hstate]
  rcases hdone m hm with h | h | h | h <;> rw [h] <;> exact congrArg some (if_pos hch)

theorem matcher_transferEncoding (hm : m ∈ matchers) :
    m.state ≠ .transferEncoding ∧ (m.done = .transferEncoding ↔ m.name = transferEncoding) := by
  have htable : ∀ m ∈ matchers, m.state ≠ .transferEncoding ∧
      (m.done = .transferEncoding ↔ m.name = transferEncoding) := by decide
  exact htable m hm

theorem exists_matcher_transferEncoding : ∃ m ∈ matchers, m.name = transferEncoding :=
  ⟨⟨.matchingTransferEncoding, transferEncoding, .transferEncoding, 1⟩, by decide, rfl⟩

/-- Where no name begins so, the parser does not look at the rest. -/
theorem Follows.general_concat (hother : ∀ m ∈ matchers, ¬ w ++ [c] <+: m.name) :
    decide (w ++ [c] = transferEncoding) = false := by
  rw [decide_eq_false_iff_not]
  intro hname
  obtain ⟨m, hm, hte⟩ := exists_matcher_transferEncoding
  exact hother m hm (hname.trans hte.symm ▸ List.prefix_refl _)

theorem fieldChar_general (hstate : parser.header_state = .general) :
    fieldChar parser ch = some parser := by
  rw [fieldChar, hstate]

theorem getElem?_of_concat (h : w ++ [c] <+: name) : name[w.length]? = some c := by
  obtain ⟨rest, rfl⟩ := h
  simp

theorem not_prefix_of_next (bytes : List UInt8)
    (htable : ∀ m ∈ matchers, w <+: m.name → ∃ b ∈ bytes, m.name[w.length]? = some b)
    (hc : c ∉ bytes) : ∀ m ∈ matchers, ¬ w ++ [c] <+: m.name := by
  intro m hm hinitial
  obtain ⟨b, hb, hnext⟩ := htable m hm ((List.prefix_append _ _).trans hinitial)
  rw [getElem?_of_concat hinitial] at hnext
  exact hc (Option.some.inj hnext ▸ hb)

theorem Follows.shared_step (hmem : (w, parser.header_state, parser.index) ∈ sharedPrefixes) :
    ∃ header_state index,
      fieldChar parser ch =
        some { parser with index := index, header_state := header_state } ∧
      Follows (w ++ [token ch]) header_state index := by
  rw [sharedPrefixes, List.mem_cons, List.mem_cons, List.mem_singleton] at hmem
  rcases hmem with h | h | h
  all_goals
    obtain ⟨rfl, hrest⟩ := Prod.mk.inj h
    obtain ⟨hstate, hindex⟩ := Prod.mk.inj hrest
    refine ⟨_, nextIndex parser.index, by rw [fieldChar, hstate], ?_⟩
    rw [hindex]
  · split_ifs with ho
    · rw [ho]
      exact .shared (by decide)
    · exact .general (not_prefix_of_next ['o'.toUInt8] (by decide) (by simpa using ho))
  · split_ifs with hn
    · rw [hn]
      exact .shared (by decide)
    · exact .general (not_prefix_of_next ['n'.toUInt8] (by decide) (by simpa using hn))
  · split_ifs with hn ht
    · rw [hn]
      exact .matching (m := ⟨.matchingConnection, ascii "connection", .connection, 4⟩) (by decide)
        (by decide) (by decide) rfl
    · rw [ht]
      exact .matching (m := ⟨.matchingContentLength, ascii "content-length", .contentLength, 4⟩)
        (by decide) (by decide) (by decide) rfl
    · exact .general (not_prefix_of_next ['n'.toUInt8, 't'.toUInt8] (by decide)
        (by simp [hn, ht]))

theorem Follows.step (h : Follows w parser.header_state parser.index) (hch : token ch ≠ 0) :
    ∃ header_state index,
      fieldChar parser ch = some
        { parser with
          index := index
          header_state := header_state
          uses_transfer_encoding := parser.uses_transfer_encoding ||
            decide (w ++ [token ch] = transferEncoding) } ∧
      Follows (w ++ [token ch]) header_state index := by
  generalize hstate : parser.header_state = state at h
  generalize hindex : parser.index = index at h
  cases h with
  | general other =>
      have hother : ∀ m ∈ matchers, ¬ w ++ [token ch] <+: m.name := fun m hm hinitial =>
        other m hm ((List.prefix_append _ _).trans hinitial)
      refine ⟨.general, parser.index, ?_, .general hother⟩
      rw [fieldChar_general hstate, Follows.general_concat hother, Bool.or_false, ← hstate]
  | shared hmem =>
      rw [← hstate, ← hindex] at hmem
      obtain ⟨header_state, index, hchar, hfollows⟩ := @Follows.shared_step w ch parser hmem
      have hlong : decide (w ++ [token ch] = transferEncoding) = false := by
        have hshort : ∀ entry ∈ sharedPrefixes, entry.1.length ≤ 3 := by decide
        rw [decide_eq_false_iff_not]
        intro hname
        have hlength : w.length + 1 = 17 := by
          rw [← List.length_concat, List.concat_eq_append, hname]
          rfl
        have hle : w.length ≤ 3 := hshort _ hmem
        omega
      exact ⟨header_state, index, by rw [hchar, hlong, Bool.or_false], hfollows⟩
  | @matching m _ hm alone short hw =>
      obtain ⟨next, hnext, hchar⟩ := @fieldChar_matching ch _ parser hm hstate
      obtain ⟨hpos, hlength, hbound⟩ := matcher_bounds hm
      obtain ⟨hnestate, hdone⟩ := matcher_transferEncoding hm
      rw [hindex, nextIndex_of_lt (by omega)] at hnext hchar
      rw [matchName_eq short, ← hw] at hnext
      have honly : ∀ m' ∈ matchers, w ++ [token ch] <+: m'.name → m = m' := fun m' hm' hinitial =>
        eq_of_prefix hm hm' alone (hw ▸ List.prefix_append _ _) hinitial
      have hwlength : (w ++ [token ch]).length = index + 2 := by
        rw [List.length_append, List.length_singleton, hw, List.length_take]
        omega
      have hfollows : Follows (w ++ [token ch]) next (index + 1) := by
        rw [hnext]
        split_ifs with hinitial hall
        · exact .found hm (hinitial.eq_of_length (hwlength.trans hall))
        · have hle := hinitial.length_le
          refine .matching hm (by omega) (by omega) ?_
          rw [List.prefix_iff_eq_take.mp hinitial, hwlength]
        · exact .general fun m' hm' hinitial' => hinitial (honly m' hm' hinitial' ▸ hinitial')
      have hflag : decide (next = .transferEncoding) =
          decide (w ++ [token ch] = transferEncoding) := by
        -- whatever is spelled so far, it is of the name of this matcher
        have hte : w ++ [token ch] = transferEncoding → m.name = transferEncoding := by
          intro hname
          obtain ⟨m', hm', hname'⟩ := exists_matcher_transferEncoding
          rw [honly m' hm' (hname.trans hname'.symm ▸ List.prefix_refl _), hname']
        rw [decide_eq_decide, hnext]
        split_ifs with hinitial hall
        · rw [hdone, hinitial.eq_of_length (hwlength.trans hall)]
        · refine ⟨fun h => absurd h hnestate, fun hname => absurd ?_ hall⟩
          rw [hte hname, ← hname, hwlength]
        · refine ⟨nofun, fun hname => absurd ?_ hinitial⟩
          rw [hname, hte hname]
      exact ⟨next, index + 1, by rw [hchar, hflag], hfollows⟩
  | @found m _ hm hw =>
      have hother : ∀ m' ∈ matchers, ¬ w ++ [token ch] <+: m'.name := by
        intro m' hm' hinitial
        obtain ⟨-, hlength, -⟩ := matcher_bounds hm
        have hbegins : m.name.take m.name.length <+: w ++ [token ch] := by
          rw [List.take_length, hw]
          exact List.prefix_append _ _
        obtain rfl := eq_of_prefix hm hm' hlength hbegins hinitial
        have hle := hinitial.length_le
        rw [hw, List.length_append, List.length_singleton] at hle
        omega
      refine ⟨.general, parser.index, ?_, .general hother⟩
      rw [fieldChar_found hm hstate (ne_space_of_token hch), Follows.general_concat hother,
        Bool.or_false]

theorem follows_first (c : UInt8) : Follows [c] (firstHeaderState c) 0 := by
  rw [firstHeaderState]
  split_ifs with hc hp ht hu
  · rw [hc]
    exact .shared (by decide)
  · rw [hp]
    exact .matching (m := ⟨.matchingProxyConnection, ascii "proxy-connection", .connection, 1⟩)
      (by decide) (by decide) (by decide) rfl
  · rw [ht]
    exact .matching (m := ⟨.matchingTransferEncoding, transferEncoding, .transferEncoding, 1⟩)
      (by decide) (by decide) (by decide) rfl
  · rw [hu]
    exact .matching (m := ⟨.matchingUpgrade, ascii "upgrade", .upgrade, 1⟩)
      (by decide) (by decide) (by decide) rfl
  · have hnone : ∀ m ∈ matchers, ¬ [] ++ [c] <+: m.name :=
      not_prefix_of_next ['c'.toUInt8, 'p'.toUInt8, 't'.toUInt8, 'u'.toUInt8]
        (by decide) (by simp [hc, hp, ht, hu])
    exact .general hnone

/-! ## What a name means -/

/-- How the parser treats the value behind a lowercased name. -/
def kindOf (name : Bytes) : HeaderState :=
  ((matchers.find? fun m => m.name = name).map Matcher.done).getD .general

/-- `s_header_value_start` looks at no other header states of a name. -/
def settled (h : HeaderState) : HeaderState :=
  if h ∈ [.connection, .contentLength, .transferEncoding, .upgrade] then h else .general

theorem kindOf_other (h : ∀ m ∈ matchers, m.name ≠ w) : kindOf w = .general := by
  have hnone : matchers.find? (fun m => m.name = w) = none :=
    List.find?_eq_none.mpr fun m hm => by simpa using h m hm
  rw [kindOf, hnone]
  rfl

/-- Behind a whole name. -/
theorem Follows.kind (h : Follows w state index) : settled state = kindOf w := by
  cases h with
  | general other => rw [kindOf_other fun m hm hname => other m hm (hname ▸ List.prefix_refl _)]; rfl
  | shared hmem =>
      have htable : ∀ entry ∈ sharedPrefixes, settled entry.2.1 = kindOf entry.1 := by decide
      exact htable _ hmem
  | @matching m _ hm alone short hw =>
      have hstates : ∀ m ∈ matchers, settled m.state = .general := by decide
      rw [hstates m hm, kindOf_other]
      intro m' hm' hname
      have hbegins : m.name.take (index + 1) <+: m'.name := by
        rw [hname, ← hw]
      obtain rfl := eq_of_prefix hm hm' alone (List.prefix_refl _) hbegins
      have hlength := congrArg List.length (hname.trans hw)
      rw [List.length_take] at hlength
      omega
  | @found m _ hm hw =>
      have htable : ∀ m ∈ matchers, settled m.done = kindOf m.name := by decide
      rw [htable m hm, hw]

theorem Follows.nameState (h : Follows w state index) : nameState state = true := by
  cases h with
  | general => rfl
  | shared hmem =>
      have htable : ∀ entry ∈ sharedPrefixes, Parser.nameState entry.2.1 = true := by decide
      exact htable _ hmem
  | @matching m _ hm =>
      have htable : ∀ m ∈ matchers, Parser.nameState m.state = true := by decide
      exact htable m hm
  | @found m _ hm =>
      have htable : ∀ m ∈ matchers, Parser.nameState m.done = true := by decide
      exact htable m hm

/-! ## Reading a name -/

theorem fieldChar_withNread (parser : HttpParser) (n : ℕ) (ch : UInt8) :
    fieldChar (parser.withNread n) ch = (fieldChar parser ch).map fun next => next.withNread n := by
  obtain ⟨type, flags, state, header_state⟩ := parser
  cases header_state with
  | connection | contentLength | transferEncoding | upgrade =>
      simp only [fieldChar, HttpParser.withNread]
      split_ifs <;> rfl
  | _ => rfl

theorem ne_lineEnd_of_token (hch : token ch ≠ 0) : ch ≠ CR ∧ ch ≠ LF :=
  ⟨by rintro rfl; exact hch (by decide), by rintro rfl; exact hch (by decide)⟩

/-- The first byte of a name. -/
theorem passes_firstByte (hstate : parser.state = .headerFieldStart) (hch : token ch ≠ 0) :
    Passes parser ch
      { parser with
        state := .headerField
        header_state := firstHeaderState (token ch)
        index := 0 }
      [.mark .headerField] := by
  obtain ⟨hcr, hlf⟩ := ne_lineEnd_of_token hch
  refine ⟨by rw [hstate]; rfl, fun n => ?_⟩
  rw [single, oneByte, show (parser.withNread n).state = .headerFieldStart from hstate,
    Option.getD_some, headerFieldStart, if_neg hcr, if_neg hlf, if_neg hch]
  rfl

/-- The parser inside of a name, where `w` is lowercased what it has read. -/
structure InName (line : HttpParser) (w : Bytes) (parser : HttpParser) : Prop where
  same : ∃ header_state index, parser =
    { line with
      state := .headerField
      header_state := header_state
      index := index
      uses_transfer_encoding :=
        line.uses_transfer_encoding || decide (transferEncoding <+: w) }
  follows : Follows w parser.header_state parser.index

theorem InName.step {line : HttpParser} (h : InName line w parser) (hch : token ch ≠ 0) :
    ∃ next, Passes parser ch next [] ∧ InName line (w ++ [token ch]) next := by
  obtain ⟨header_state, index, hparser⟩ := h.same
  obtain ⟨header_state', index', hchar, hfollows⟩ := h.follows.step hch
  refine
    ⟨{ parser with
        index := index'
        header_state := header_state'
        uses_transfer_encoding := parser.uses_transfer_encoding ||
          decide (w ++ [token ch] = transferEncoding) },
      ⟨by rw [hparser]; rfl, fun n => ?_⟩, ⟨⟨header_state', index', ?_⟩, hfollows⟩⟩
  · have hstate : (parser.withNread n).state = .headerField := by rw [hparser]; rfl
    rw [single, oneByte, hstate, Option.getD_none, loopByte, hstate]
    dsimp only
    rw [if_neg hch, fieldChar_withNread, hchar]
    rfl
  · rw [hparser]
    dsimp only
    rw [Bool.or_assoc, ← Bool.decide_or]
    congr 2
    rw [decide_eq_decide, List.prefix_concat_iff, or_comm, eq_comm]

theorem InName.state {line : HttpParser} (h : InName line w parser) :
    parser.state = .headerField := by
  obtain ⟨header_state, index, hparser⟩ := h.same
  rw [hparser]

theorem InName.reads {line : HttpParser} {rest : Bytes} (h : InName line w parser)
    (hrest : ∀ b ∈ rest, token b ≠ 0) :
    ∃ last, Advances parser rest (rest.map fun ch => .headerField [ch]) last ∧
      InName line (w ++ rest.map token) last := by
  have hstep : ∀ ch left parser,
      (∃ read, rest = read ++ ch :: left ∧ InName line (w ++ read.map token) parser) →
      ∃ next, Passes parser ch next [] ∧
        byteCalls parser.state ch next [] = [.headerField [ch]] ∧
        ∃ read, rest = read ++ left ∧ InName line (w ++ read.map token) next := by
    rintro ch left parser ⟨read, hread, hname⟩
    have hmem : ch ∈ rest := hread ▸ List.mem_append_right _ List.mem_cons_self
    obtain ⟨next, hpasses, hnext⟩ := hname.step (hrest ch hmem)
    have hinside : markOf parser.state = some .headerField := by rw [hname.state]; rfl
    refine ⟨next, hpasses, byteCalls_inside ch next hinside, read ++ [ch], ?_, ?_⟩
    · rw [hread, List.append_assoc]
      rfl
    · rw [List.map_append, ← List.append_assoc]
      exact hnext
  obtain ⟨last, hreads, read, hread, hname⟩ := advances_pieces .headerField
    (fun left parser => ∃ read, rest = read ++ left ∧ InName line (w ++ read.map token) parser)
    hstep ⟨[], rfl, by simpa using h⟩
  rw [List.append_nil] at hread
  exact ⟨last, hreads, hread ▸ hname⟩

/-- A name in front of its colon. -/
theorem name_advances {line : HttpParser} {name : Bytes} (hstate : line.state = .headerFieldStart)
    (hne : name ≠ []) (htoken : ∀ b ∈ name, token b ≠ 0) :
    ∃ header_state index,
      Advances line (name ++ [':'.toUInt8]) [.headerField name]
        { line with
          state := .headerValueDiscardWs
          header_state := header_state
          index := index
          uses_transfer_encoding :=
            line.uses_transfer_encoding || decide (transferEncoding <+: name.map token) } ∧
      nameState header_state = true ∧ settled header_state = kindOf (name.map token) := by
  cases name with
  | nil => exact absurd rfl hne
  | cons ch rest =>
      obtain ⟨hch, hrest⟩ := List.forall_mem_cons.mp htoken
      have hfirst := passes_firstByte hstate hch
      have hstart : InName line [token ch]
          { line with
            state := .headerField
            header_state := firstHeaderState (token ch)
            index := 0 } := by
        refine ⟨⟨firstHeaderState (token ch), 0, ?_⟩, follows_first (token ch)⟩
        have hshort : decide (transferEncoding <+: [token ch]) = false :=
          decide_eq_false fun h => absurd h.length_le (by rw [List.length_singleton]; decide)
        rw [hshort, Bool.or_false]
      obtain ⟨middle, hmiddle, hname⟩ := hstart.reads hrest
      obtain ⟨header_state, index, hsame⟩ := hname.same
      have hkind := hname.follows.kind
      have hstates := hname.follows.nameState
      rw [hsame] at hkind hstates
      have hcolon : Passes middle ':'.toUInt8 (middle.enter .headerValueDiscardWs)
          [.data .headerField] := by
        refine ⟨by rw [hsame]; rfl, fun n => ?_⟩
        have hinside : (middle.withNread n).state = .headerField := by rw [hsame]; rfl
        rw [single, oneByte, hinside, Option.getD_none, loopByte, hinside]
        rfl
      refine ⟨header_state, index, ?_, hstates, hkind⟩
      have hread := advances_string (joins_dataCall line .headerField) hfirst (by rw [hstate]; rfl)
        (fun _ => rfl) hmiddle hcolon (by rw [hsame]; rfl) fun _ => rfl
      rw [hsame] at hread
      exact hread

end Names

end LibConn.Parser
