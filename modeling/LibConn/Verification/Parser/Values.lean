import LibConn.Shared.Numerals
import LibConn.Verification.Http.Messages
import LibConn.Verification.Parser.Names

/-! # Values

What stands between the colon and the end of the line. A Content-Length is taken exactly where it
is a number below the limit, which never wraps. -/

namespace LibConn.Parser

open LibConn.Http

section Values

variable {parser start next last : HttpParser} {ch : UInt8} {rest text : Bytes} {n : ℕ}

/-! ## In front of a value and behind it -/

/-- A byte that a value may begin with. -/
def beginsValue (ch : UInt8) : Bool :=
  !blank ch && ch ≠ CR && ch ≠ LF

theorem passes_blank (hstate : parser.state = .headerValueDiscardWs) (hch : blank ch = true) :
    Passes parser ch parser [] := by
  refine ⟨by rw [hstate]; rfl, fun n => ?_⟩
  rw [single, oneByte, show (parser.withNread n).state = .headerValueDiscardWs from hstate]
  exact if_pos hch

theorem single_valueStart (hstate : parser.state = .headerValueDiscardWs)
    (hch : beginsValue ch = true) :
    single parser ch = headerValueStart parser ch := by
  rw [beginsValue, Bool.and_eq_true, Bool.and_eq_true, Bool.not_eq_true', decide_eq_true_eq,
    decide_eq_true_eq] at hch
  obtain ⟨⟨hblank, hcr⟩, hlf⟩ := hch
  have hspace : ¬ (decide (ch = ' '.toUInt8) || decide (ch = 9)) = true := by
    rw [Bool.not_eq_true]
    exact hblank
  rw [single, oneByte, hstate]
  dsimp only [Option.getD_some]
  rw [headerValueDiscardWs, if_neg hspace, if_neg hcr, if_neg hlf]

theorem value_ends (hstate : parser.state = .headerValue) :
    Advances parser [CR, LF] [.headerValue []] (parser.enter .headerValueLws) := by
  have hcr : Passes parser CR (parser.enter .headerAlmostDone) [.data .headerValue] := by
    refine ⟨by rw [hstate]; rfl, fun n => ?_⟩
    rw [single, oneByte, show (parser.withNread n).state = .headerValue from hstate,
      Option.getD_none, loopByte, show (parser.withNread n).state = .headerValue from hstate]
    rfl
  have hlf : Passes (parser.enter .headerAlmostDone) LF (parser.enter .headerValueLws) [] :=
    ⟨rfl, fun _ => rfl⟩
  have hends := hcr.advances.append hlf.advances
  rw [byteCalls_data CR _ (by rw [hstate]; rfl), byteCalls_outside LF _ rfl] at hends
  exact hends

theorem empty_ends (hstate : parser.state = .headerValueDiscardWs) :
    Advances parser [CR, LF] [] (parser.enter .headerValueDiscardLws) := by
  have hcr : Passes parser CR (parser.enter .headerValueDiscardWsAlmostDone) [] := by
    refine ⟨by rw [hstate]; rfl, fun n => ?_⟩
    rw [single, oneByte, show (parser.withNread n).state = .headerValueDiscardWs from hstate]
    rfl
  have hlf : Passes (parser.enter .headerValueDiscardWsAlmostDone) LF
      (parser.enter .headerValueDiscardLws) [] := ⟨rfl, fun _ => rfl⟩
  exact .step hcr (byteCalls_outside CR _ (by rw [hstate]; rfl))
    (.step hlf (byteCalls_outside LF _ rfl) (.nil _))

/-- A value from its first byte to the end of the line. -/
theorem value_advances (hstart : start.state = .headerValueDiscardWs)
    (hfirst : Passes start ch next [.mark .headerValue])
    (hrest : Advances next rest (rest.map fun ch => .headerValue [ch]) last)
    (hlast : last.state = .headerValue) :
    Advances start (ch :: rest ++ [CR, LF]) [.headerValue (ch :: rest)]
      (last.enter .headerValueLws) := by
  have hmark := hfirst.advances
  rw [byteCalls_mark ch next (by rw [hstart]; rfl)] at hmark
  exact ((hmark.append hrest).append (value_ends hlast)).congr
    (joined_string (joins_dataCall next .headerValue) (ch :: rest))

def ValueTurn.turn : ValueTurn → Turn
  | .goOn parser h_state => .next { parser with header_state := h_state } []
  | .fail parser e => .fail parser [] e
  | .abort => .abort

theorem single_valueByte (hstate : parser.state = .headerValue) (hcr : ch ≠ CR) (hlf : ch ≠ LF) :
    single parser ch =
      if !parser.lenient_http_headers && !isHeaderChar ch then .fail parser [] .invalidHeaderToken
      else (valueChar parser parser.header_state ch).turn := by
  rw [single, oneByte, hstate, Option.getD_none, loopByte, hstate]
  dsimp only
  rw [if_neg hcr, if_neg hlf]
  cases valueChar parser parser.header_state ch <;> rfl

/-! ## Content-Length -/

/-- The last number in front of a digit that `h_content_length_num` takes. -/
def lengthLimit : ℕ :=
  (ullongMax - 10) / 10

/-- A byte of a Content-Length, as the number so far and whether a space was behind it. -/
def lengthStep : ℕ × Bool → UInt8 → Option (ℕ × Bool)
  | (m, spaced), ch =>
      if ch = ' '.toUInt8 then some (m, true)
      else if spaced || !isNum ch || decide (lengthLimit < m) then none
      else some (m * 10 + (ch.toNat - 48), false)

/-- The header state of a Content-Length. -/
def lengthState (spaced : Bool) : HeaderState :=
  if spaced then .contentLengthWs else .contentLengthNum

/-- The parser inside of a Content-Length. -/
def HttpParser.atLength (parser : HttpParser) (number : ℕ × Bool) : HttpParser :=
  { parser with
    state := .headerValue
    header_state := lengthState number.2
    content_length := number.1 }

theorem isNum_iff : isNum ch = true ↔ 48 ≤ ch ∧ ch ≤ 57 := by
  rw [isNum, Bool.and_eq_true, decide_eq_true_eq, decide_eq_true_eq]
  exact Iff.rfl

theorem isHeaderChar_of_isNum (h : isNum ch = true) : isHeaderChar ch = true := by
  rw [isNum_iff, UInt8.le_iff_toNat_le, UInt8.le_iff_toNat_le] at h
  have hlow : (31 : UInt8) < ch := UInt8.lt_iff_toNat_lt.mpr (Nat.lt_of_lt_of_le (by decide) h.1)
  have hdel : ch ≠ 127 := by
    rintro rfl
    exact absurd h.2 (by decide)
  simp [isHeaderChar, hlow, hdel]

theorem lengthLimit_lt {m : ℕ} (hm : ¬ lengthLimit < m) (hnum : isNum ch = true) :
    m * 10 + (ch.toNat - 48) < 2 ^ 64 := by
  have hle : m ≤ 1844674407370955160 := not_lt.mp hm
  have hdigit := digit_le hnum
  omega

theorem lengthStep_some {number number' : ℕ × Bool} (h : lengthStep number ch = some number') :
    (ch = ' '.toUInt8 ∧ number' = (number.1, true)) ∨
      (isNum ch = true ∧ number.2 = false ∧ ¬ lengthLimit < number.1 ∧
        number' = (number.1 * 10 + (ch.toNat - 48), false)) := by
  rw [lengthStep] at h
  split_ifs at h with hspace hstop
  · exact .inl ⟨hspace, (Option.some.inj h).symm⟩
  · simp only [Bool.or_eq_true, Bool.not_eq_true', decide_eq_true_eq, not_or, Bool.not_eq_false,
      Bool.not_eq_true] at hstop
    exact .inr ⟨hstop.1.2, hstop.1.1, hstop.2, (Option.some.inj h).symm⟩

theorem lengthByte_taken {number number' : ℕ × Bool} (h : lengthStep number ch = some number') :
    Passes (parser.atLength number) ch (parser.atLength number') [] := by
  refine ⟨rfl, fun n => ?_⟩
  rcases lengthStep_some h with ⟨rfl, rfl⟩ | ⟨hnum, hspaced, hlimit, rfl⟩
  · have hheader : isHeaderChar ' '.toUInt8 = true := by decide
    rw [single_valueByte rfl (by decide) (by decide), if_neg (by simp [hheader])]
    obtain ⟨m, spaced⟩ := number
    cases spaced <;> rfl
  · have hspace : ch ≠ ' '.toUInt8 := by
      rintro rfl
      exact absurd hnum (by decide)
    have hend : ch ≠ CR ∧ ch ≠ LF :=
      ⟨by rintro rfl; exact absurd hnum (by decide), by rintro rfl; exact absurd hnum (by decide)⟩
    rw [single_valueByte rfl hend.1 hend.2, if_neg (by simp [isHeaderChar_of_isNum hnum])]
    obtain ⟨m, spaced⟩ := number
    obtain rfl : spaced = false := hspaced
    have hchar : valueChar ((parser.atLength (m, false)).withNread n) .contentLengthNum ch =
        contentLengthNum ((parser.atLength (m, false)).withNread n) ch := rfl
    rw [show ((parser.atLength (m, false)).withNread n).header_state = .contentLengthNum from rfl,
      hchar, contentLengthNum, if_neg hspace, if_neg (by simp [hnum]), if_neg (by exact hlimit)]
    dsimp only [HttpParser.withNread, HttpParser.atLength]
    rw [Nat.mod_eq_of_lt (lengthLimit_lt hlimit hnum)]
    rfl

theorem lengthByte_refused {number : ℕ × Bool} (h : lengthStep number ch = none) (hcr : ch ≠ CR)
    (hlf : ch ≠ LF) (n : ℕ) :
    ∃ last e, single ((parser.atLength number).withNread n) ch = .fail last [] e := by
  obtain ⟨m, spaced⟩ := number
  rw [lengthStep] at h
  split_ifs at h with hspace hstop
  rw [single_valueByte rfl hcr hlf]
  split_ifs
  · exact ⟨_, _, rfl⟩
  · cases spaced with
    | true =>
        have hchar : valueChar ((parser.atLength (m, true)).withNread n) .contentLengthWs ch =
            if ch = ' '.toUInt8 then .goOn ((parser.atLength (m, true)).withNread n) .contentLengthWs
            else .fail { (parser.atLength (m, true)).withNread n with
              header_state := .contentLengthWs } .invalidContentLength := rfl
        rw [show ((parser.atLength (m, true)).withNread n).header_state = .contentLengthWs from rfl,
          hchar, if_neg hspace]
        exact ⟨_, _, rfl⟩
    | false =>
        have hchar : valueChar ((parser.atLength (m, false)).withNread n) .contentLengthNum ch =
            contentLengthNum ((parser.atLength (m, false)).withNread n) ch := rfl
        rw [show ((parser.atLength (m, false)).withNread n).header_state = .contentLengthNum from rfl,
          hchar, contentLengthNum, if_neg hspace]
        by_cases hnum : isNum ch = true
        · have hlimit : lengthLimit < m := by simpa [hnum] using hstop
          rw [if_neg (by simp [hnum]), if_pos (by exact hlimit)]
          exact ⟨_, _, rfl⟩
        · rw [if_pos (by simp [hnum])]
          exact ⟨_, _, rfl⟩

/-- The bytes of a Content-Length behind the first. -/
theorem length_simulates (parser : HttpParser) :
    Simulates (fun _ => True) parser.atLength lengthStep (fun ch => [.headerValue [ch]])
      (fun ch => ch ≠ CR ∧ ch ≠ LF) where
  taken _ ch _ _ hstep :=
    ⟨trivial, lengthByte_taken hstep, byteCalls_inside ch _ (f := .headerValue) rfl⟩
  refused _ _ _ hstep hinside :=
    ⟨rfl, fun n =>
      let ⟨last, e, hfail⟩ := lengthByte_refused hstep hinside.1 hinside.2 n
      ⟨last, [], e, hfail⟩⟩

theorem lengthBytes_taken {number number' : ℕ × Bool}
    (h : rest.foldlM lengthStep number = some number') :
    Advances (parser.atLength number) rest (rest.map fun ch => .headerValue [ch])
      (parser.atLength number') := by
  rw [List.map_eq_flatMap]
  exact ((length_simulates parser).advances trivial h).1

/-! What the steps come to. -/

theorem foldlM_spaced {m : ℕ} {number : ℕ × Bool} :
    rest.foldlM lengthStep (m, true) = some number ↔
      (∀ b ∈ rest, b = ' '.toUInt8) ∧ number = (m, true) := by
  induction rest with
  | nil => exact ⟨fun h => ⟨List.forall_mem_nil _, (Option.some.inj h).symm⟩, fun h => h.2 ▸ rfl⟩
  | cons ch rest ih =>
      rw [List.foldlM_cons, lengthStep]
      by_cases hspace : ch = ' '.toUInt8
      · rw [if_pos hspace]
        refine ih.trans ?_
        rw [List.forall_mem_cons, and_iff_right hspace]
      · rw [if_neg hspace]
        exact ⟨nofun, fun h => absurd (h.1 ch List.mem_cons_self) hspace⟩

/-- The digits of a number, as the numbers that they are. -/
def digitValues (digits : Bytes) : List ℕ :=
  digits.map fun b => b.toNat - 48

theorem digitValues_cons (ch : UInt8) (digits : Bytes) :
    digitValues (ch :: digits) = (ch.toNat - 48) :: digitValues digits :=
  rfl

theorem foldlM_digits {digits : Bytes} {m k : ℕ} (hdigits : ∀ b ∈ digits, isNum b = true)
    (hread : Numerals.read 10 lengthLimit m (digitValues digits) = some k)
    (spaces : ℕ) :
    (digits ++ List.replicate spaces ' '.toUInt8).foldlM lengthStep (m, false) =
      some (k, decide (0 < spaces)) := by
  induction digits generalizing m with
  | nil =>
      obtain rfl := Option.some.inj hread
      cases spaces with
      | zero => rfl
      | succ spaces =>
          rw [List.nil_append, List.replicate_succ, List.foldlM_cons]
          exact foldlM_spaced.mpr ⟨fun b hb => (List.mem_replicate.mp hb).2, rfl⟩
  | cons ch digits ih =>
      obtain ⟨hnum, hrest⟩ := List.forall_mem_cons.mp hdigits
      rw [digitValues_cons, Numerals.read, Option.ite_none_left_eq_some] at hread
      obtain ⟨hlimit, hread⟩ := hread
      have hspace : ch ≠ ' '.toUInt8 := by
        rintro rfl
        exact absurd hnum (by decide)
      rw [List.cons_append, List.foldlM_cons, lengthStep, if_neg hspace,
        if_neg (by simp [hnum, not_lt.mp hlimit])]
      exact ih hrest hread

/-- The largest number that is taken. -/
def lengthMax : ℕ :=
  18446744073709551609

theorem digitValues_lt {digits : Bytes} (hdigits : ∀ b ∈ digits, isNum b = true) :
    ∀ d ∈ digitValues digits, d < 10 :=
  List.forall_mem_map.mpr fun b hb => Nat.lt_succ_of_le (digit_le (hdigits b hb))

theorem decimal_eq_some_iff {digits : Bytes} {k : ℕ} :
    decimal digits = some k ↔ digits ≠ [] ∧ (∀ b ∈ digits, isNum b = true) ∧
      Numerals.value 10 0 (digitValues digits) = k := by
  have hvalue : digits.foldl (fun n b => 10 * n + (b.toNat - 48)) 0 =
      Numerals.value 10 0 (digitValues digits) := by
    rw [Numerals.value, digitValues, List.foldl_map]
    exact List.foldl_ext _ _ _ fun m b _ => by rw [Nat.mul_comm]
  have hnum : (∀ b ∈ digits, isNum b = true) ↔ ∀ b ∈ digits, 48 ≤ b ∧ b ≤ 57 :=
    forall₂_congr fun _ _ => isNum_iff
  rw [decimal, Option.ite_none_right_eq_some, all_digits_iff, hvalue, Option.some.injEq, hnum,
    and_assoc]

theorem decimal_read_iff {digits : Bytes} {k : ℕ} :
    (decimal digits = some k ∧ k ≤ lengthMax) ↔
      digits ≠ [] ∧ (∀ b ∈ digits, isNum b = true) ∧
        Numerals.read 10 lengthLimit 0 (digitValues digits) = some k := by
  have hmax : ∀ k, k / 10 ≤ lengthLimit ↔ k ≤ lengthMax := by
    intro k
    have hlimit : lengthLimit = 1844674407370955160 := by decide
    rw [hlimit, lengthMax]
    omega
  rw [decimal_eq_some_iff]
  constructor
  · rintro ⟨⟨hne, hnum, rfl⟩, hle⟩
    refine ⟨hne, hnum, ?_⟩
    rw [Numerals.read_eq (digitValues_lt hnum), if_pos (.inr ((hmax _).mpr hle))]
  · rintro ⟨hne, hnum, hread⟩
    rw [Numerals.read_eq (digitValues_lt hnum), Option.ite_none_right_eq_some] at hread
    obtain ⟨hfits, hk⟩ := hread
    obtain rfl := Option.some.inj hk
    refine ⟨⟨hne, hnum, rfl⟩, (hmax _).mp (hfits.resolve_left ?_)⟩
    simpa [digitValues] using hne

/-- The parser behind the first digit of a Content-Length. -/
def HttpParser.lengthBegun (parser : HttpParser) : HttpParser :=
  { parser with flags := { parser.flags with contentlength := true }, index := 0 }

theorem begins_of_isNum (hnum : isNum ch = true) : beginsValue ch = true := by
  have hne : ∀ b : UInt8, isNum b = false → ch ≠ b := by
    rintro b hb rfl
    rw [hb] at hnum
    cases hnum
  have hspace : ch ≠ 32 := hne 32 (by decide)
  have htab : ch ≠ 9 := hne 9 (by decide)
  have hcr : ch ≠ CR := hne CR (by decide)
  have hlf : ch ≠ LF := hne LF (by decide)
  simp [beginsValue, blank, hspace, htab, hcr, hlf]

theorem single_lengthStart (hstate : start.state = .headerValueDiscardWs)
    (hheader : start.header_state = .contentLength) (hch : beginsValue ch = true) (n : ℕ) :
    single (start.withNread n) ch =
      if !isNum ch then
        .fail (({ start with state := .headerValue, index := 0 } : HttpParser).withNread n)
          [.mark .headerValue] .invalidContentLength
      else if start.flags.contentlength then
        .fail (({ start with state := .headerValue, index := 0 } : HttpParser).withNread n)
          [.mark .headerValue] .unexpectedContentLength
      else
        .next ((start.lengthBegun.atLength (ch.toNat - 48, false)).withNread n)
          [.mark .headerValue] := by
  obtain ⟨type, flags, state, header_state⟩ := start
  dsimp only at hstate hheader
  subst hstate hheader
  rw [single_valueStart rfl hch]
  rfl

theorem lengthFirst_taken (hstate : start.state = .headerValueDiscardWs)
    (hheader : start.header_state = .contentLength) (honce : start.flags.contentlength = false)
    (hnum : isNum ch = true) :
    Passes start ch (start.lengthBegun.atLength (ch.toNat - 48, false)) [.mark .headerValue] := by
  refine ⟨by rw [hstate]; rfl, fun n => ?_⟩
  rw [single_lengthStart hstate hheader (begins_of_isNum hnum), if_neg (by simp [hnum]),
    if_neg (by simp [honce])]

theorem length_advances {digits : Bytes} {k : ℕ} (hstate : start.state = .headerValueDiscardWs)
    (hheader : start.header_state = .contentLength) (honce : start.flags.contentlength = false)
    (hnumber : decimal digits = some k) (hk : k ≤ lengthMax) (spaces : ℕ) :
    Advances start (digits ++ List.replicate spaces ' '.toUInt8 ++ [CR, LF])
      [.headerValue (digits ++ List.replicate spaces ' '.toUInt8)]
      ((start.lengthBegun.atLength (k, decide (0 < spaces))).enter .headerValueLws) := by
  obtain ⟨hne, hnum, hread⟩ := decimal_read_iff.mp ⟨hnumber, hk⟩
  cases digits with
  | nil => exact absurd rfl hne
  | cons ch digits =>
      obtain ⟨hfirst, hrest⟩ := List.forall_mem_cons.mp hnum
      rw [digitValues_cons, Numerals.read, if_neg (Nat.not_lt_zero _), Nat.zero_mul,
        Nat.zero_add] at hread
      exact value_advances hstate (lengthFirst_taken hstate hheader honce hfirst)
        (lengthBytes_taken (foldlM_digits hrest hread spaces)) rfl

/-- A byte inside of a value. -/
def insideValue (ch : UInt8) : Bool :=
  isHeaderChar ch && ch ≠ CR && ch ≠ LF

theorem plainByte_passes (hstate : parser.state = .headerValue)
    (hheader : parser.header_state = .general) (hch : insideValue ch = true) :
    Passes parser ch parser [] := by
  rw [insideValue, Bool.and_eq_true, Bool.and_eq_true, decide_eq_true_eq, decide_eq_true_eq] at hch
  obtain ⟨⟨hchar, hcr⟩, hlf⟩ := hch
  refine ⟨by rw [hstate]; rfl, fun n => ?_⟩
  obtain ⟨type, flags, state, header_state⟩ := parser
  dsimp only at hstate hheader
  subst hstate hheader
  rw [single_valueByte rfl hcr hlf, if_neg (by simp [hchar])]
  rfl

theorem plainBytes_advance (hstate : parser.state = .headerValue)
    (hheader : parser.header_state = .general) (hrest : ∀ b ∈ rest, insideValue b = true) :
    Advances parser rest (rest.map fun ch => .headerValue [ch]) parser :=
  .stays_inside (f := .headerValue) (by rw [hstate]; rfl) fun b hb =>
    plainByte_passes hstate hheader (hrest b hb)

theorem other_advances (hstate : start.state = .headerValueDiscardWs)
    (hname : nameState start.header_state = true) (hkind : settled start.header_state = .general)
    (hch : beginsValue ch = true) (hrest : ∀ b ∈ rest, insideValue b = true) :
    Advances start (ch :: rest ++ [CR, LF]) [.headerValue (ch :: rest)]
      { start with state := .headerValueLws, header_state := .general, index := 0 } := by
  have hfirst : Passes start ch
      { start with state := .headerValue, header_state := .general, index := 0 }
      [.mark .headerValue] := by
    refine ⟨by rw [hstate]; rfl, fun n => ?_⟩
    obtain ⟨type, flags, state, header_state⟩ := start
    dsimp only at hstate hname hkind
    subst hstate
    rw [single_valueStart rfl hch]
    cases header_state <;>
      first | rfl | exact absurd hname (by decide) | exact absurd hkind (by decide)
  exact value_advances hstate hfirst (plainBytes_advance rfl rfl hrest) rfl

theorem upgrade_advances (hstate : start.state = .headerValueDiscardWs)
    (hheader : start.header_state = .upgrade) (hch : beginsValue ch = true)
    (hrest : ∀ b ∈ rest, insideValue b = true) :
    Advances start (ch :: rest ++ [CR, LF]) [.headerValue (ch :: rest)]
      { start with
        state := .headerValueLws
        header_state := .general
        index := 0
        flags := { start.flags with upgrade := true } } := by
  have hfirst : Passes start ch
      { start with
        state := .headerValue
        header_state := .general
        index := 0
        flags := { start.flags with upgrade := true } }
      [.mark .headerValue] := by
    refine ⟨by rw [hstate]; rfl, fun n => ?_⟩
    obtain ⟨type, flags, state, header_state⟩ := start
    dsimp only at hstate hheader
    subst hstate hheader
    rw [single_valueStart rfl hch]
    rfl
  exact value_advances hstate hfirst (plainBytes_advance rfl rfl hrest) rfl

/-! ## Words -/

/-- A word that a value may be, behind which names it is looked for, the state of the comparison
and the state behind it. -/
structure Word where
  kind : HeaderState
  word : Bytes
  state : HeaderState
  done : HeaderState
  deriving DecidableEq

def words : List Word :=
  [⟨.connection, ascii "keep-alive", .matchingConnectionKeepAlive, .connectionKeepAlive⟩,
    ⟨.connection, ascii "close", .matchingConnectionClose, .connectionClose⟩,
    ⟨.connection, ascii "upgrade", .matchingConnectionUpgrade, .connectionUpgrade⟩,
    ⟨.transferEncoding, ascii "chunked", .matchingTransferEncodingChunked,
      .transferEncodingChunked⟩]

variable {w : Word} {k : ℕ}

theorem valueChar_word (hw : w ∈ words) (parser : HttpParser) (ch : UInt8) :
    ∃ other, valueChar parser w.state ch =
      .goOn { parser with index := nextIndex parser.index }
        (matchName (nextIndex parser.index) w.word (lower ch) w.state w.done other) := by
  rw [words, List.mem_cons, List.mem_cons, List.mem_cons, List.mem_singleton] at hw
  rcases hw with rfl | rfl | rfl | rfl <;> exact ⟨_, rfl⟩

/-- The parser behind `k` bytes of a word. -/
def HttpParser.atWord (parser : HttpParser) (w : Word) (k : ℕ) : HttpParser :=
  { parser with
    state := .headerValue
    header_state := if k = w.word.length then w.done else w.state
    index := k - 1 }

theorem wordByte_passes (hw : w ∈ words) (hk : 0 < k) (hlt : k < w.word.length)
    (hch : w.word[k]? = some (lower ch)) (hinside : insideValue ch = true) :
    Passes (parser.atWord w k) ch (parser.atWord w (k + 1)) [] := by
  rw [insideValue, Bool.and_eq_true, Bool.and_eq_true, decide_eq_true_eq,
    decide_eq_true_eq] at hinside
  obtain ⟨⟨hchar, hcr⟩, hlf⟩ := hinside
  have hlength : ∀ w ∈ words, w.word.length ≤ 10 := by decide
  have hle := hlength w hw
  refine ⟨rfl, fun n => ?_⟩
  obtain ⟨other, hword⟩ := valueChar_word hw ((parser.atWord w k).withNread n) ch
  have hstate : ((parser.atWord w k).withNread n).header_state = w.state := if_neg hlt.ne
  have hindex : nextIndex ((parser.atWord w k).withNread n).index = k := by
    have hsucc : k - 1 + 1 = k := by omega
    rw [show ((parser.atWord w k).withNread n).index = k - 1 from rfl, nextIndex_of_lt (by omega),
      hsucc]
  rw [single_valueByte rfl hcr hlf, if_neg (by simp [hchar]), hstate, hword, hindex,
    matchName_eq hlt, if_pos ((concat_take_prefix_iff hlt.le).mpr hch)]
  rfl

theorem wordBytes_advance (hw : w ∈ words) (hk : 0 < k)
    (hrest : w.word.drop k = rest.map lower) (hinside : ∀ b ∈ rest, insideValue b = true) :
    Advances (parser.atWord w k) rest (rest.map fun ch => .headerValue [ch])
      (parser.atWord w (k + rest.length)) := by
  induction rest generalizing k with
  | nil => exact .nil _
  | cons ch rest ih =>
      obtain ⟨hch, hinside⟩ := List.forall_mem_cons.mp hinside
      have hlt : k < w.word.length := by
        by_contra hge
        rw [List.drop_eq_nil_of_le (not_lt.mp hge)] at hrest
        cases hrest
      have hget : w.word[k]? = some (lower ch) := by
        rw [← List.head?_drop, hrest]
        rfl
      have htail : w.word.drop (k + 1) = rest.map lower := by
        rw [← List.tail_drop, hrest]
        rfl
      have hbyte := (@wordByte_passes parser _ _ _ hw hk hlt hget hch).advances
      rw [byteCalls_inside ch _ (f := .headerValue) rfl] at hbyte
      have hnext := hbyte.append (ih (Nat.succ_pos k) htail hinside)
      rw [List.length_cons, ← Nat.add_assoc, Nat.add_right_comm]
      exact hnext

theorem wordFirst_passes (hstate : start.state = .headerValueDiscardWs)
    (hw : w ∈ words) (hkind : start.header_state = w.kind) (hfirst : w.word[0]? = some (lower ch))
    (hinside : insideValue ch = true) :
    Passes start ch (start.atWord w 1) [.mark .headerValue] := by
  have hblank : ∀ w ∈ words, w.word[0]? ≠ some (lower 32) ∧ w.word[0]? ≠ some (lower 9) := by decide
  have hbegins : beginsValue ch = true := by
    rw [insideValue, Bool.and_eq_true, Bool.and_eq_true] at hinside
    have hspace : ch ≠ 32 := by
      rintro rfl
      exact (hblank w hw).1 hfirst
    have htab : ch ≠ 9 := by
      rintro rfl
      exact (hblank w hw).2 hfirst
    simp [beginsValue, blank, hspace, htab, of_decide_eq_true hinside.1.2,
      of_decide_eq_true hinside.2]
  refine ⟨by rw [hstate]; rfl, fun n => ?_⟩
  obtain ⟨type, flags, state, header_state⟩ := start
  dsimp only at hstate hkind
  subst hstate hkind
  rw [single_valueStart rfl hbegins]
  rw [words, List.mem_cons, List.mem_cons, List.mem_cons, List.mem_singleton] at hw
  rcases hw with rfl | rfl | rfl | rfl
  all_goals
    have hlower := (Option.some.inj hfirst).symm
    rw [headerValueStart]
    dsimp only [HttpParser.withNread]
    rw [hlower]
    rfl

theorem word_advances {value : Bytes} (hstate : start.state = .headerValueDiscardWs) (hw : w ∈ words)
    (hkind : start.header_state = w.kind) (hvalue : value.map lower = w.word)
    (hinside : ∀ b ∈ value, insideValue b = true) :
    ∃ index, Advances start (value ++ [CR, LF]) [.headerValue value]
      { start with state := .headerValueLws, header_state := w.done, index := index } := by
  cases value with
  | nil =>
      have hne : ∀ w ∈ words, w.word ≠ [] := by decide
      exact absurd hvalue.symm (hne w hw)
  | cons ch rest =>
      obtain ⟨hch, hrest⟩ := List.forall_mem_cons.mp hinside
      have hfirst : w.word[0]? = some (lower ch) := by
        rw [← hvalue]
        rfl
      have hdrop : w.word.drop 1 = rest.map lower := by
        rw [← hvalue]
        rfl
      have hlength : 1 + rest.length = w.word.length := by
        rw [← hvalue, List.length_map, List.length_cons, Nat.add_comm]
      have hread := value_advances hstate (wordFirst_passes hstate hw hkind hfirst hch)
        (wordBytes_advance hw Nat.one_pos hdrop hrest) rfl
      refine ⟨1 + rest.length - 1, ?_⟩
      rw [HttpParser.atWord, if_pos hlength] at hread
      exact hread

end Values

end LibConn.Parser
