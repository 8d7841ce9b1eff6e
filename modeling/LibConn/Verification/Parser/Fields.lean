import LibConn.Verification.Parser.Values

/-! # Fields

A line with a field in front of the next line, whose first byte decides what the end of the value
means. -/

namespace LibConn.Parser

open LibConn.Http

/-- A parser in front of a line: what is called when it begins, and the parser at its first
byte. -/
inductive Ready (parser : HttpParser) : List Call → HttpParser → Prop where
  | first (hstate : parser.state = .headerFieldStart) : Ready parser [] parser
  | behindValue (hstate : parser.state = .headerValueLws) :
      Ready parser [] ((parser.flag parser.header_state).enter .headerFieldStart)
  | behindEmpty (hstate : parser.state = .headerValueDiscardLws)
      (hvalue : parser.header_state ≠ .contentLength) :
      Ready parser [.headerValue []]
        ((parser.flag parser.header_state).enter .headerFieldStart)

section Fields

variable {parser line next last : HttpParser} {ch : UInt8} {text rest : Bytes}
  {calls pending : List Call} {ops : List Op}

/-! ## In front of a line -/

theorem Advances.behind (ops : List Op) (hheader : parsingHeader parser.state = true)
    (hline : parsingHeader line.state = true)
    (hsingle : ∀ n, single (parser.withNread n) ch = (single (line.withNread n) ch).after ops)
    (hcalls : ∀ next ops', byteCalls parser.state ch next (ops ++ ops') =
      pending ++ byteCalls line.state ch next ops')
    (h : Advances line (ch :: text) calls last) :
    Advances parser (ch :: text) (pending ++ calls) last := by
  intro n hn
  have hle : n + 1 ≤ maxHeaderSize := by
    rw [List.length_cons] at hn
    omega
  obtain ⟨calls', heats, hsame⟩ := h n hn
  rw [eats, eat_withNread hline hle] at heats
  cases hturn : single (line.withNread (n + 1)) ch with
  | next next ops' =>
      rw [hturn] at heats
      refine ⟨pending ++ calls', ?_, joined_append rfl hsame⟩
      rw [eats, eat_withNread hheader hle, hsingle, hturn]
      dsimp only [Turn.after]
      rw [show (parser.withNread n).state = parser.state from rfl, hcalls, List.nil_append, eats_calls]
      dsimp only at heats
      rw [List.nil_append] at heats
      exact congrArg (Eaten.behind pending) heats
  | fail | leave | abort =>
      rw [hturn] at heats
      cases heats

@[simp] theorem after_nil (turn : Turn) : turn.after [] = turn := by
  cases turn <;> rfl

theorem flag_withNread (parser : HttpParser) (n : ℕ) (h_state : HeaderState) :
    (parser.withNread n).flag h_state = (parser.flag h_state).withNread n := by
  cases h_state <;> rfl

theorem Ready.state (h : Ready parser pending line) : line.state = .headerFieldStart := by
  cases h with
  | first hstate => exact hstate
  | behindValue => rfl
  | behindEmpty => rfl

/-- A line that begins with no blank is read as the parser at its first byte reads it. -/
theorem Ready.advances (h : Ready parser pending line) (hch : blank ch = false)
    (htext : Advances line (ch :: text) calls last) :
    Advances parser (ch :: text) (pending ++ calls) last := by
  have hspace : ch ≠ ' '.toUInt8 ∧ ch ≠ 9 := by
    rw [blank, Bool.or_eq_false_iff, decide_eq_false_iff_not, decide_eq_false_iff_not] at hch
    exact hch
  have hblank : ¬ (decide (ch = ' '.toUInt8) || decide (ch = 9)) = true := by
    simp [hspace.1, hspace.2]
  have hline : parsingHeader line.state = true := by rw [h.state]; rfl
  -- both are the next line's first byte, behind the flag of the value
  have hbehind : ∀ n, single
      (((parser.flag parser.header_state).enter .headerFieldStart).withNread n) ch =
        headerFieldStart (((parser.withNread n).flag parser.header_state).enter .headerFieldStart)
          ch := by
    intro n
    rw [flag_withNread]
    rfl
  cases h with
  | first => exact htext
  | behindValue hstate =>
      refine htext.behind [] (by rw [hstate]; rfl) hline (fun n => ?_) fun next ops' =>
        byteCalls_congr ch next ops' (by rw [hstate]; rfl)
      rw [hbehind, after_nil, single, oneByte,
        show (parser.withNread n).state = .headerValueLws from hstate]
      dsimp only [Option.getD_some]
      rw [headerValueLws, if_neg hblank]
      rfl
  | behindEmpty hstate hvalue =>
      refine htext.behind [.mark .headerValue, .data .headerValue] (by rw [hstate]; rfl)
        hline (fun n => ?_) fun next ops' => ?_
      · rw [hbehind, single, oneByte,
          show (parser.withNread n).state = .headerValueDiscardLws from hstate]
        dsimp only [Option.getD_some]
        rw [headerValueDiscardLws, if_neg hblank, if_neg (by exact hvalue)]
        rfl
      · have hmark : markOf parser.state = none := by rw [hstate]; rfl
        have hsame : markOf parser.state = markOf .headerFieldStart := hmark.trans (by rfl)
        rw [List.cons_append, List.singleton_append, byteCalls_empty ch next ops' hmark,
          byteCalls_congr ch next ops' hsame]
        rfl

/-! ## One field -/

/-- What a line with a field does to a parser in front of it, up to what the next line sets
anew. -/
def Takes (core : HttpParser) (field : Bytes × Bytes) (core' : HttpParser) : Prop :=
  ∀ line, line.state = .headerFieldStart → line.core = core →
    ∃ calls last pending line', Advances line (fieldLine field ++ [CR, LF]) calls last ∧
      Ready last pending line' ∧
      calls ++ pending = [.headerField field.1, .headerValue field.2] ∧ line'.core = core'

/-- A name that the parser takes. -/
structure Nameable (name : Bytes) : Prop where
  ne_nil : name ≠ []
  tokens : ∀ b ∈ name, token b ≠ 0

/-- A value that the parser takes where it does not look into it. -/
structure Legible (value : Bytes) : Prop where
  inside : ∀ b ∈ value, insideValue b = true
  begins : ∀ b ∈ value.head?, blank b = false

theorem Legible.first (h : Legible (ch :: rest)) :
    beginsValue ch = true ∧ ∀ b ∈ rest, insideValue b = true := by
  obtain ⟨hch, hrest⟩ := List.forall_mem_cons.mp h.inside
  have hblank : blank ch = false := h.begins ch rfl
  rw [insideValue, Bool.and_eq_true, Bool.and_eq_true] at hch
  exact ⟨by simp [beginsValue, hblank, of_decide_eq_true hch.1.2, of_decide_eq_true hch.2], hrest⟩

/-- The parser behind a name, which may say that there is a Transfer-Encoding. -/
def HttpParser.named (parser : HttpParser) (name : Bytes) : HttpParser :=
  { parser with
    uses_transfer_encoding :=
      parser.uses_transfer_encoding || decide (transferEncoding <+: name.map token) }

theorem takes_of_value {core core' : HttpParser} {name value : Bytes} (hname : Nameable name)
    (hvalue : ∀ start, start.state = .headerValueDiscardWs → nameState start.header_state = true →
      settled start.header_state = kindOf (name.map token) → start.core = core.named name →
      ∃ calls last pending line', Advances start (value ++ [CR, LF]) calls last ∧
        Ready last pending line' ∧ calls ++ pending = [.headerValue value] ∧
        line'.core = core') :
    Takes core (name, value) core' := by
  intro line hstate hcore
  obtain ⟨header_state, index, hreads, hstates, hkind⟩ :=
    name_advances hstate hname.ne_nil hname.tokens
  obtain ⟨calls, last, pending, line', hadvances, hready, hcalls, hcore'⟩ :=
    hvalue
      (({ line with
          state := .headerValueDiscardWs
          header_state := header_state
          index := index } : HttpParser).named name)
      rfl hstates hkind (by rw [← hcore]; rfl)
  have hblank := Advances.step (passes_blank rfl (rfl : blank 32 = true)) (byteCalls_outside _ _ rfl) hadvances
  refine ⟨[.headerField name] ++ calls, last, pending, line', ?_, hready, ?_, hcore'⟩
  · rw [fieldLine_eq, List.append_assoc]
    have hline := hreads.append hblank
    rw [List.append_assoc] at hline
    exact hline
  · rw [List.append_assoc, hcalls]
    rfl

variable {core : HttpParser} {name value : Bytes}

theorem flag_core (parser : HttpParser) (h_state : HeaderState) :
    (parser.flag h_state).core = parser.core.flag h_state := by
  cases h_state <;> rfl

/-- A field that the parser does not look into. Where the name begins with that of
Transfer-Encoding, it counts as one all the same. -/
theorem takes_other (hname : Nameable name) (hkind : kindOf (name.map token) = .general)
    (hvalue : Legible value) : Takes core (name, value) (core.named name) := by
  refine takes_of_value hname fun start hstate hstates hsettled hcore => ?_
  rw [hkind] at hsettled
  cases value with
  | nil =>
      have hplain : start.header_state ≠ .contentLength ∧
          ∀ parser : HttpParser, parser.flag start.header_state = parser := by
        cases hheader : start.header_state <;> rw [hheader] at hstates hsettled <;>
          first
            | exact absurd hstates (by decide)
            | exact absurd hsettled (by decide)
            | exact ⟨nofun, fun _ => rfl⟩
      have hflag : ((start.enter .headerValueDiscardLws).flag start.header_state).core =
          start.core := by
        rw [hplain.2]
        rfl
      exact ⟨[], _, _, _, empty_ends hstate, .behindEmpty rfl hplain.1, rfl, hflag.trans hcore⟩
  | cons ch rest =>
      obtain ⟨hch, hrest⟩ := hvalue.first
      exact ⟨_, _, _, _, other_advances hstate hstates hsettled hch hrest, .behindValue rfl, rfl, hcore⟩

theorem kindOf_spec (hkind : kindOf (name.map token) ≠ .general) :
    ∃ m ∈ matchers, m.name = name.map token ∧ m.done = kindOf (name.map token) := by
  cases hfind : matchers.find? fun m => m.name = name.map token with
  | none =>
      rw [kindOf, hfind] at hkind
      exact absurd rfl hkind
  | some m =>
      refine ⟨m, List.mem_of_find?_eq_some hfind, by simpa using List.find?_some hfind, ?_⟩
      rw [kindOf, hfind]
      rfl

theorem named_of_kind {kind : HeaderState} (hkind : kindOf (name.map token) = kind)
    (hne : kind ≠ .general) :
    core.named name =
      { core with
        uses_transfer_encoding :=
          core.uses_transfer_encoding || decide (kind = .transferEncoding) } := by
  subst hkind
  obtain ⟨m, hm, hname, hdone⟩ := kindOf_spec hne
  have htable : ∀ m ∈ matchers, transferEncoding <+: m.name ↔ m.done = .transferEncoding := by
    decide
  rw [HttpParser.named, ← hdone, ← hname, decide_eq_decide.mpr (htable m hm)]

theorem settled_eq {h kind : HeaderState} (hsettled : settled h = kind) (hkind : kind ≠ .general) :
    h = kind := by
  rw [settled] at hsettled
  split_ifs at hsettled
  · exact hsettled
  · exact absurd hsettled.symm hkind

/-- A field that means nothing to the parser. -/
structure Plain (field : Bytes × Bytes) : Prop where
  name : Nameable field.1
  value : Legible field.2
  kind : kindOf (field.1.map token) = .general
  coding : ¬ transferEncoding <+: field.1.map token

/-- The checks of a field that means nothing to the parser. -/
def isPlain (field : Bytes × Bytes) : Bool :=
  field.1 ≠ [] && (field.1.all fun b => token b ≠ 0) && field.2.all insideValue &&
    (field.2.head?.all fun b => blank b = false) && kindOf (field.1.map token) = .general &&
    !transferEncoding.isPrefixOf (field.1.map token)

theorem plain_of_isPlain {field : Bytes × Bytes} (h : isPlain field = true) : Plain field := by
  simp only [isPlain, Bool.and_eq_true, decide_eq_true_eq, Bool.not_eq_true'] at h
  obtain ⟨⟨⟨⟨⟨hne, htokens⟩, hinside⟩, hbegins⟩, hkind⟩, hcoding⟩ := h
  refine ⟨⟨hne, forall_mem_of_all htokens⟩, ⟨List.all_eq_true.mp hinside, ?_⟩, hkind, ?_⟩
  · exact forall_head_of_all hbegins
  · intro hprefixed
    rw [List.isPrefixOf_iff_prefix.mpr hprefixed] at hcoding
    cases hcoding

/-- A value may be any other that the parser takes. -/
theorem plain_of_name {name value : Bytes} (h : isPlain (name, []) = true)
    (hvalue : Legible value) : Plain (name, value) := by
  have hplain := plain_of_isPlain h
  exact ⟨hplain.name, hvalue, hplain.kind, hplain.coding⟩

theorem Plain.takes {field : Bytes × Bytes} (h : Plain field) : Takes core field core := by
  have htakes := @takes_other core _ _ h.name h.kind h.value
  rw [HttpParser.named, decide_eq_false h.coding, Bool.or_false] at htakes
  exact htakes

/-- The first Content-Length: a number, and spaces behind it. -/
theorem takes_length {digits : Bytes} {k : ℕ} (hname : Nameable name)
    (hkind : kindOf (name.map token) = .contentLength) (honce : core.flags.contentlength = false)
    (hnumber : decimal digits = some k) (hk : k ≤ lengthMax) (spaces : ℕ) :
    Takes core (name, digits ++ List.replicate spaces ' '.toUInt8)
      { core with flags := { core.flags with contentlength := true }, content_length := k } := by
  refine takes_of_value hname fun start hstate _ hsettled hcore => ?_
  rw [hkind] at hsettled
  have hheader := settled_eq hsettled nofun
  rw [named_of_kind hkind nofun] at hcore
  simp only [reduceCtorEq, decide_false, Bool.or_false] at hcore
  have honce' : start.flags.contentlength = false :=
    (congrArg (fun p => p.flags.contentlength) hcore).trans honce
  refine ⟨_, _, _, _, length_advances hstate hheader honce' hnumber hk spaces, .behindValue rfl,
    rfl, ?_⟩
  have hflag : ∀ parser : HttpParser, parser.flag (lengthState (decide (0 < spaces))) = parser := by
    intro parser
    cases decide (0 < spaces) <;> rfl
  have hline : ∀ parser : HttpParser, parser.header_state = lengthState (decide (0 < spaces)) →
      ((parser.flag parser.header_state).enter .headerFieldStart).core = parser.core := by
    intro parser hstate
    rw [hstate, hflag]
    rfl
  obtain rfl : start.core = core := hcore
  exact hline _ rfl

/-- A field `Upgrade`, whatever it says. -/
theorem takes_upgrade (hname : Nameable name) (hkind : kindOf (name.map token) = .upgrade)
    (hvalue : Legible value) (hne : value ≠ []) :
    Takes core (name, value) { core with flags := { core.flags with upgrade := true } } := by
  refine takes_of_value hname fun start hstate _ hsettled hcore => ?_
  rw [hkind] at hsettled
  have hheader := settled_eq hsettled nofun
  rw [named_of_kind hkind nofun] at hcore
  simp only [reduceCtorEq, decide_false, Bool.or_false] at hcore
  obtain rfl : start.core = core := hcore
  cases value with
  | nil => exact absurd rfl hne
  | cons ch rest =>
      obtain ⟨hch, hrest⟩ := hvalue.first
      exact ⟨_, _, _, _, upgrade_advances hstate hheader hch hrest, .behindValue rfl, rfl, rfl⟩

theorem takes_word {w : Word} (hname : Nameable name) (hw : w ∈ words)
    (hkind : kindOf (name.map token) = w.kind) (hvalue : value.map lower = w.word)
    (hinside : ∀ b ∈ value, insideValue b = true) :
    Takes core (name, value) ((core.named name).flag w.done) := by
  refine takes_of_value hname fun start hstate _ hsettled hcore => ?_
  have hne : ∀ w ∈ words, w.kind ≠ .general := by decide
  rw [hkind] at hsettled
  have hheader := settled_eq hsettled (hne w hw)
  obtain ⟨index, hadvances⟩ := word_advances hstate hw hheader hvalue hinside
  refine ⟨_, _, _, _, hadvances, .behindValue rfl, rfl, ?_⟩
  rw [← hcore, ← flag_core]
  dsimp only
  cases w.done <;> rfl

/-! ## Lines with a Content-Length -/

theorem nameable_of_kind {m : Matcher} (hm : m ∈ matchers) (hname : name.map token = m.name) :
    Nameable name := by
  have htable : ∀ m ∈ matchers, m.name ≠ [] ∧ 0 ∉ m.name := by decide
  obtain ⟨hne, hzero⟩ := htable m hm
  constructor
  · rintro rfl
    exact hne hname.symm
  · intro b hb htoken
    exact hzero (hname ▸ htoken ▸ List.mem_map_of_mem hb)

theorem Nameable.fieldLine (h : Nameable name) (value : Bytes) :
    ∃ ch text, fieldLine (name, value) = ch :: text ∧ blank ch = false := by
  cases name with
  | nil => exact absurd rfl h.ne_nil
  | cons ch rest =>
      have htoken := h.tokens ch List.mem_cons_self
      have hspace : ch ≠ 32 := ne_space_of_token htoken
      have htab : ch ≠ 9 := by
        rintro rfl
        exact htoken (by decide)
      refine ⟨ch, rest ++ 58 :: 32 :: value, fieldLine_eq _ _, ?_⟩
      rw [blank, decide_eq_false hspace, decide_eq_false htab]
      rfl

/-- What the lines of several fields do. -/
inductive TakesAll : HttpParser → List (Bytes × Bytes) → HttpParser → Prop where
  | nil {core : HttpParser} : TakesAll core [] core
  | cons {core core' core'' : HttpParser} {field : Bytes × Bytes} {fields : List (Bytes × Bytes)} :
      Takes core field core' → TakesAll core' fields core'' → TakesAll core (field :: fields) core''

theorem takesAll_plain {fields : List (Bytes × Bytes)} (h : ∀ field ∈ fields, Plain field) :
    TakesAll core fields core := by
  induction fields with
  | nil => exact .nil
  | cons field fields ih =>
      obtain ⟨hfield, hfields⟩ := List.forall_mem_cons.mp h
      exact .cons hfield.takes (ih hfields)

theorem TakesAll.append {core core' core'' : HttpParser} {fields fields' : List (Bytes × Bytes)}
    (h : TakesAll core fields core') (h' : TakesAll core' fields' core'') :
    TakesAll core (fields ++ fields') core'' := by
  induction h with
  | nil => exact h'
  | cons hfield _ ih => exact .cons hfield (ih h')

def fieldCalls (field : Bytes × Bytes) : List Call :=
  [.headerField field.1, .headerValue field.2]

def fieldLines (fields : List (Bytes × Bytes)) : Bytes :=
  fields.flatMap fun field => fieldLine field ++ [CR, LF]

theorem TakesAll.advances {core core' : HttpParser} {fields : List (Bytes × Bytes)}
    (h : TakesAll core fields core') (hnames : ∀ field ∈ fields, Nameable field.1)
    (hready : Ready parser pending line) (hcore : line.core = core) :
    ∃ calls last pending' line', Advances parser (fieldLines fields) calls last ∧
      Ready last pending' line' ∧ calls ++ pending' = pending ++ fields.flatMap fieldCalls ∧
      line'.core = core' := by
  induction h generalizing parser pending line with
  | nil => exact ⟨[], parser, pending, line, .nil parser, hready, by simp, hcore⟩
  | @cons _ _ _ field fields htakes _ ih =>
      obtain ⟨hname, hnames⟩ := List.forall_mem_cons.mp hnames
      obtain ⟨calls, middle, pending₁, line₁, hfield, hready₁, hcalls, hcore₁⟩ :=
        htakes line hready.state hcore
      obtain ⟨calls', last, pending₂, line₂, hrest, hready₂, hcalls', hcore₂⟩ :=
        ih hnames hready₁ hcore₁
      obtain ⟨ch, text, hline, hblank⟩ := hname.fieldLine field.2
      have hfirst : Advances parser (fieldLine field ++ [CR, LF]) (pending ++ calls) middle := by
        have hline' : fieldLine field ++ [CR, LF] = ch :: (text ++ [CR, LF]) :=
          congrArg (· ++ [CR, LF]) hline
        rw [hline'] at hfield ⊢
        exact hready.advances hblank hfield
      refine ⟨_, last, pending₂, line₂, hfirst.append hrest, hready₂, ?_, hcore₂⟩
      rw [List.flatMap_cons, fieldCalls, ← hcalls, List.append_assoc, List.append_assoc, hcalls',
        List.append_assoc]

end Fields

end LibConn.Parser
