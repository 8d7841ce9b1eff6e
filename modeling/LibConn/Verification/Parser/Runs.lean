import LibConn.Verification.Parser.Streams

/-! # Texts

What a text makes of a parser is put together from what its parts make of it. In front of a body
each byte is counted; there a part is looked at wherever the count stands. -/

namespace LibConn.Parser

open LibConn.Http LibConn.Merging

/-- The parser takes the whole text. Its calls are known up to the pieces. -/
def Leads (parser : HttpParser) (text : Bytes) (calls : List Call) (last : HttpParser) : Prop :=
  ∃ calls', eats parser [] text = .all last calls' ∧ joined calls' = joined calls

/-- The parser takes the whole text and stops behind it for an upgrade. -/
def Leaves (parser : HttpParser) (text : Bytes) (calls : List Call) (last : HttpParser) : Prop :=
  ∃ calls', eats parser [] text = .left last calls' [] ∧ joined calls' = joined calls

/-- The parser takes a text in front of a body, which is counted and no more. -/
def Advances (parser : HttpParser) (text : Bytes) (calls : List Call) (last : HttpParser) : Prop :=
  ∀ n, n + text.length ≤ maxHeaderSize →
    Leads (parser.withNread n) text calls (last.withNread (n + text.length))

/-- What a byte in front of a body does, wherever the count stands. -/
structure Passes (parser : HttpParser) (ch : UInt8) (last : HttpParser) (ops : List Op) :
    Prop where
  header : parsingHeader parser.state = true
  single : ∀ n, single (parser.withNread n) ch = .next (last.withNread n) ops

section Texts

variable {parser next last : HttpParser} {ch : UInt8} {a b text : Bytes} {calls calls' : List Call}
  {f : Field} {ops : List Op} {n : ℕ}

theorem eats_behind {next : HttpParser} (before : List Call)
    (h : eats parser [] a = .all next before) (b : Bytes) :
    eats parser [] (a ++ b) = (eats next [] b).behind before := by
  rw [eats_append h, ← eats_calls, List.append_nil]

theorem Leads.append (h : Leads parser a calls next) (h' : Leads next b calls' last) :
    Leads parser (a ++ b) (calls ++ calls') last := by
  obtain ⟨before, heats, hsame⟩ := h
  obtain ⟨after, heats', hsame'⟩ := h'
  refine ⟨before ++ after, ?_, joined_append hsame hsame'⟩
  rw [eats_behind before heats, heats']
  rfl

theorem Leads.leaves (h : Leads parser a calls next) (h' : Leaves next b calls' last) :
    Leaves parser (a ++ b) (calls ++ calls') last := by
  obtain ⟨before, heats, hsame⟩ := h
  obtain ⟨after, heats', hsame'⟩ := h'
  refine ⟨before ++ after, ?_, joined_append hsame hsame'⟩
  rw [eats_behind before heats, heats']
  rfl

theorem Leads.congr (h : Leads parser text calls last) (hsame : joined calls = joined calls') :
    Leads parser text calls' last := by
  obtain ⟨before, heats, hjoined⟩ := h
  exact ⟨before, heats, hjoined.trans hsame⟩

theorem leads_byte (h : eat parser ch = .next last ops) :
    Leads parser [ch] (byteCalls parser.state ch last ops) last := by
  refine ⟨_, ?_, rfl⟩
  rw [eats, h]
  rfl

theorem leaves_byte (h : eat parser ch = .leave last ops) :
    Leaves parser [ch] (byteCalls parser.state ch last ops) last := by
  refine ⟨_, ?_, rfl⟩
  rw [eats, h]
  rfl

/-! ## Texts that are counted -/

theorem eat_withNread (hheader : parsingHeader parser.state = true) (hn : n + 1 ≤ maxHeaderSize)
    (ch : UInt8) : eat (parser.withNread n) ch = single (parser.withNread (n + 1)) ch := by
  have hmod : (n + 1 % 2 ^ 32) % 2 ^ 32 = n + 1 := by
    have hle : n + 1 ≤ 80 * 1024 := hn
    omega
  have hcount : (parser.withNread n).count 1 = parser.withNread (n + 1) :=
    congrArg parser.withNread hmod
  rw [eat, if_pos (by exact hheader), hcount, if_neg (by exact not_lt.mpr hn)]

/-- The run with another count, behind earlier calls. -/
def Run.shift (before : List Call) (n : ℕ) (r : Run) : Run :=
  { r with parser := r.parser.withNread n, calls := before ++ r.calls }

section Shift

variable (before : List Call) (n : ℕ) (r : Run) (data : Bytes)

theorem callbackData_shift (p : ℕ) (f : Field) :
    (r.shift before n).callbackData data p f = (r.callbackData data p f).shift before n := by
  rw [Run.callbackData, Run.callbackData]
  cases hmark : r.marks f with
  | none => rw [show (r.shift before n).marks f = none from hmark]
  | some mark =>
      rw [show (r.shift before n).marks f = some mark from hmark]
      dsimp only [Run.shift]
      rw [List.append_assoc]
      cases f <;> rfl

theorem op_shift (p : ℕ) (op : Op) :
    (r.shift before n).op data p op = (r.op data p op).shift before n := by
  cases op with
  | mark f =>
      rw [Run.op, Run.op]
      cases hmark : r.marks f with
      | none =>
          rw [show (r.shift before n).marks f = none from hmark]
          rfl
      | some mark => rw [show (r.shift before n).marks f = some mark from hmark]
  | data f => exact callbackData_shift before n r data p f
  | bodyHere => exact callbackData_shift before n r data (p + 1) .body
  | notify notification =>
      dsimp only [Run.op, Run.shift]
      rw [List.append_assoc]
      cases notification <;> rfl

theorem ops_shift (p : ℕ) (ops : List Op) :
    (r.shift before n).ops data p ops = (r.ops data p ops).shift before n := by
  induction ops generalizing r with
  | nil => rfl
  | cons op ops ih =>
      rw [Run.ops, List.foldl_cons, op_shift]
      exact ih _

theorem flush_shift : (r.shift before n).flush data = (r.flush data).shift before n := by
  rw [Run.flush, Run.flush]
  induction Field.all generalizing r with
  | nil => rfl
  | cons f fields ih =>
      rw [List.foldl_cons, List.foldl_cons, callbackData_shift]
      exact ih _

theorem calls_shift (marks : Field → Option ℕ) (ch : UInt8) (parser : HttpParser) (ops : List Op) :
    (((⟨parser.withNread n, marks, before⟩ : Run).ops [ch] 0 ops).flush [ch]).calls =
      before ++ (((⟨parser, marks, []⟩ : Run).ops [ch] 0 ops).flush [ch]).calls := by
  have hshift : (⟨parser.withNread n, marks, before⟩ : Run) =
      (⟨parser, marks, []⟩ : Run).shift before n := by
    rw [Run.shift, List.append_nil]
  rw [hshift, ops_shift, flush_shift]
  rfl

end Shift

theorem byteCalls_withNread (s : State) (ch : UInt8) (parser : HttpParser) (n : ℕ)
    (ops : List Op) : byteCalls s ch (parser.withNread n) ops = byteCalls s ch parser ops :=
  calls_shift [] n (initialMarks s) ch parser ops

/-! The calls for a byte. -/

section ByteCalls

variable {s : State} (ch : UInt8) (parser : HttpParser) (ops : List Op)

theorem byteCalls_outside (h : markOf s = none) : byteCalls s ch parser [] = [] := by
  rw [byteCalls, initialMarks_eq, h, Run.ops, List.foldl_nil, flush_unmarked rfl]

theorem byteCalls_congr {s' : State} (h : markOf s = markOf s') :
    byteCalls s ch parser ops = byteCalls s' ch parser ops := by
  rw [byteCalls, byteCalls, initialMarks_eq, initialMarks_eq, h]

theorem byteCalls_inside (h : markOf s = some f) :
    byteCalls s ch parser [] = [dataCall parser [ch] f] := by
  rw [byteCalls, initialMarks_eq, h, Run.ops, List.foldl_nil, flush_marked rfl,
    callbackData_marked rfl]
  rfl

theorem byteCalls_mark (h : markOf s = none) (f : Field) :
    byteCalls s ch parser [.mark f] = [dataCall parser [ch] f] := by
  rw [byteCalls, initialMarks_eq, h, Run.ops, List.foldl_cons, List.foldl_nil,
    op_mark_unmarked rfl, flush_marked rfl, callbackData_marked rfl]
  rfl

theorem byteCalls_data (h : markOf s = some f) :
    byteCalls s ch parser [.data f] = [dataCall parser [] f] := by
  rw [byteCalls, initialMarks_eq, h, Run.ops, List.foldl_cons, List.foldl_nil, Run.op,
    callbackData_marked rfl, flush_unmarked rfl]
  rfl

theorem byteCalls_notify (h : markOf s = none) (n : Notification) :
    byteCalls s ch parser (.notify n :: ops) =
      notifyCall parser n :: byteCalls s ch parser ops := by
  rw [byteCalls, byteCalls, initialMarks_eq, h]
  exact calls_shift [notifyCall parser n] parser.nread (markedAt none 0) ch parser ops

theorem byteCalls_empty (h : markOf s = none) (f : Field) :
    byteCalls s ch parser (.mark f :: .data f :: ops) =
      dataCall parser [] f :: byteCalls s ch parser ops := by
  have hstart : (((⟨parser, markedAt none 0, []⟩ : Run).op [ch] 0 (.mark f)).op [ch] 0 (.data f)) =
      ⟨parser, markedAt none 0, [dataCall parser [] f]⟩ := by
    rw [op_mark_unmarked rfl, Run.op, callbackData_marked rfl, between_self]
    rfl
  rw [byteCalls, byteCalls, initialMarks_eq, h, Run.ops, List.foldl_cons, List.foldl_cons, hstart]
  exact calls_shift [dataCall parser [] f] parser.nread (markedAt none 0) ch parser ops

theorem byteCalls_unmarked (h : markOf s = none) (f : Field) :
    byteCalls s ch parser [.data f] = [] := by
  rw [byteCalls, initialMarks_eq, h, Run.ops, List.foldl_cons, List.foldl_nil, Run.op,
    callbackData_unmarked rfl, flush_unmarked rfl]

theorem byteCalls_bodyHere (h : markOf s = none) :
    byteCalls s ch parser (.mark .body :: .bodyHere :: ops) =
      .body [ch] :: byteCalls s ch parser ops := by
  have hstart : (((⟨parser, markedAt none 0, []⟩ : Run).op [ch] 0 (.mark .body)).op [ch] 0
      .bodyHere) = ⟨parser, markedAt none 0, [.body [ch]]⟩ := by
    rw [op_mark_unmarked rfl, Run.op, callbackData_marked rfl, between_succ rfl]
    rfl
  rw [byteCalls, byteCalls, initialMarks_eq, h, Run.ops, List.foldl_cons, List.foldl_cons, hstart]
  exact calls_shift [.body [ch]] parser.nread (markedAt none 0) ch parser ops

end ByteCalls

theorem Passes.advances (h : Passes parser ch last ops) :
    Advances parser [ch] (byteCalls parser.state ch last ops) last := by
  intro n hn
  have heat : eat (parser.withNread n) ch = .next (last.withNread (n + 1)) ops := by
    rw [eat_withNread h.header hn]
    exact h.single (n + 1)
  have hleads := leads_byte heat
  rw [byteCalls_withNread] at hleads
  exact hleads

theorem Advances.nil (parser : HttpParser) : Advances parser [] [] parser :=
  fun _ _ => ⟨[], rfl, rfl⟩

theorem Advances.append (h : Advances parser a calls next) (h' : Advances next b calls' last) :
    Advances parser (a ++ b) (calls ++ calls') last := by
  intro n hn
  rw [List.length_append, ← Nat.add_assoc] at hn ⊢
  exact (h n (by omega)).append (h' _ hn)

theorem Advances.congr (h : Advances parser text calls last)
    (hsame : joined calls = joined calls') : Advances parser text calls' last :=
  fun n hn => (h n hn).congr hsame

/-- A byte for which nothing is called. -/
theorem Advances.step (h : Passes parser ch next ops)
    (hcalls : byteCalls parser.state ch next ops = []) (htext : Advances next text calls last) :
    Advances parser (ch :: text) calls last := by
  have hstep := h.advances.append htext
  rw [hcalls] at hstep
  exact hstep

theorem Advances.enter {s : State} (hmark : markOf parser.state = none)
    (h : Passes parser ch (parser.enter s) [])
    (htext : Advances (parser.enter s) text calls last) :
    Advances parser (ch :: text) calls last :=
  .step h (byteCalls_outside ch _ hmark) htext

/-! ## Strings -/

/-- The calls for the pieces of a string. -/
def Joins (call : Bytes → Call) : Prop :=
  ∀ a b, joinCalls (call a) (call b) = some (call (a ++ b))

theorem joins_dataCall (parser : HttpParser) (f : Field) : Joins fun text => dataCall parser text f :=
  joinCalls_dataCall parser f

/-- The bytes of a string one by one, up to what is called at its end. -/
theorem joined_string {call : Bytes → Call} (hjoins : Joins call) (text : Bytes) :
    joined (text.map (fun ch => call [ch]) ++ [call []]) = joined [call text] := by
  induction text with
  | nil => rfl
  | cons ch text ih =>
      have hsplit : joined ([call [ch]] ++ (text.map (fun ch => call [ch]) ++ [call []])) =
          joined ([call [ch]] ++ [call text]) := joined_append rfl ih
      exact hsplit.trans (merge_joined joinCalls_associative (hjoins [ch] text) [] [])

/-- Bytes that leave the parser as it is. -/
theorem Advances.stays (h : ∀ ch ∈ text, Passes parser ch parser []) :
    Advances parser text (text.flatMap fun ch => byteCalls parser.state ch parser []) parser := by
  induction text with
  | nil => exact .nil parser
  | cons ch text ih =>
      obtain ⟨hch, htext⟩ := List.forall_mem_cons.mp h
      exact hch.advances.append (ih htext)

theorem Advances.stays_inside (hinside : markOf parser.state = some f)
    (h : ∀ ch ∈ text, Passes parser ch parser []) :
    Advances parser text (text.map fun ch => dataCall parser [ch] f) parser := by
  have hstays := Advances.stays h
  simp only [byteCalls_inside _ parser hinside] at hstays
  rw [List.map_eq_flatMap]
  exact hstays

theorem Advances.stays_outside (houtside : markOf parser.state = none)
    (h : ∀ ch ∈ text, Passes parser ch parser []) : Advances parser text [] parser := by
  have hstays := Advances.stays h
  simp only [byteCalls_outside _ parser houtside] at hstays
  rw [List.flatMap_eq_nil_iff.mpr fun _ _ => rfl] at hstays
  exact hstays

/-- A string is read by a step that keeps what is known of the bytes to come. -/
theorem advances_pieces (call : Bytes → Call) (Inv : Bytes → HttpParser → Prop)
    (hstep : ∀ ch rest parser, Inv (ch :: rest) parser → ∃ next, Passes parser ch next [] ∧
      byteCalls parser.state ch next [] = [call [ch]] ∧ Inv rest next)
    (h : Inv text parser) :
    ∃ last, Advances parser text (text.map fun ch => call [ch]) last ∧ Inv [] last := by
  induction text generalizing parser with
  | nil => exact ⟨parser, .nil parser, h⟩
  | cons ch text ih =>
      obtain ⟨next, hpasses, hcalls, hinv⟩ := hstep ch text parser h
      obtain ⟨last, hrest, hlast⟩ := ih hinv
      have hbyte := hpasses.advances
      rw [hcalls] at hbyte
      exact ⟨last, hbyte.append hrest, hlast⟩

/-- Segments of a text that is taken whole. -/
theorem Leads.feeds (h : Leads parser text calls last) (hsound : Sound parser)
    {segments : List Bytes} (hne : segments ≠ []) (hall : ∀ data ∈ segments, data ≠ [])
    (htext : segments.flatten = text) (hlength : text.length < 2 ^ 31) :
    ∃ calls', Feeds parser segments calls' text.length last ∧ joined calls' = joined calls ∧
      Sound last := by
  subst htext
  obtain ⟨calls₁, heats, hcalls₁⟩ := h
  have hflatten : segments.flatten ≠ [] := by
    obtain ⟨data, hdata⟩ := List.exists_mem_of_ne_nil segments hne
    intro hnil
    exact hall data hdata (List.flatten_eq_nil_iff.mp hnil data hdata)
  have hexecutes := execute_eats hsound hflatten hlength
  rw [heats] at hexecutes
  obtain ⟨hlast, calls₂, hexecute, hcalls₂⟩ := hexecutes
  obtain ⟨fed, rest, calls₃, n, last', hsegments, hfeeds, hok, -⟩ :=
    feeds_of_flatten hsound hne hall hlength hexecute
  obtain ⟨hn, hlast', hcalls₃, hrest⟩ := hok hlast.http_errno
  obtain rfl := hrest rfl
  obtain rfl : last' = last := hlast'
  obtain rfl : n = segments.flatten.length := hn
  rw [List.append_nil] at hsegments
  rw [← hsegments] at hfeeds
  exact ⟨calls₃, hfeeds, hcalls₃.trans (hcalls₂.trans hcalls₁), hlast⟩

/-- States of the parser that are those of a partial automaton, which refuses a byte where the
parser does. -/
structure Simulates {σ : Type} (good : σ → Prop) (at' : σ → HttpParser)
    (step : σ → UInt8 → Option σ) (call : UInt8 → List Call) (inside : UInt8 → Prop) : Prop where
  taken : ∀ s ch s', good s → step s ch = some s' → good s' ∧ Passes (at' s) ch (at' s') [] ∧
    byteCalls (at' s).state ch (at' s') [] = call ch
  refused : ∀ s ch, good s → step s ch = none → inside ch →
    parsingHeader (at' s).state = true ∧
      ∀ n, ∃ last ops e, single ((at' s).withNread n) ch = .fail last ops e

section Simulates

variable {σ : Type} {good : σ → Prop} {at' : σ → HttpParser} {step : σ → UInt8 → Option σ}
  {call : UInt8 → List Call} {inside : UInt8 → Prop} {s s' : σ}

theorem Simulates.advances (h : Simulates good at' step call inside) (hgood : good s)
    (hsteps : text.foldlM step s = some s') :
    Advances (at' s) text (text.flatMap call) (at' s') ∧ good s' := by
  induction text generalizing s with
  | nil =>
      obtain rfl := Option.some.inj hsteps
      exact ⟨.nil _, hgood⟩
  | cons ch text ih =>
      rw [List.foldlM_cons] at hsteps
      obtain ⟨next, hstep, hrest⟩ := Option.bind_eq_some_iff.mp hsteps
      obtain ⟨hnext, hpasses, hcalls⟩ := h.taken s ch next hgood hstep
      obtain ⟨hadvances, hlast⟩ := ih hnext hrest
      have hbyte := hpasses.advances
      rw [hcalls] at hbyte
      exact ⟨hbyte.append hadvances, hlast⟩

theorem Simulates.eats_failed (h : Simulates good at' step call inside) (hgood : good s)
    (hsteps : text.foldlM step s = none) (hinside : ∀ b ∈ text, inside b)
    (hn : n + text.length ≤ maxHeaderSize) :
    eats ((at' s).withNread n) [] text = .failed := by
  induction text generalizing s n with
  | nil => cases hsteps
  | cons ch text ih =>
      rw [List.foldlM_cons] at hsteps
      rw [List.length_cons] at hn
      obtain ⟨hch, htext⟩ := List.forall_mem_cons.mp hinside
      have hle : n + 1 ≤ maxHeaderSize := by omega
      cases hstep : step s ch with
      | none =>
          obtain ⟨hheader, hfail⟩ := h.refused s ch hgood hstep hch
          obtain ⟨last, ops, e, hfail⟩ := hfail (n + 1)
          rw [eats, eat_withNread hheader hle, hfail]
      | some next =>
          rw [hstep] at hsteps
          obtain ⟨hnext, hpasses, -⟩ := h.taken s ch next hgood hstep
          rw [eats, eat_withNread hpasses.header hle, hpasses.single (n + 1)]
          dsimp only
          rw [← List.append_nil ([] ++ _), eats_calls, ih hnext hsteps htext (by omega)]
          rfl

end Simulates

/-- A string between the byte that marks it and the one that ends it. -/
theorem advances_string {call : Bytes → Call} {middle : HttpParser} {stop : UInt8}
    (hjoins : Joins call) (hfirst : Passes parser ch next [.mark f])
    (houtside : markOf parser.state = none) (hnext : ∀ text, dataCall next text f = call text)
    (hrest : Advances next text (text.map fun ch => call [ch]) middle)
    (hend : Passes middle stop last [.data f]) (hinside : markOf middle.state = some f)
    (hlast : ∀ text, dataCall last text f = call text) :
    Advances parser (ch :: text ++ [stop]) [call (ch :: text)] last := by
  have hmark := hfirst.advances
  have hdata := hend.advances
  rw [byteCalls_mark ch next houtside, hnext] at hmark
  rw [byteCalls_data stop last hinside, hlast] at hdata
  exact ((hmark.append hrest).append hdata).congr (joined_string hjoins (ch :: text))

theorem forall_mem_of_all {p : UInt8 → Prop} [DecidablePred p] {text : Bytes}
    (h : text.all (fun b => decide (p b)) = true) : ∀ b ∈ text, p b :=
  fun b hb => of_decide_eq_true (List.all_eq_true.mp h b hb)

theorem forall_head_of_all {p : UInt8 → Prop} [DecidablePred p] {text : Bytes}
    (h : text.head?.all (fun b => decide (p b)) = true) : ∀ b ∈ text.head?, p b := by
  intro b hb
  rw [Option.mem_def.mp hb] at h
  exact of_decide_eq_true h

/-- The parser without what the state keeps to itself and without the count. -/
def HttpParser.core (parser : HttpParser) : HttpParser :=
  { parser with state := .dead, header_state := .general, index := 0, nread := 0 }

end Texts

end LibConn.Parser
