import LibConn.Verification.Parser.Bytes

/-! # The loops of `http_parser_execute`

A pass takes several bytes where it has a loop of its own or skips over a body. It leaves what
its bytes leave when they are taken one after the other. -/

namespace LibConn.Parser

open LibConn.Http

/-- What a segment comes to when its bytes are taken one after the other. -/
inductive Crawled where
  | all (r : Run)
  /-- with the number that is returned -/
  | left (r : Run) (n : ℕ)
  | failed

/-- The loop with a pass for each byte. -/
def Run.crawl (data : Bytes) : Run → ℕ → Bytes → Crawled
  | r, _, [] => .all r
  | r, p, ch :: rest =>
      match eat r.parser ch with
      | .next parser ops =>
          Run.crawl data ({ r with parser := parser }.ops data p ops) (p + 1) rest
      | .leave parser ops => .left ({ r with parser := parser }.ops data p ops) (p + 1)
      | .fail _ _ _ | .abort => .failed

/-- The pass that begins at `p` does what the bytes that it takes do. -/
def Pass.Agrees (data : Bytes) (r : Run) (p : ℕ) : Pass → Prop
  | .next r' q =>
      p ≤ q ∧ q < data.length ∧ Sound r'.parser ∧
        r.crawl data p (data.drop p) = r'.crawl data (q + 1) (data.drop (q + 1))
  | .return r' n =>
      (Sound r'.parser ∧ n ≤ data.length ∧ r.crawl data p (data.drop p) = .left r' n) ∨
        (r'.parser.http_errno ≠ .ok ∧ n < data.length ∧ r.crawl data p (data.drop p) = .failed)
  | .abort => False

section Runs

variable {data : Bytes} {r : Run} {p q : ℕ} {ch : UInt8} {rest : Bytes}

@[simp] theorem parser_callbackData (r : Run) (f : Field) :
    (r.callbackData data p f).parser = r.parser := by
  rw [Run.callbackData]
  split <;> rfl

@[simp] theorem parser_op (r : Run) (op : Op) : (r.op data p op).parser = r.parser := by
  cases op with
  | mark f =>
      rw [Run.op]
      split <;> rfl
  | data f => exact parser_callbackData r f
  | bodyHere => exact parser_callbackData r .body
  | notify n => rfl

@[simp] theorem parser_ops (r : Run) (ops : List Op) : (r.ops data p ops).parser = r.parser := by
  induction ops generalizing r with
  | nil => rfl
  | cons op ops ih =>
      rw [Run.ops, List.foldl_cons]
      exact (ih _).trans (parser_op r op)

theorem callbackData_with (f : Field) (hf : f ≠ .status) (r : Run) (parser : HttpParser) :
    { r.callbackData data p f with parser := parser } =
      { r with parser := parser }.callbackData data p f := by
  cases hmark : r.marks f with
  | none => simp only [Run.callbackData, hmark]
  | some mark =>
      cases f with
      | status => exact absurd rfl hf
      | headerField | headerValue | url | body => simp only [Run.callbackData, hmark, dataCall]

theorem lt_of_drop (h : data.drop p = ch :: rest) : p < data.length := by
  by_contra hle
  rw [List.drop_of_length_le (not_lt.mp hle)] at h
  cases h

theorem drop_of_append {taken : Bytes} (h : data.drop p = taken ++ rest) :
    data.drop (p + taken.length) = rest := by
  rw [← List.drop_drop, h, List.drop_left]

theorem length_of_drop {taken : Bytes} (h : data.drop p = taken ++ rest) (hp : p ≤ data.length) :
    data.length = p + taken.length + rest.length := by
  have hlength := congrArg List.length h
  rw [List.length_drop, List.length_append] at hlength
  omega

theorem Pass.Agrees.trans {r' : Run} {pass : Pass} (h : pass.Agrees data r' q) (hle : p ≤ q)
    (hcrawl : r.crawl data p (data.drop p) = r'.crawl data q (data.drop q)) :
    pass.Agrees data r p := by
  cases pass with
  | next s n =>
      obtain ⟨hle', hlt, hsound, hnext⟩ := h
      exact ⟨hle.trans hle', hlt, hsound, hcrawl.trans hnext⟩
  | «return» s n =>
      rcases h with ⟨hsound, hlt, hleft⟩ | ⟨herrno, hlt, hfailed⟩
      · exact .inl ⟨hsound, hlt, hcrawl.trans hleft⟩
      · exact .inr ⟨herrno, hlt, hcrawl.trans hfailed⟩
  | abort => exact h.elim

theorem error_agrees {r' : Run} {e : HttpErrno} (he : e ≠ .ok) (hq : q < data.length)
    (hfailed : r.crawl data p (data.drop p) = .failed) : (r'.error e q).Agrees data r p :=
  .inr ⟨he, hq, hfailed⟩

theorem turn_agrees (hsound : Sound r.parser) (hdrop : data.drop p = ch :: rest)
    (parser : HttpParser) :
    ({ r with parser := parser }.turn data p (eat r.parser ch)).Agrees data r p := by
  have hlt := lt_of_drop hdrop
  have hsafe := hsound.eat ch
  have hnext : data.drop (p + 1) = rest := @drop_of_append data p rest [ch] hdrop
  cases heat : eat r.parser ch with
  | next parser ops =>
      rw [heat] at hsafe
      refine ⟨le_refl p, hlt, ?_, ?_⟩
      · rw [parser_ops]
        exact hsafe
      · rw [hdrop, hnext, Run.crawl, heat]
  | fail parser ops e =>
      rw [heat] at hsafe
      refine error_agrees hsafe hlt ?_
      rw [hdrop, Run.crawl, heat]
  | leave parser ops =>
      rw [heat] at hsafe
      refine .inl ⟨?_, hlt, ?_⟩
      · rw [parser_ops]
        exact hsafe
      · rw [hdrop, Run.crawl, heat]
  | abort =>
      rw [heat] at hsafe
      exact hsafe

theorem crawl_overflow (h : Base r.parser) (hheader : parsingHeader r.parser.state = true)
    (hlarge : maxHeaderSize < r.parser.nread + 1) : r.crawl data p (ch :: rest) = .failed := by
  rw [Run.crawl, h.eat_header hheader, if_pos hlarge]

theorem countHeaderSize_agrees {r' : Run} {v : ℕ} {rest : Run → Pass} (hq : q < data.length)
    (hfailed : maxHeaderSize < (r'.parser.count v).nread →
      r.crawl data p (data.drop p) = .failed)
    (hrest : (r'.parser.count v).nread ≤ maxHeaderSize →
      (rest { r' with parser := r'.parser.count v }).Agrees data r p) :
    (r'.countHeaderSize v q rest).Agrees data r p := by
  rw [Run.countHeaderSize]
  split_ifs with hlarge
  · exact error_agrees nofun hq (hfailed hlarge)
  · exact hrest (not_lt.mp hlarge)

theorem countHeaderSize_failed {r' : Run} {v : ℕ} (rest : Run → Pass) (hq : q < data.length)
    (hfailed : r.crawl data p (data.drop p) = .failed) (hnread : r'.parser.nread ≤ maxHeaderSize)
    (hv : v < 2 ^ 31) (hover : maxHeaderSize < r'.parser.nread + v) :
    (r'.countHeaderSize v q rest).Agrees data r p := by
  have hle : r'.parser.nread ≤ 80 * 1024 := hnread
  apply countHeaderSize_agrees hq (fun _ => hfailed)
  intro hsmall
  have hcount : (r'.parser.count v).nread = r'.parser.nread + v := by
    change (r'.parser.nread + v % 2 ^ 32) % 2 ^ 32 = r'.parser.nread + v
    omega
  exact absurd hover (by omega)

/-! ## Runs of characters -/

section Steps

variable {step : HttpParser → UInt8 → Option HttpParser} {s : State}

/-- The count of the header bytes plays no part in `step`. -/
def Uncounted (step : HttpParser → UInt8 → Option HttpParser) : Prop :=
  ∀ parser ch next n, step parser ch = some next →
    step (parser.withNread n) ch = some (next.withNread n)

theorem Uncounted.foldlM (h : Uncounted step) {taken : Bytes} {parser last : HttpParser} (n : ℕ)
    (hfold : taken.foldlM step parser = some last) :
    taken.foldlM step (parser.withNread n) = some (last.withNread n) := by
  induction taken generalizing parser with
  | nil =>
      obtain rfl := Option.some.inj hfold
      rfl
  | cons ch taken ih =>
      rw [List.foldlM_cons] at hfold ⊢
      obtain ⟨next, hchar, hfold⟩ := Option.bind_eq_some_iff.mp hfold
      rw [h _ _ _ n hchar]
      exact ih hfold

theorem crawl_steps (data rest : Bytes) (huncounted : Uncounted step)
    (hheader : parsingHeader s = true)
    (hsingle : ∀ parser ch next, parser.state = s → step parser ch = some next →
      single parser ch = .next next [] ∧ next.state = s)
    (hsound : Sound r.parser) (hstate : r.parser.state = s) {taken : Bytes} {last : HttpParser}
    (hfold : taken.foldlM step r.parser = some last) :
    r.crawl data p (taken ++ rest) =
      if maxHeaderSize < r.parser.nread + taken.length then .failed
      else
        { r with parser := last.withNread (r.parser.nread + taken.length) }.crawl data
          (p + taken.length) rest := by
  induction taken generalizing r p last with
  | nil =>
      obtain rfl := Option.some.inj hfold
      exact (if_neg (not_lt.mpr hsound.nread)).symm
  | cons ch taken ih =>
      have hheader' : parsingHeader r.parser.state = true := by rwa [hstate]
      rw [List.foldlM_cons] at hfold
      obtain ⟨next, hchar, hfold⟩ := Option.bind_eq_some_iff.mp hfold
      rw [List.length_cons]
      by_cases hlarge : maxHeaderSize < r.parser.nread + 1
      · rw [List.cons_append, crawl_overflow hsound.toBase hheader' hlarge, if_pos (by omega)]
      · have hcounted := huncounted _ _ _ (r.parser.nread + 1) hchar
        obtain ⟨hnext, hstate'⟩ := hsingle _ _ _ (by exact hstate) hcounted
        have heat : eat r.parser ch = .next (next.withNread (r.parser.nread + 1)) [] := by
          rw [hsound.toBase.eat_header hheader', if_neg hlarge]
          exact hnext
        have hsafe := hsound.eat ch
        rw [heat] at hsafe
        have hstep := ih (r := { r with parser := next.withNread (r.parser.nread + 1) })
          (p := p + 1) hsafe hstate' (huncounted.foldlM (r.parser.nread + 1) hfold)
        rw [List.cons_append, Run.crawl, heat, ← Nat.add_assoc, ← Nat.add_assoc,
          Nat.add_right_comm, Nat.add_right_comm p]
        exact hstep

end Steps

/-- The bytes `taken` leave `last` and nothing else, unless the header gets too long. -/
structure Walk (data : Bytes) (r : Run) (p : ℕ) (taken rest : Bytes) (last : HttpParser) :
    Prop where
  bytes : data.drop p = taken ++ rest
  header : parsingHeader last.state = true
  sound : ∀ n ≤ maxHeaderSize, Sound (last.withNread n)
  crawl : r.crawl data p (data.drop p) =
    if maxHeaderSize < r.parser.nread + taken.length then .failed
    else
      { r with parser := last.withNread (r.parser.nread + taken.length) }.crawl data
        (p + taken.length) rest

section Walks

variable {taken : Bytes} {last : HttpParser}

theorem Walk.overflow (h : Walk data r p taken (ch :: rest) last)
    (hlarge : maxHeaderSize < r.parser.nread + 1 + taken.length) :
    r.crawl data p (data.drop p) = .failed := by
  rw [h.crawl]
  split_ifs with hearly
  · rfl
  · refine crawl_overflow (h.sound _ (not_lt.mp hearly)).toBase h.header ?_
    rwa [Nat.add_right_comm] at hlarge

theorem Walk.turn (h : Walk data r p taken (ch :: rest) last)
    (hfit : r.parser.nread + 1 + taken.length ≤ maxHeaderSize) (parser : HttpParser) :
    ({ r with parser := parser }.turn data (p + taken.length)
      (single (last.withNread (r.parser.nread + 1 + taken.length)) ch)).Agrees data r p := by
  rw [Nat.add_right_comm] at hfit ⊢
  have hbefore : r.parser.nread + taken.length ≤ maxHeaderSize := by omega
  have hhere := drop_of_append h.bytes
  have heat : eat (last.withNread (r.parser.nread + taken.length)) ch =
      single (last.withNread (r.parser.nread + taken.length + 1)) ch :=
    ((h.sound _ hbefore).toBase.eat_header h.header ch).trans (if_neg (not_lt.mpr hfit))
  have hcrawl := h.crawl.trans (if_neg (not_lt.mpr hbefore))
  rw [← hhere] at hcrawl
  rw [← heat]
  exact (turn_agrees (h.sound _ hbefore) hhere parser).trans (Nat.le_add_right p _) hcrawl

theorem count_withNread (hsound : Sound r.parser) (last : HttpParser) {v : ℕ} (hv : v < 2 ^ 31) :
    (last.withNread (r.parser.nread + 1)).count v =
      last.withNread (r.parser.nread + 1 + v) := by
  have hle : r.parser.nread ≤ 80 * 1024 := hsound.nread
  dsimp only [HttpParser.count, HttpParser.withNread]
  rw [Nat.mod_eq_of_lt (by omega), Nat.mod_eq_of_lt (by omega)]

theorem Walk.toEnd (h : Walk data r p taken [] last) (hsound : Sound r.parser)
    (hp : p < data.length) (hlength : data.length < 2 ^ 31) :
    ({ r with parser := last.withNread (r.parser.nread + 1) }.countHeaderSize
      (data.length - 1 - p) (data.length - 1) fun r => .next r (data.length - 1)).Agrees data r p := by
  have hend : data.length = p + taken.length := length_of_drop h.bytes hp.le
  have hn : r.parser.nread + 1 + (data.length - 1 - p) = r.parser.nread + taken.length := by omega
  have hcount := count_withNread hsound last (v := data.length - 1 - p) (by omega)
  rw [hn] at hcount
  apply countHeaderSize_agrees
  · omega
  · intro hlarge
    rw [hcount] at hlarge
    exact h.crawl.trans (if_pos hlarge)
  · intro hsmall
    rw [hcount] at hsmall ⊢
    refine ⟨by omega, by omega, h.sound _ hsmall, ?_⟩
    rw [Nat.sub_add_cancel (by omega), List.drop_length, hend]
    exact h.crawl.trans (if_neg (not_lt.mpr hsmall))

end Walks

/-! ## Names -/

/-- A character of a name. -/
def nameStep (parser : HttpParser) (ch : UInt8) : Option HttpParser :=
  if token ch = 0 then none else fieldChar parser ch

theorem nameStep_uncounted : Uncounted nameStep := by
  intro parser ch next n h
  rw [nameStep] at h ⊢
  split_ifs at h ⊢ with htoken
  obtain ⟨type, flags, state, header_state, index, uses_transfer_encoding⟩ := parser
  cases header_state
  case connection | contentLength | transferEncoding | upgrade =>
    obtain rfl := Option.some.inj h
    rw [fieldChar]
    split_ifs <;> rfl
  all_goals first | cases h; done | obtain rfl := Option.some.inj h; rfl

theorem fieldChar_state {parser next : HttpParser} (h : fieldChar parser ch = some next) :
    next.state = parser.state := by
  unfold fieldChar at h
  dsimp only at h
  split at h
  case h_10 | h_11 | h_12 | h_13 =>
    obtain rfl := Option.some.inj h
    split_ifs <;> rfl
  all_goals first | cases h; done | obtain rfl := Option.some.inj h; rfl

theorem nameStep_single (parser : HttpParser) (ch : UInt8) (next : HttpParser)
    (hstate : parser.state = .headerField) (h : nameStep parser ch = some next) :
    single parser ch = .next next [] ∧ next.state = .headerField := by
  rw [nameStep] at h
  split_ifs at h with htoken
  refine ⟨?_, (fieldChar_state h).trans hstate⟩
  rw [single, oneByte, loopByte, hstate]
  simp only [Option.getD_none, if_neg htoken, h]

theorem single_fieldEnd {parser : HttpParser} (hstate : parser.state = .headerField)
    (htoken : token ch = 0) : single parser ch = fieldEnd parser ch := by
  rw [single, oneByte, loopByte, hstate]
  simp only [Option.getD_none, if_pos htoken]

/-- The loop goes over the tokens up to `rest`. -/
structure Named (parser : HttpParser) (bytes taken : Bytes) (last : HttpParser) (rest : Bytes) :
    Prop where
  bytes : bytes = taken ++ rest
  fold : taken.foldlM nameStep parser = some last
  stop : ∀ ch ∈ rest.head?, token ch = 0

theorem fieldLoop_spec (fast : ℕ) {parser : HttpParser}
    (hname : nameState parser.header_state = true)
    (hfast : fast ≠ 0 → parser.header_state = .general) (bytes : Bytes) :
    ∃ taken last rest, Named parser bytes taken last rest ∧
      fieldLoop fast parser bytes = .stopped last rest := by
  induction bytes generalizing fast parser with
  | nil => exact ⟨[], parser, [], ⟨rfl, rfl, by simp⟩, by cases fast <;> rfl⟩
  | cons ch bytes ih =>
      by_cases htoken : token ch = 0
      · refine ⟨[], parser, ch :: bytes, ⟨rfl, rfl, by simpa using htoken⟩, ?_⟩
        cases fast <;> rw [fieldLoop, if_pos htoken]
      · -- one character, and then what the loop does with the rest
        have hcons : ∀ (fast' : ℕ) {parser' : HttpParser}, fieldChar parser ch = some parser' →
            nameState parser'.header_state = true →
            (fast' ≠ 0 → parser'.header_state = .general) →
            fieldLoop fast parser (ch :: bytes) = fieldLoop fast' parser' bytes →
            ∃ taken last rest, Named parser (ch :: bytes) taken last rest ∧
              fieldLoop fast parser (ch :: bytes) = .stopped last rest := by
          intro fast' parser' hchar hname' hfast' hloop
          obtain ⟨taken, last, rest, h, hstopped⟩ := ih fast' hname' hfast'
          refine ⟨ch :: taken, last, rest, ⟨?_, ?_, h.stop⟩, hloop.trans hstopped⟩
          · rw [h.bytes, List.cons_append]
          · rw [List.foldlM_cons, nameStep, if_neg htoken, hchar]
            exact h.fold
        have hgeneral : parser.header_state = .general → fieldChar parser ch = some parser := by
          intro hstate
          rw [fieldChar, hstate]
        cases fast with
        | succ fast =>
            have hstate := hfast (Nat.succ_ne_zero fast)
            refine hcons fast (hgeneral hstate) hname (fun _ => hstate) ?_
            rw [fieldLoop, if_neg htoken]
        | zero =>
            by_cases hstate : parser.header_state = .general
            · refine hcons (min (bytes.length + 1) maxHeaderSize - 1) (hgeneral hstate) hname
                (fun _ => hstate) ?_
              rw [fieldLoop, if_neg htoken, hstate]
            · obtain ⟨index, header_state, uses_transfer_encoding, hname', hchar⟩ :=
                @fieldChar_spec _ ch hname
              refine hcons 0 hchar hname' (fun h => absurd rfl h) ?_
              rw [fieldLoop, if_neg htoken]
              split
              · next hcontra => exact absurd hcontra hstate
              · rw [hchar]

/-- Only what a name decides is left by its characters. -/
theorem foldlM_nameStep_spec {taken : Bytes} {parser last : HttpParser}
    (hname : nameState parser.header_state = true)
    (h : taken.foldlM nameStep parser = some last) :
    ∃ index header_state uses_transfer_encoding, nameState header_state = true ∧
      last = { parser with
        index := index
        header_state := header_state
        uses_transfer_encoding := uses_transfer_encoding } := by
  induction taken generalizing parser with
  | nil =>
      obtain rfl := Option.some.inj h
      exact ⟨_, _, _, hname, rfl⟩
  | cons ch taken ih =>
      rw [List.foldlM_cons] at h
      obtain ⟨next, hchar, hfold⟩ := Option.bind_eq_some_iff.mp h
      rw [nameStep] at hchar
      split_ifs at hchar
      obtain ⟨index, header_state, uses_transfer_encoding, hname', hspec⟩ :=
        @fieldChar_spec _ ch hname
      obtain rfl := Option.some.inj (hchar.symm.trans hspec)
      obtain ⟨index', header_state', uses_transfer_encoding', hname'', hlast⟩ :=
        ih (by exact hname') hfold
      exact ⟨index', header_state', uses_transfer_encoding', hname'', hlast⟩

theorem headerField_agrees (hsound : Sound r.parser) (hstate : r.parser.state = .headerField)
    (hp : p < data.length) (hlength : data.length < 2 ^ 31) :
    ({ r with parser := r.parser.count 1 }.headerField data p).Agrees data r p := by
  have hname : nameState r.parser.header_state = true := by
    have hfits := hsound.fits
    rw [Fits, hstate] at hfits
    exact hfits
  have hfirst : r.parser.count 1 = r.parser.withNread (r.parser.nread + 1) :=
    hsound.toBase.count (by decide)
  have hname' : nameState (r.parser.count 1).header_state = true := hname
  obtain ⟨taken, last, rest, hnamed, hloop⟩ :=
    fieldLoop_spec 0 hname' (fun h => absurd rfl h) (data.drop p)
  obtain ⟨index, header_state, uses_transfer_encoding, hlastName, hlast⟩ :=
    foldlM_nameStep_spec hname' hnamed.fold
  have hstate' : last.state = .headerField := by
    rw [hlast]
    exact hstate
  have hfold : taken.foldlM nameStep r.parser = some (last.withNread r.parser.nread) := by
    have huncounted := nameStep_uncounted.foldlM r.parser.nread hnamed.fold
    exact huncounted
  have hwalk : Walk data r p taken rest last := by
    refine ⟨hnamed.bytes, by rw [hstate']; rfl, fun n hn => ?_, ?_⟩
    · rw [hlast]
      refine ⟨⟨hsound.http_errno, hsound.content_length, hn⟩, ?_⟩
      rw [Fits]
      dsimp only [HttpParser.count, HttpParser.withNread]
      rw [hstate]
      exact hlastName
    · have hcrawl := crawl_steps (p := p) data rest nameStep_uncounted rfl nameStep_single hsound
        hstate hfold
      rw [← hnamed.bytes] at hcrawl
      exact hcrawl
  have hnread : last = last.withNread (r.parser.nread + 1) := by
    rw [hlast, hfirst]
    rfl
  rw [Run.headerField, hloop]
  cases rest with
  | nil =>
      rw [hnread]
      exact hwalk.toEnd hsound hp hlength
  | cons ch rest =>
      have hhere := drop_of_append hnamed.bytes
      have hlt := lt_of_drop hhere
      have hlong := length_of_drop hnamed.bytes hp.le
      have hstop : data.length - (ch :: rest).length = p + taken.length := by omega
      have hcount := count_withNread hsound last (v := taken.length) (by omega)
      rw [← hnread] at hcount
      dsimp only
      rw [hstop, Nat.add_sub_cancel_left]
      apply countHeaderSize_agrees hlt
      · intro hlarge
        rw [hcount] at hlarge
        exact hwalk.overflow hlarge
      · intro hsmall
        rw [hcount] at hsmall ⊢
        have hturn := hwalk.turn hsmall (last.withNread (r.parser.nread + 1 + taken.length))
        rw [single_fieldEnd (by exact hstate') (hnamed.stop ch rfl)] at hturn
        exact hturn

/-! ## Values -/

def HttpParser.withHeaderState (parser : HttpParser) (h_state : HeaderState) : HttpParser :=
  { parser with header_state := h_state }

/-- A character that the loop of `s_header_value` goes on with. -/
def ordinary (parser : HttpParser) (ch : UInt8) : Prop :=
  ch ≠ CR ∧ ch ≠ LF ∧ (parser.lenient_http_headers || isHeaderChar ch) = true

instance (parser : HttpParser) (ch : UInt8) : Decidable (ordinary parser ch) :=
  inferInstanceAs (Decidable (_ ∧ _ ∧ _))

/-- A character of a value; `h_state` is kept in the parser. -/
def valueStep (parser : HttpParser) (ch : UInt8) : Option HttpParser :=
  if ordinary parser ch then
    match valueChar parser parser.header_state ch with
    | .goOn parser h_state => some (parser.withHeaderState h_state)
    | _ => none
  else none

theorem contentLengthNum_goOn {parser next : HttpParser} {next_state : HeaderState} (n : ℕ)
    (kept : HeaderState) (h : contentLengthNum parser ch = .goOn next next_state) :
    contentLengthNum ((parser.withNread n).withHeaderState kept) ch =
      .goOn ((next.withNread n).withHeaderState kept) next_state := by
  rw [contentLengthNum] at h ⊢
  dsimp only at h
  split_ifs at h with hspace hnum hlarge
  · cases h
    rw [if_pos hspace]
  · cases h
    rw [if_neg hspace, if_neg hnum]
    exact if_neg hlarge

/-- The count and the header state in the parser play no part in `valueChar`. -/
theorem valueChar_goOn {parser next : HttpParser} {h_state next_state : HeaderState} (n : ℕ)
    (kept : HeaderState) (h : valueChar parser h_state ch = .goOn next next_state) :
    valueChar ((parser.withNread n).withHeaderState kept) h_state ch =
      .goOn ((next.withNread n).withHeaderState kept) next_state := by
  unfold valueChar at h ⊢
  cases h_state <;> dsimp only [HttpParser.withNread, HttpParser.withHeaderState] at h ⊢
  case contentLengthNum => exact contentLengthNum_goOn n kept h
  case contentLength =>
    split_ifs at h ⊢
    · cases h
      rfl
    · exact contentLengthNum_goOn n kept h
  all_goals (try split_ifs at h ⊢) <;> first | cases h; done | (cases h; rfl)

theorem valueStep_uncounted : Uncounted valueStep := by
  intro parser ch next n h
  rw [valueStep] at h ⊢
  split_ifs at h with hordinary
  rw [if_pos (by exact hordinary)]
  cases hchar : valueChar parser parser.header_state ch with
  | goOn after h_state =>
      rw [hchar] at h
      obtain rfl := Option.some.inj h
      have hcounted : valueChar (parser.withNread n) (parser.withNread n).header_state ch = _ :=
        valueChar_goOn n parser.header_state hchar
      rw [hcounted]
      rfl
  | fail =>
      rw [hchar] at h
      cases h
  | abort =>
      rw [hchar] at h
      cases h

theorem valueStep_none_of_fail {parser failed : HttpParser} {h_state : HeaderState}
    {e : HttpErrno} (h : valueChar parser h_state ch = .fail failed e) :
    valueStep (parser.withHeaderState h_state) ch = none := by
  rw [valueStep]
  split_ifs
  · cases hchar : valueChar (parser.withHeaderState h_state)
        (parser.withHeaderState h_state).header_state ch with
    | goOn next next_state =>
        have hback := valueChar_goOn parser.nread parser.header_state hchar
        have hsame : valueChar parser h_state ch = _ := hback
        rw [h] at hsame
        cases hsame
    | fail => rfl
    | abort => rfl
  · rfl

theorem valueChar_kept {parser next : HttpParser} {h_state next_state : HeaderState}
    (hstate : parser.state = .headerValue) (h : valueChar parser h_state ch = .goOn next next_state) :
    next.state = .headerValue ∧ next.nread = parser.nread := by
  unfold valueChar contentLengthNum at h
  cases h_state <;> dsimp only at h <;> (try split_ifs at h) <;>
    first | cases h; done | (cases h; first | exact ⟨hstate, rfl⟩ | exact ⟨rfl, rfl⟩)

theorem valueStep_single (parser : HttpParser) (ch : UInt8) (next : HttpParser)
    (hstate : parser.state = .headerValue) (h : valueStep parser ch = some next) :
    single parser ch = .next next [] ∧ next.state = .headerValue := by
  rw [valueStep] at h
  split_ifs at h with hordinary
  obtain ⟨hcr, hlf, hchar⟩ := hordinary
  have hvalid : ¬ (!parser.lenient_http_headers && !isHeaderChar ch) = true := by
    rw [← Bool.not_or, hchar]
    decide
  cases hvalue : valueChar parser parser.header_state ch with
  | goOn after h_state =>
      rw [hvalue] at h
      obtain rfl := Option.some.inj h
      have hstate' := (valueChar_kept hstate hvalue).1
      refine ⟨?_, hstate'⟩
      rw [single, oneByte, loopByte, hstate]
      simp only [Option.getD_none, if_neg hcr, if_neg hlf, if_neg hvalid, hvalue]
      rfl
  | fail =>
      rw [hvalue] at h
      cases h
  | abort =>
      rw [hvalue] at h
      cases h

theorem foldlM_valueStep_sound {taken : Bytes} {parser last : HttpParser} (hbase : Base parser)
    (hstate : parser.state = .headerValue) (hvalue : valueState parser.header_state = true)
    (h : taken.foldlM valueStep parser = some last) :
    Base last ∧ last.state = .headerValue ∧ valueState last.header_state = true ∧
      last.nread = parser.nread := by
  induction taken generalizing parser with
  | nil =>
      obtain rfl := Option.some.inj h
      exact ⟨hbase, hstate, hvalue, rfl⟩
  | cons ch taken ih =>
      rw [List.foldlM_cons] at h
      obtain ⟨next, hchar, hfold⟩ := Option.bind_eq_some_iff.mp h
      rw [valueStep] at hchar
      split_ifs at hchar
      have hsafe := @valueChar_safe _ ch _ hbase hstate hvalue
      cases hturn : valueChar parser parser.header_state ch with
      | goOn after h_state =>
          rw [hturn] at hchar hsafe
          obtain rfl := Option.some.inj hchar
          have hnext : Base (after.withHeaderState h_state) := hsafe.1.of_eq rfl rfl rfl
          obtain ⟨hbase', hstate', hvalue', hnread⟩ := ih hnext hsafe.2.1 hsafe.2.2 hfold
          exact ⟨hbase', hstate', hvalue', hnread.trans (valueChar_kept hstate hturn).2⟩
      | fail =>
          rw [hturn] at hchar
          cases hchar
      | abort =>
          rw [hturn] at hchar
          cases hchar

/-- How the loop ends behind `taken`, which leads to `last`. -/
inductive ValueEnd (limit : ℕ) (taken : Bytes) (last : HttpParser) (rest : Bytes) :
    ValueLoop → Prop where
  | stopped {parser : HttpParser} {h_state : HeaderState}
      (leads : parser.withHeaderState h_state = last)
      (stop : ∀ ch ∈ rest.head?, ch = CR ∨ ch = LF) :
      ValueEnd limit taken last rest (.stopped parser h_state rest)
  | fail {parser : HttpParser} {e : HttpErrno} {ch : UInt8} {rest' : Bytes} (error : e ≠ .ok)
      (stop : rest = ch :: rest') (other : ch ≠ CR ∧ ch ≠ LF) (none : valueStep last ch = none) :
      ValueEnd limit taken last rest (.fail parser e rest)
  /-- The loop of `h_general` came to its limit, and the byte there was not looked at. -/
  | skippedStopped {parser : HttpParser} {h_state : HeaderState} {rest' : Bytes}
      (kept : parser.nread = last.nread) (long : limit ≤ taken.length)
      (behind : rest'.length < rest.length) :
      ValueEnd limit taken last rest (.stopped parser h_state rest')
  | skippedFail {parser : HttpParser} {e : HttpErrno} {rest' : Bytes} (error : e ≠ .ok)
      (here : 0 < rest'.length) (long : limit ≤ taken.length)
      (behind : rest'.length < rest.length) :
      ValueEnd limit taken last rest (.fail parser e rest')

/-- One more character in front. -/
theorem ValueEnd.cons {limit limit' : ℕ} {taken : Bytes} {last : HttpParser} {loop : ValueLoop}
    (h : ValueEnd limit taken last rest loop)
    (hlimit : rest ≠ [] → limit ≤ taken.length → limit' ≤ taken.length + 1) :
    ValueEnd limit' (ch :: taken) last rest loop := by
  cases h with
  | stopped leads stop => exact .stopped leads stop
  | fail error stop other none => exact .fail error stop other none
  | skippedStopped kept long behind =>
      have hne : rest ≠ [] := List.ne_nil_of_length_pos (Nat.zero_lt_of_lt behind)
      exact .skippedStopped kept (hlimit hne long) behind
  | skippedFail error here long behind =>
      have hne : rest ≠ [] := List.ne_nil_of_length_pos (Nat.zero_lt_of_lt behind)
      exact .skippedFail error here (hlimit hne long) behind

/-- The loop of `h_general` at its limit goes on as the other, and what this does is not followed. -/
theorem ValueEnd.skipped {limit : ℕ} {taken bytes : Bytes} {last start : HttpParser}
    {loop : ValueLoop} (h : ValueEnd limit taken last rest loop) (hkept : last.nread = start.nread)
    (hshort : rest.length ≤ bytes.length) : ValueEnd 0 [] start (ch :: bytes) loop := by
  cases h with
  | stopped leads =>
      have hnread := congrArg HttpParser.nread leads
      exact .skippedStopped (hnread.trans hkept) le_rfl (Nat.lt_succ_of_le hshort)
  | fail error stop =>
      have hpos : 0 < rest.length := by rw [stop]; exact Nat.succ_pos _
      exact .skippedFail error hpos le_rfl (Nat.lt_succ_of_le hshort)
  | skippedStopped kept _ behind =>
      exact .skippedStopped (kept.trans hkept) le_rfl (Nat.lt_succ_of_le (behind.le.trans hshort))
  | skippedFail error here _ behind =>
      exact .skippedFail error here le_rfl (Nat.lt_succ_of_le (behind.le.trans hshort))

/-- Where `p` may go before the loop skips over a byte. -/
def skipLimit : Option ℕ → ℕ
  | none => maxHeaderSize
  | some left => left

/-- Where the loop goes on with a character. -/
def valueLoopOn (fast : Option ℕ) (parser : HttpParser) (h_state : HeaderState) (ch : UInt8)
    (rest : Bytes) : ValueLoop :=
  match fast with
  | some left => valueLoop (some (left - 1)) parser h_state rest
  | none =>
      if h_state = .general then
        valueLoop (some (min (rest.length + 1) maxHeaderSize - 1)) parser .general rest
      else
        match valueChar parser h_state ch with
        | .goOn parser h_state => valueLoop none parser h_state rest
        | .fail parser e => .fail parser e (ch :: rest)
        | .abort => .abort

theorem valueLoop_cons {fast : Option ℕ} (hfast : fast ≠ some 0) (parser : HttpParser)
    (h_state : HeaderState) (ch : UInt8) (rest : Bytes) :
    valueLoop fast parser h_state (ch :: rest) =
      if ch = CR || ch = LF then .stopped parser h_state (ch :: rest)
      else if !parser.lenient_http_headers && !isHeaderChar ch then
        .fail parser .invalidHeaderToken (ch :: rest)
      else valueLoopOn fast parser h_state ch rest := by
  rcases fast with _ | _ | left
  · cases h_state with
    | general => rw [valueLoop, valueLoopOn, if_pos rfl]
    | _ => rfl
  · exact absurd rfl hfast
  · rw [valueLoop, valueLoopOn]
    exact fun hzero => absurd hzero (by simp)

theorem valueLoop_eol {fast : Option ℕ} (hfast : fast ≠ some 0) (hch : ch = CR ∨ ch = LF)
    (parser : HttpParser) (h_state : HeaderState) :
    valueLoop fast parser h_state (ch :: rest) = .stopped parser h_state (ch :: rest) := by
  rw [valueLoop_cons hfast, if_pos (by simpa using hch)]

theorem valueLoop_invalid {fast : Option ℕ} {parser : HttpParser} (hfast : fast ≠ some 0)
    (hch : ch ≠ CR ∧ ch ≠ LF) (hinvalid : ¬ ordinary parser ch) (h_state : HeaderState) :
    valueLoop fast parser h_state (ch :: rest) = .fail parser .invalidHeaderToken (ch :: rest) := by
  have hinvalid' : (parser.lenient_http_headers || isHeaderChar ch) = false := by
    simpa [ordinary, hch.1, hch.2] using hinvalid
  rw [valueLoop_cons hfast, if_neg (by simp [hch.1, hch.2]), if_pos]
  rw [← Bool.not_or, hinvalid']
  rfl

theorem valueLoop_ordinary {fast : Option ℕ} {parser : HttpParser} (hfast : fast ≠ some 0)
    (hch : ordinary parser ch) (h_state : HeaderState) :
    valueLoop fast parser h_state (ch :: rest) = valueLoopOn fast parser h_state ch rest := by
  obtain ⟨hcr, hlf, hchar⟩ := hch
  rw [valueLoop_cons hfast, if_neg (by simp [hcr, hlf]), if_neg]
  rw [← Bool.not_or, hchar]
  decide

theorem valueLoop_spec (fast : Option ℕ) {parser : HttpParser} {h_state : HeaderState}
    (hbase : Base parser) (hstate : parser.state = .headerValue)
    (hvalue : valueState h_state = true) (hfast : fast ≠ none → h_state = .general)
    (bytes : Bytes) :
    ∃ taken last rest, bytes = taken ++ rest ∧
      taken.foldlM valueStep (parser.withHeaderState h_state) = some last ∧
      ValueEnd (skipLimit fast) taken last rest (valueLoop fast parser h_state bytes) := by
  induction bytes generalizing fast parser h_state with
  | nil =>
      have hloop : valueLoop fast parser h_state [] = .stopped parser h_state [] := by
        rw [valueLoop]
      exact ⟨[], _, [], rfl, rfl, hloop ▸ .stopped rfl (by simp)⟩
  | cons ch bytes ih =>
      -- the loop goes on with `fast'` behind this character
      have hcons : ∀ (fast' : Option ℕ) {parser' : HttpParser} {h_state' : HeaderState},
          ordinary parser ch → valueChar parser h_state ch = .goOn parser' h_state' →
          (fast' ≠ none → h_state' = .general) →
          (bytes ≠ [] → ∀ n, skipLimit fast' ≤ n → n < bytes.length → skipLimit fast ≤ n + 1) →
          valueLoop fast parser h_state (ch :: bytes) = valueLoop fast' parser' h_state' bytes →
          ∃ taken last rest, ch :: bytes = taken ++ rest ∧
            taken.foldlM valueStep (parser.withHeaderState h_state) = some last ∧
            ValueEnd (skipLimit fast) taken last rest
              (valueLoop fast parser h_state (ch :: bytes)) := by
        intro fast' parser' h_state' hordinary hchar hfast' hlimit hloop
        have hsafe := @valueChar_safe _ ch _ hbase hstate hvalue
        rw [hchar] at hsafe
        obtain ⟨taken, last, rest, hbytes, hfold, hend⟩ := ih fast' hsafe.1 hsafe.2.1 hsafe.2.2 hfast'
        refine ⟨ch :: taken, last, rest, by rw [hbytes, List.cons_append], ?_, ?_⟩
        · have hkept : valueChar (parser.withHeaderState h_state)
              (parser.withHeaderState h_state).header_state ch =
                .goOn (parser'.withHeaderState h_state) h_state' := by
            have hcounted := valueChar_goOn parser.nread h_state hchar
            rw [show parser'.withNread parser.nread = parser' by
              rw [← (valueChar_kept hstate hchar).2]; rfl] at hcounted
            exact hcounted
          rw [List.foldlM_cons, valueStep, if_pos (by exact hordinary), hkept]
          exact hfold
        · rw [hloop]
          refine hend.cons fun hne hlong => ?_
          have hlength := congrArg List.length hbytes
          rw [List.length_append] at hlength
          have hpos := List.length_pos_of_ne_nil hne
          exact hlimit (List.ne_nil_of_length_pos (by omega)) _ hlong (by omega)
      have hhere : ∀ {loop : ValueLoop}, valueLoop fast parser h_state (ch :: bytes) = loop →
          ValueEnd (skipLimit fast) [] (parser.withHeaderState h_state) (ch :: bytes) loop →
          ∃ taken last rest, ch :: bytes = taken ++ rest ∧
            taken.foldlM valueStep (parser.withHeaderState h_state) = some last ∧
            ValueEnd (skipLimit fast) taken last rest
              (valueLoop fast parser h_state (ch :: bytes)) := by
        intro loop hloop hend
        exact ⟨[], _, _, rfl, rfl, hloop ▸ hend⟩
      by_cases hskip : fast = some 0
      · -- the byte is skipped, and the loop goes on in its own way
        subst hskip
        obtain ⟨taken, last, rest, hbytes, hfold, hend⟩ := ih none hbase hstate hvalue (by simp)
        have hkept : last.nread = parser.nread := by
          have hbase' : Base (parser.withHeaderState h_state) := hbase.of_eq rfl rfl rfl
          exact (foldlM_valueStep_sound hbase' hstate hvalue hfold).2.2.2
        have hshort : rest.length ≤ bytes.length := by
          rw [hbytes, List.length_append]
          exact Nat.le_add_left _ _
        have hloop : valueLoop (some 0) parser h_state (ch :: bytes) =
            valueLoop none parser h_state bytes := by
          rw [valueLoop]
        exact hhere hloop (hend.skipped hkept hshort)
      by_cases heol : ch = CR ∨ ch = LF
      · exact hhere (valueLoop_eol hskip heol parser h_state) (.stopped rfl (by simpa using heol))
      have hother := not_or.mp heol
      by_cases hordinary : ordinary parser ch
      · cases fast with
        | some left =>
            obtain rfl := hfast (by simp)
            have hleft : left ≠ 0 := fun h => hskip (by rw [h])
            refine hcons (some (left - 1)) hordinary rfl (fun _ => rfl) ?_
              (valueLoop_ordinary hskip hordinary .general)
            intro _ n hn _
            dsimp only [skipLimit] at hn ⊢
            omega
        | none =>
            have hloop := @valueLoop_ordinary _ bytes _ _ hskip hordinary h_state
            by_cases hgeneral : h_state = .general
            · subst hgeneral
              rw [valueLoopOn, if_pos rfl] at hloop
              refine hcons (some (min (bytes.length + 1) maxHeaderSize - 1)) hordinary rfl
                (fun _ => rfl) ?_ hloop
              intro _ n hn hlt
              dsimp only [skipLimit] at hn ⊢
              omega
            · have hsafe := @valueChar_safe _ ch _ hbase hstate hvalue
              rw [valueLoopOn, if_neg hgeneral] at hloop
              cases hchar : valueChar parser h_state ch with
              | goOn parser' h_state' =>
                  rw [hchar] at hloop
                  refine hcons none hordinary hchar (by simp) ?_ hloop
                  intro _ n hn _
                  dsimp only [skipLimit] at hn ⊢
                  omega
              | fail parser' e =>
                  rw [hchar] at hloop hsafe
                  refine hhere hloop (.fail hsafe rfl hother ?_)
                  exact valueStep_none_of_fail hchar
              | abort =>
                  rw [hchar] at hsafe
                  exact hsafe.elim
      · refine hhere (valueLoop_invalid hskip hother hordinary h_state) ?_
        exact .fail (by decide) rfl hother (if_neg (by exact hordinary))

theorem single_cr {parser : HttpParser} (hstate : parser.state = .headerValue) :
    single parser CR = .next (parser.enter .headerAlmostDone) [.data .headerValue] := by
  rw [single, oneByte, loopByte, hstate]
  rfl

theorem single_lf {parser : HttpParser} (hstate : parser.state = .headerValue) :
    single parser LF = .next (parser.enter .headerValueLws) [.data .headerValue] := by
  rw [single, oneByte, loopByte, hstate]
  rfl

theorem Uncounted.none {step : HttpParser → UInt8 → Option HttpParser} (h : Uncounted step)
    {parser : HttpParser} (n : ℕ) (hnone : step parser ch = none) :
    step (parser.withNread n) ch = none := by
  cases hcounted : step (parser.withNread n) ch with
  | none => rfl
  | some next =>
      have hback := h _ _ _ parser.nread hcounted
      have hsame : step parser ch = _ := hback
      rw [hnone] at hsame
      cases hsame

/-- A byte that no value goes on with is an error. -/
theorem single_stop {parser : HttpParser} (hstate : parser.state = .headerValue)
    (hother : ch ≠ CR ∧ ch ≠ LF) (hnone : valueStep parser ch = none) :
    (∃ failed e, single parser ch = .fail failed [] e) ∨ single parser ch = .abort := by
  rw [single, oneByte, loopByte, hstate]
  simp only [Option.getD_none, if_neg hother.1, if_neg hother.2]
  by_cases hvalid : (parser.lenient_http_headers || isHeaderChar ch) = true
  · have hordinary : ordinary parser ch := ⟨hother.1, hother.2, hvalid⟩
    rw [valueStep, if_pos hordinary] at hnone
    rw [← Bool.not_or, hvalid, if_neg (by decide)]
    cases hchar : valueChar parser parser.header_state ch with
    | goOn next h_state =>
        rw [hchar] at hnone
        cases hnone
    | fail failed e => exact .inl ⟨failed, e, rfl⟩
    | abort => exact .inr rfl
  · rw [← Bool.not_or, Bool.eq_false_iff.mpr hvalid, if_pos (by decide)]
    exact .inl ⟨_, _, rfl⟩

theorem Walk.stop {taken : Bytes} {last : HttpParser} (h : Walk data r p taken (ch :: rest) last)
    (hstate : last.state = .headerValue) (hother : ch ≠ CR ∧ ch ≠ LF)
    (hnone : valueStep last ch = none) : r.crawl data p (data.drop p) = .failed := by
  by_cases hlarge : maxHeaderSize < r.parser.nread + 1 + taken.length
  · exact h.overflow hlarge
  rw [Nat.add_right_comm] at hlarge
  have hbefore : r.parser.nread + taken.length ≤ maxHeaderSize := by omega
  have heat := ((h.sound _ hbefore).toBase.eat_header h.header ch).trans (if_neg hlarge)
  have hstate' : (last.withNread (r.parser.nread + taken.length + 1)).state = .headerValue := hstate
  rw [h.crawl, if_neg (not_lt.mpr hbefore), Run.crawl]
  rcases single_stop hstate' hother (valueStep_uncounted.none _ hnone) with
    ⟨failed, e, hfail⟩ | habort
  · rw [heat.trans hfail]
  · rw [heat.trans habort]

/-- A loop that came to its limit took more bytes than the count may have. -/
theorem Walk.skipped {r' : Run} {taken : Bytes} {last : HttpParser}
    (h : Walk data r p taken (ch :: rest) last) (more : Run → Pass)
    (hlong : maxHeaderSize ≤ taken.length) (hcount : r.parser.nread + 1 ≤ maxHeaderSize)
    (hnread : r'.parser.nread = r.parser.nread + 1) (hlength : data.length < 2 ^ 31)
    (hq : q < data.length) (htaken : p + taken.length ≤ q) :
    (r'.countHeaderSize (q - p) q more).Agrees data r p := by
  have hfailed := h.overflow (by omega)
  refine countHeaderSize_failed more hq hfailed ?_ ?_ ?_
  · exact hnread.le.trans hcount
  · omega
  · omega

section ValueEnds

variable {taken : Bytes} {last : HttpParser}

/-- The count behind a value whose line ends at `p + taken.length`. -/
theorem Walk.counted (h : Walk data r p taken (ch :: rest) last) (hsound : Sound r.parser)
    (hlast : last.nread = r.parser.nread + 1) (hp : p < data.length)
    (hlength : data.length < 2 ^ 31) :
    (last.enter .headerAlmostDone).count taken.length =
      (last.withNread (r.parser.nread + 1 + taken.length)).enter .headerAlmostDone := by
  have hlong := length_of_drop h.bytes hp.le
  have hnread : last = last.withNread (r.parser.nread + 1) := by
    rw [← hlast]
    rfl
  rw [List.length_cons] at hlong
  rw [← count_withNread hsound last (by omega), ← hnread]
  rfl

theorem Walk.valueCr (h : Walk data r p taken (CR :: rest) last) (hsound : Sound r.parser)
    (hstate : last.state = .headerValue) (hlast : last.nread = r.parser.nread + 1)
    (hp : p < data.length) (hlength : data.length < 2 ^ 31) :
    (({ r with parser := last.enter .headerAlmostDone }.callbackData data (p + taken.length)
      .headerValue).countHeaderSize taken.length (p + taken.length) fun r =>
        .next r (p + taken.length)).Agrees data r p := by
  have hcounted := h.counted hsound hlast hp hlength
  apply countHeaderSize_agrees (lt_of_drop (drop_of_append h.bytes))
  · intro hlarge
    rw [parser_callbackData, hcounted] at hlarge
    exact h.overflow hlarge
  · intro hsmall
    rw [parser_callbackData, hcounted] at hsmall ⊢
    rw [callbackData_with .headerValue (by decide)]
    have hturn := h.turn hsmall last
    rw [single_cr (by exact hstate)] at hturn
    exact hturn

theorem Walk.valueLf {parser : HttpParser} {h_state : HeaderState}
    (h : Walk data r p taken (LF :: rest) last) (hsound : Sound r.parser)
    (hstate : last.state = .headerValue) (hlast : last.nread = r.parser.nread + 1)
    (leads : parser.withHeaderState h_state = last) (hp : p < data.length)
    (hlength : data.length < 2 ^ 31) :
    ({ r with parser := parser.enter .headerAlmostDone }.countHeaderSize taken.length
      (p + taken.length) fun r =>
        let r := { r with parser := { r.parser with header_state := h_state } }
        let r := r.callbackData data (p + taken.length) .headerValue
        r.turn data (p + taken.length) (headerAlmostDone r.parser LF)).Agrees data r p := by
  have hcounted := h.counted hsound hlast hp hlength
  have hleads : { (parser.enter .headerAlmostDone).count taken.length with
      header_state := h_state } = (last.enter .headerAlmostDone).count taken.length := by
    rw [← leads]
    rfl
  rw [hcounted] at hleads
  have hcount : ((parser.enter .headerAlmostDone).count taken.length).nread =
      r.parser.nread + 1 + taken.length :=
    congrArg HttpParser.nread hleads
  apply countHeaderSize_agrees (lt_of_drop (drop_of_append h.bytes))
  · intro hlarge
    exact h.overflow (hlarge.trans_eq hcount)
  · intro hsmall
    have hturn := h.turn (hcount.ge.trans hsmall) last
    rw [single_lf (by exact hstate)] at hturn
    dsimp only
    rw [hleads, parser_callbackData, headerAlmostDone, lfExpected, if_neg (by decide),
      Run.turn, callbackData_with .headerValue (by decide)]
    exact hturn

end ValueEnds

theorem headerValue_agrees (hsound : Sound r.parser) (hstate : r.parser.state = .headerValue)
    (hcount : r.parser.nread + 1 ≤ maxHeaderSize) (hp : p < data.length)
    (hlength : data.length < 2 ^ 31) :
    ({ r with parser := r.parser.count 1 }.headerValue data p).Agrees data r p := by
  have hvalue : valueState (r.parser.count 1).header_state = true := by
    have hfits := hsound.fits
    rw [Fits, hstate] at hfits
    exact hfits
  have hfirst : r.parser.count 1 = r.parser.withNread (r.parser.nread + 1) :=
    hsound.toBase.count (by decide)
  have hbase : Base (r.parser.count 1) := by
    rw [hfirst]
    exact ⟨hsound.http_errno, hsound.content_length, hcount⟩
  obtain ⟨taken, last, rest, hbytes, hfold, hend⟩ :=
    valueLoop_spec none hbase hstate hvalue (by simp) (data.drop p)
  have hfirstFold : taken.foldlM valueStep (r.parser.count 1) = some last := hfold
  obtain ⟨hlastBase, hstate', hlastValue, hlastNread⟩ :=
    foldlM_valueStep_sound hbase hstate hvalue hfirstFold
  have hfold' : taken.foldlM valueStep r.parser = some (last.withNread r.parser.nread) := by
    have huncounted := valueStep_uncounted.foldlM r.parser.nread hfold
    exact huncounted
  have hwalk : Walk data r p taken rest last := by
    refine ⟨hbytes, by rw [hstate']; rfl, fun n hn => ?_, ?_⟩
    · refine ⟨⟨hlastBase.http_errno, hlastBase.content_length, hn⟩, ?_⟩
      rw [Fits]
      dsimp only [HttpParser.withNread]
      rw [hstate']
      exact hlastValue
    · have hcrawl := crawl_steps (p := p) data rest valueStep_uncounted rfl valueStep_single hsound
        hstate hfold'
      rw [← hbytes] at hcrawl
      exact hcrawl
  have hlast : last.nread = r.parser.nread + 1 := by
    rw [hlastNread, hfirst]
    rfl
  have hnread : last = last.withNread (r.parser.nread + 1) := by
    rw [← hlast]
    rfl
  have hlong := length_of_drop hbytes hp.le
  rw [Run.headerValue]
  generalize valueLoop none (r.parser.count 1) (r.parser.count 1).header_state (data.drop p) = loop
    at hend
  cases hend with
  | fail error stop other hnone =>
      subst stop
      refine error_agrees error ?_ (hwalk.stop hstate' other hnone)
      rw [List.length_cons] at hlong ⊢
      omega
  | @skippedStopped parser h_state rest' kept long behind =>
      -- so many bytes were taken that the count is over the limit
      obtain ⟨ch, rest, rfl⟩ := List.exists_cons_of_length_pos (Nat.zero_lt_of_lt behind)
      rw [List.length_cons] at hlong behind
      cases rest' with
      | nil => exact hwalk.skipped _ long hcount (kept.trans hlast) hlength (by omega) (by omega)
      | cons ch' rest' =>
          have hstop : (ch' :: rest').length = rest'.length + 1 := rfl
          dsimp only
          split_ifs
          · refine hwalk.skipped _ long hcount ?_ hlength (by omega) (by omega)
            rw [parser_callbackData]
            exact kept.trans hlast
          · exact hwalk.skipped _ long hcount (kept.trans hlast) hlength (by omega) (by omega)
  | skippedFail error here long behind =>
      obtain ⟨ch, rest, rfl⟩ := List.exists_cons_of_length_pos (Nat.zero_lt_of_lt behind)
      refine error_agrees error ?_ (hwalk.overflow ?_)
      · omega
      · rw [skipLimit] at long
        omega
  | @stopped parser h_state leads stop =>
      cases rest with
      | nil =>
          have hend := hwalk.toEnd hsound hp hlength
          rw [← hnread, ← leads] at hend
          exact hend
      | cons ch rest =>
          have hstop : data.length - (ch :: rest).length = p + taken.length := by omega
          have hparser : { parser.enter .headerAlmostDone with header_state := h_state } =
              last.enter .headerAlmostDone := by
            rw [← leads]
            rfl
          dsimp only
          rw [hstop, Nat.add_sub_cancel_left]
          rcases stop ch rfl with rfl | rfl
          · rw [if_pos rfl, hparser]
            exact hwalk.valueCr hsound hstate' hlast hp hlength
          · rw [if_neg (by decide)]
            exact hwalk.valueLf hsound hstate' hlast leads hp hlength

/-! ## Bodies -/

def HttpParser.withContentLength (parser : HttpParser) (n : ℕ) : HttpParser :=
  { parser with content_length := n }

/-- The states whose bytes are handed on. -/
def inBody : State → Bool
  | .bodyIdentity | .chunkData | .bodyIdentityEof => true
  | _ => false

theorem op_mark_of_some (data : Bytes) (p : ℕ) {f : Field} {mark : ℕ} (h : r.marks f = some mark) :
    r.op data p (.mark f) = r := by
  rw [Run.op, h]

theorem marks_op_mark (data : Bytes) (p : ℕ) (r : Run) (f : Field) :
    ∃ mark, (r.op data p (.mark f)).marks f = some mark := by
  rw [Run.op]
  cases h : r.marks f with
  | none => exact ⟨p, Function.update_self f (some p) r.marks⟩
  | some mark => exact ⟨mark, h⟩

theorem op_mark_with (r : Run) (f : Field) (parser : HttpParser) :
    { r.op data p (.mark f) with parser := parser } =
      { r with parser := parser }.op data p (.mark f) := by
  cases hmark : r.marks f <;> simp only [Run.op, hmark]

theorem eat_bodyIdentity {parser : HttpParser} (hsound : Sound parser)
    (hstate : parser.state = .bodyIdentity) (ch : UInt8) :
    eat parser ch =
      if parser.content_length - 1 = 0 then
        (messageDone ((parser.withContentLength (parser.content_length - 1)).enter
          .messageDone)).after [.mark .body, .bodyHere]
      else .next (parser.withContentLength (parser.content_length - 1)) [.mark .body] := by
  have hfits := hsound.fits
  rw [Fits, hstate] at hfits
  rw [eat, if_neg (by rw [hstate]; decide), single, oneByte, loopByte, hstate]
  simp only [Option.getD_none]
  rw [if_neg (by simp [hfits.1, hfits.2.ne]), HttpParser.withContentLength, hstate]

theorem eat_chunkData {parser : HttpParser} (hsound : Sound parser)
    (hstate : parser.state = .chunkData) (ch : UInt8) :
    eat parser ch =
      .next
        (if parser.content_length - 1 = 0 then
          (parser.withContentLength (parser.content_length - 1)).enter .chunkDataAlmostDone
        else parser.withContentLength (parser.content_length - 1))
        [.mark .body] := by
  have hfits := hsound.fits
  rw [Fits, hstate] at hfits
  rw [eat, if_neg (by rw [hstate]; decide), single, oneByte, loopByte, hstate]
  simp only [Option.getD_none]
  rw [if_neg (by simp [hfits.2.2]), if_neg (by simp [hfits.1, hfits.2.1.ne]),
    HttpParser.withContentLength, hstate]

theorem eat_bodyIdentityEof {parser : HttpParser} (hstate : parser.state = .bodyIdentityEof)
    (ch : UInt8) : eat parser ch = .next parser [.mark .body] := by
  rw [eat, if_neg (by rw [hstate]; decide), single, oneByte, loopByte, hstate]
  rfl

theorem Turn.after_append (ops ops' : List Op) (turn : Turn) :
    turn.after (ops ++ ops') = (turn.after ops').after ops := by
  cases turn <;> simp only [Turn.after, List.append_assoc]

theorem eat_inBody {parser : HttpParser} (hsound : Sound parser)
    (h : inBody parser.state = true) (ch : UInt8) :
    ∃ turn : Turn, eat parser ch = turn.after [.mark .body] := by
  cases hstate : parser.state <;> rw [hstate] at h
  case bodyIdentity =>
    rw [eat_bodyIdentity hsound hstate]
    split_ifs
    · exact ⟨_, Turn.after_append [.mark .body] [.bodyHere] _⟩
    · exact ⟨.next _ [], rfl⟩
  case chunkData => exact ⟨.next _ [], eat_chunkData hsound hstate ch⟩
  case bodyIdentityEof => exact ⟨.next _ [], eat_bodyIdentityEof hstate ch⟩
  all_goals cases h

/-- To mark the body a second time changes nothing. -/
theorem crawl_marked (hsound : Sound r.parser) (h : inBody r.parser.state = true)
    (hdrop : data.drop p = ch :: rest) :
    r.crawl data p (data.drop p) = (r.op data p (.mark .body)).crawl data p (data.drop p) := by
  obtain ⟨turn, heat⟩ := eat_inBody hsound h ch
  obtain ⟨mark, hmark⟩ := marks_op_mark data p r .body
  have hagain : ∀ (parser : HttpParser) (ops : List Op),
      { r.op data p (.mark .body) with parser := parser }.ops data p (.mark .body :: ops) =
        { r with parser := parser }.ops data p (.mark .body :: ops) := by
    intro parser ops
    have hfirst : { r.op data p (.mark .body) with parser := parser }.op data p (.mark .body) =
        { r with parser := parser }.op data p (.mark .body) :=
      (op_mark_of_some data p (by exact hmark)).trans (op_mark_with r .body parser)
    exact congrArg (fun r => ops.foldl (Run.op data p) r) hfirst
  rw [hdrop, Run.crawl, Run.crawl, parser_op, heat]
  cases turn <;> simp only [Turn.after, List.singleton_append, hagain]

/-- All but the last of the bytes that are missing. -/
theorem crawl_body (data rest : Bytes) {mark : ℕ} (hsound : Sound r.parser)
    (hstate : r.parser.state = .bodyIdentity ∨ r.parser.state = .chunkData)
    (hmark : r.marks .body = some mark) {taken : Bytes}
    (hlt : taken.length < r.parser.content_length) :
    r.crawl data p (taken ++ rest) =
      { r with
        parser := r.parser.withContentLength (r.parser.content_length - taken.length) }.crawl data
          (p + taken.length) rest := by
  induction taken generalizing r p with
  | nil => rfl
  | cons ch taken ih =>
      rw [List.length_cons] at hlt
      have hne : ¬ r.parser.content_length - 1 = 0 := by omega
      have heat : eat r.parser ch =
          .next (r.parser.withContentLength (r.parser.content_length - 1)) [.mark .body] := by
        rcases hstate with hstate | hstate
        · rw [eat_bodyIdentity hsound hstate, if_neg hne]
        · rw [eat_chunkData hsound hstate, if_neg hne]
      have hsafe := hsound.eat ch
      rw [heat] at hsafe
      have hstep := ih (p := p + 1)
        (r := { r with parser := r.parser.withContentLength (r.parser.content_length - 1) })
        hsafe hstate hmark (by dsimp only [HttpParser.withContentLength]; omega)
      have hops : { r with parser := r.parser.withContentLength (r.parser.content_length - 1) }.ops
          data p [.mark .body] =
            { r with parser := r.parser.withContentLength (r.parser.content_length - 1) } :=
        op_mark_of_some data p (by exact hmark)
      have hlength : r.parser.content_length - (taken.length + 1) =
          r.parser.content_length - 1 - taken.length := by
        omega
      rw [List.cons_append, Run.crawl, heat, List.length_cons, hlength, Nat.add_comm taken.length,
        ← Nat.add_assoc]
      dsimp only
      rw [hops]
      exact hstep

/-- The bytes of a body that ends with the stream. -/
theorem crawl_eof (data rest : Bytes) {mark : ℕ} (hstate : r.parser.state = .bodyIdentityEof)
    (hmark : r.marks .body = some mark) (taken : Bytes) :
    r.crawl data p (taken ++ rest) = r.crawl data (p + taken.length) rest := by
  induction taken generalizing p with
  | nil => rfl
  | cons ch taken ih =>
      have hops : r.ops data p [.mark .body] = r := op_mark_of_some data p hmark
      rw [List.cons_append, Run.crawl, eat_bodyIdentityEof hstate, List.length_cons,
        Nat.add_comm taken.length, ← Nat.add_assoc]
      dsimp only
      rw [hops]
      exact ih

/-- What is missing of the body, or what is there of it. -/
theorem readBody_agrees (hsound : Sound r.parser)
    (hstate : r.parser.state = .bodyIdentity ∨ r.parser.state = .chunkData) (hp : p < data.length)
    {rest : Run → ℕ → Pass}
    (hrest : ∀ (r' : Run) (q : ℕ) (ch : UInt8) (rest' : Bytes) (mark : ℕ), Sound r'.parser →
      r'.parser.state = r.parser.state → r'.marks .body = some mark →
      data.drop q = ch :: rest' → q < data.length →
      (rest { r' with parser := r'.parser.withContentLength (r'.parser.content_length - 1) }
        q).Agrees data r' q) :
    (r.readBody data p rest).Agrees data r p := by
  have hlength : r.parser.content_length ≠ 0 ∧ r.parser.content_length < ullongMax := by
    have hfits := hsound.fits
    rcases hstate with hstate | hstate <;> rw [Fits, hstate] at hfits
    · exact hfits
    · exact ⟨hfits.1, hfits.2.1⟩
  have hbody : inBody r.parser.state = true := by rcases hstate with h | h <;> rw [h] <;> rfl
  obtain ⟨mark, hmark⟩ := marks_op_mark data p r .body
  generalize hk : min r.parser.content_length (data.length - p) - 1 = k
  have hq : p + k < data.length := by omega
  have hbytes : data.drop p = (data.drop p).take k ++ data.drop (p + k) := by
    rw [← List.drop_drop, List.take_append_drop]
  have htaken : ((data.drop p).take k).length = k := by
    rw [List.length_take, List.length_drop]
    omega
  have hfirst := crawl_marked hsound hbody (List.drop_eq_getElem_cons hp)
  have hskip := crawl_body (p := p) (r := r.op data p (.mark .body)) data (data.drop (p + k))
    (by rwa [parser_op]) (by rwa [parser_op]) hmark
    (show ((data.drop p).take k).length < (r.op data p (.mark .body)).parser.content_length by
      rw [parser_op, htaken]
      omega)
  rw [← hbytes, htaken, parser_op, ← hfirst] at hskip
  have hsound' : Sound (r.parser.withContentLength (r.parser.content_length - k)) := by
    refine ⟨⟨hsound.http_errno, (Nat.sub_le _ _).trans hsound.content_length, hsound.nread⟩, ?_⟩
    have hfits := hsound.fits
    have hne : r.parser.content_length - k ≠ 0 := by omega
    have hlt : r.parser.content_length - k < ullongMax := (Nat.sub_le _ _).trans_lt hlength.2
    rw [Fits] at hfits ⊢
    dsimp only [HttpParser.withContentLength]
    rcases hstate with hstate | hstate <;> rw [hstate] at hfits ⊢
    · exact ⟨hne, hlt⟩
    · exact ⟨hne, hlt, hfits.2.2⟩
  have hpass := hrest
    { r.op data p (.mark .body) with
      parser := r.parser.withContentLength (r.parser.content_length - k) }
    (p + k) _ _ mark hsound' rfl hmark (List.drop_eq_getElem_cons hq) hq
  have hread : min r.parser.content_length (data.length - p) = k + 1 := by omega
  rw [Run.readBody, if_neg (by simp [hlength.1, hlength.2.ne])]
  dsimp only
  rw [parser_op, hread, ← Nat.add_assoc, Nat.add_sub_cancel, ← Nat.sub_sub]
  exact hpass.trans (Nat.le_add_right p k) hskip

/-- The last byte of a body, which is handed on with the others in front of the turn. -/
theorem turn_bodyHere {mark : ℕ} (hmark : r.marks .body = some mark) (parser : HttpParser)
    (turn : Turn) :
    r.turn data p (turn.after [.mark .body, .bodyHere]) =
      ({ r with parser := parser }.op data p .bodyHere).turn data p turn := by
  have hops : ∀ (last : HttpParser) (ops : List Op),
      { r with parser := last }.ops data p ([Op.mark .body, .bodyHere] ++ ops) =
        { { r with parser := parser }.op data p .bodyHere with parser := last }.ops data p ops := by
    intro last ops
    have hfirst : { r with parser := last }.op data p (.mark .body) = { r with parser := last } :=
      op_mark_of_some data p (by exact hmark)
    have hhere : { r with parser := last }.op data p .bodyHere =
        { { r with parser := parser }.op data p .bodyHere with parser := last } :=
      (callbackData_with .body nofun { r with parser := parser } last).symm
    rw [Run.ops, List.cons_append, List.cons_append, List.nil_append, List.foldl_cons, hfirst,
      List.foldl_cons, hhere]
    rfl
  cases turn <;> simp only [Turn.after, Run.turn, hops]

theorem bodyIdentity_agrees (hsound : Sound r.parser) (hstate : r.parser.state = .bodyIdentity)
    (hp : p < data.length) : (r.bodyIdentity data p).Agrees data r p := by
  refine readBody_agrees hsound (.inl hstate) hp
    fun r' q ch rest mark hsound' hstate' hmark hdrop hq => ?_
  have hturn := turn_agrees hsound' hdrop r'.parser
  rw [eat_bodyIdentity hsound' (hstate'.trans hstate)] at hturn
  by_cases hzero : r'.parser.content_length - 1 = 0
  · rw [if_pos hzero, turn_bodyHere (by exact hmark)
      ((r'.parser.withContentLength (r'.parser.content_length - 1)).enter .messageDone)] at hturn
    dsimp only
    rw [if_pos (by exact hzero), parser_op]
    exact hturn
  · rw [if_neg hzero, Run.turn, Run.ops, List.foldl_cons,
      op_mark_of_some data q (by exact hmark)] at hturn
    dsimp only
    rw [if_neg (by exact hzero)]
    exact hturn

theorem chunkData_agrees (hsound : Sound r.parser) (hstate : r.parser.state = .chunkData)
    (hp : p < data.length) : (r.chunkData data p).Agrees data r p := by
  have hfits := hsound.fits
  rw [Fits, hstate] at hfits
  rw [Run.chunkData, if_neg (by simp [hfits.2.2])]
  refine readBody_agrees hsound (.inr hstate) hp
    fun r' q ch rest mark hsound' hstate' hmark hdrop hq => ?_
  have hturn := turn_agrees hsound' hdrop r'.parser
  rw [eat_chunkData hsound' (hstate'.trans hstate), Run.turn, Run.ops, List.foldl_cons,
    op_mark_of_some data q (by exact hmark)] at hturn
  by_cases hzero : r'.parser.content_length - 1 = 0
  · rw [if_pos hzero] at hturn
    dsimp only
    rw [if_pos (by exact hzero)]
    exact hturn
  · rw [if_neg hzero] at hturn
    dsimp only
    rw [if_neg (by exact hzero)]
    exact hturn

theorem bodyIdentityEof_agrees (hsound : Sound r.parser)
    (hstate : r.parser.state = .bodyIdentityEof) (hp : p < data.length) :
    (r.bodyIdentityEof data p).Agrees data r p := by
  obtain ⟨mark, hmark⟩ := marks_op_mark data p r .body
  have hfirst := crawl_marked hsound (by rw [hstate]; rfl) (List.drop_eq_getElem_cons hp)
  have hall := crawl_eof (r := r.op data p (.mark .body)) (p := p) data [] (by rwa [parser_op])
    hmark (data.drop p)
  rw [List.append_nil, ← hfirst, List.length_drop, Nat.add_sub_cancel' hp.le] at hall
  refine ⟨by omega, by omega, by rwa [parser_op], ?_⟩
  rw [Nat.sub_add_cancel (by omega), List.drop_length]
  exact hall

/-! ## The loop over the data -/

theorem oneByte_eq_none {parser : HttpParser} (h : oneByte parser ch = none) :
    parser.state = .headerField ∨ parser.state = .headerValue ∨ parser.state = .chunkData ∨
      parser.state = .bodyIdentity ∨ parser.state = .bodyIdentityEof := by
  unfold oneByte at h
  cases hstate : parser.state <;> rw [hstate] at h <;> simp at h ⊢

theorem switch_agrees (hsound : Sound r.parser) (hdrop : data.drop p = ch :: rest)
    (hheader : parsingHeader r.parser.state = false) : (r.switch data p ch).Agrees data r p := by
  have hp := lt_of_drop hdrop
  rw [Run.switch]
  cases hturn : oneByte r.parser ch with
  | some turn =>
      have heat : eat r.parser ch = turn := by
        rw [eat, hheader, if_neg (by decide), single, hturn]
        rfl
      rw [← heat]
      exact turn_agrees hsound hdrop r.parser
  | none =>
      rcases oneByte_eq_none hturn with hstate | hstate | hstate | hstate | hstate
      · rw [hstate] at hheader
        cases hheader
      · rw [hstate] at hheader
        cases hheader
      · rw [hstate]
        exact chunkData_agrees hsound hstate hp
      · rw [hstate]
        exact bodyIdentity_agrees hsound hstate hp
      · rw [hstate]
        exact bodyIdentityEof_agrees hsound hstate hp

theorem pass_agrees (hsound : Sound r.parser) (hdrop : data.drop p = ch :: rest)
    (hlength : data.length < 2 ^ 31) : (r.pass data p ch).Agrees data r p := by
  have hp := lt_of_drop hdrop
  have hcount : r.parser.count 1 = r.parser.withNread (r.parser.nread + 1) :=
    hsound.toBase.count (by decide)
  rw [Run.pass]
  split_ifs with hheader
  · apply countHeaderSize_agrees hp
    · intro hlarge
      rw [hcount] at hlarge
      rw [hdrop]
      exact crawl_overflow hsound.toBase hheader hlarge
    · intro hsmall
      rw [Run.switch]
      cases hturn : oneByte (r.parser.count 1) ch with
      | some turn =>
          have heat : eat r.parser ch = turn := by
            rw [eat, if_pos hheader, if_neg (not_lt.mpr hsmall), single, hturn]
            rfl
          rw [← heat]
          exact turn_agrees hsound hdrop (r.parser.count 1)
      | none =>
          have hstate : (r.parser.count 1).state = r.parser.state := rfl
          rw [hcount] at hsmall
          rcases oneByte_eq_none hturn with hloop | hloop | hloop | hloop | hloop
          · dsimp only
            rw [hloop]
            exact headerField_agrees hsound hloop hp hlength
          · dsimp only
            rw [hloop]
            exact headerValue_agrees hsound hloop hsmall hp hlength
          all_goals
            rw [← hstate, hloop] at hheader
            cases hheader
  · exact switch_agrees hsound hdrop (by simpa using hheader)

/-- The whole loop: it takes the segment, leaves it behind an upgrade, or reports an error. -/
def LoopEnds (data : Bytes) (result : Option Executed) : Crawled → Prop
  | .all r => Sound r.parser ∧ result = r.finish data
  | .left r n => Sound r.parser ∧ n ≤ data.length ∧ result = some ⟨r.calls, n, r.parser⟩
  | .failed =>
      ∃ executed, result = some executed ∧ executed.nparsed < data.length ∧
        executed.parser.http_errno ≠ .ok

theorem loop_ends (hlength : data.length < 2 ^ 31) {fuel : ℕ} (hsound : Sound r.parser)
    (hfuel : data.length - p ≤ fuel) :
    LoopEnds data (Run.loop data fuel r p) (r.crawl data p (data.drop p)) := by
  induction fuel generalizing r p with
  | zero =>
      rw [List.drop_of_length_le (by omega)]
      exact ⟨hsound, rfl⟩
  | succ fuel ih =>
      rw [Run.loop]
      cases hch : data[p]? with
      | none =>
          rw [List.drop_of_length_le (List.getElem?_eq_none_iff.mp hch)]
          exact ⟨hsound, rfl⟩
      | some ch =>
          obtain ⟨hp, rfl⟩ := List.getElem?_eq_some_iff.mp hch
          have hpass := pass_agrees hsound (List.drop_eq_getElem_cons hp) hlength
          dsimp only
          cases hturn : r.pass data p data[p] with
          | next r' q =>
              rw [hturn] at hpass
              obtain ⟨hle, hlt, hsound', hcrawl⟩ := hpass
              rw [hcrawl]
              exact ih hsound' (by omega)
          | «return» r' n =>
              rw [hturn] at hpass
              rcases hpass with ⟨hsound', hn, hcrawl⟩ | ⟨herrno, hn, hcrawl⟩
              · rw [hcrawl]
                exact ⟨hsound', hn, rfl⟩
              · rw [hcrawl]
                exact ⟨_, rfl, hn, herrno⟩
          | abort =>
              rw [hturn] at hpass
              exact hpass.elim

end Runs

end LibConn.Parser
