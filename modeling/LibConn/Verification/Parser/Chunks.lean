import LibConn.Verification.Parser.Bodies

/-! # Chunks

A chunk size is taken exactly where it is a hexadecimal number below the limit, which never wraps; a
byte from 128 on counts as the digit zero. What the chunks carry is the body. -/

namespace LibConn.Parser

open LibConn.Http

/-- The last number in front of a digit that `s_chunk_size` takes. -/
def chunkLimit : ℕ :=
  (ullongMax - 16) / 16

/-- The largest chunk size that is taken. -/
def chunkMax : ℕ :=
  18446744073709551599

/-- A hexadecimal digit. -/
def hexDigit (b : UInt8) : Option ℕ :=
  if '0'.toUInt8 ≤ b ∧ b ≤ '9'.toUInt8 then some (b.toNat - 48)
  else if 'A'.toUInt8 ≤ b ∧ b ≤ 'F'.toUInt8 then some (b.toNat - 65 + 10)
  else if 'a'.toUInt8 ≤ b ∧ b ≤ 'f'.toUInt8 then some (b.toNat - 97 + 10)
  else none

def hexValues (digits : Bytes) : List ℕ :=
  digits.map fun b => (hexDigit b).getD 0

/-- A number in hexadecimal digits. -/
def hexadecimal (text : Bytes) : Option ℕ :=
  if text ≠ [] ∧ text.all fun b => (hexDigit b).isSome then
    some (Numerals.value 16 0 (hexValues text))
  else none

/-- The character that a byte counts as. The table `unhex` is written down up to 127, and what is
behind that is zero. -/
def asDigit (b : UInt8) : UInt8 :=
  if 128 ≤ b then '0'.toUInt8 else b

/-- A digit of a chunk size behind the number so far. -/
def chunkStep (m : ℕ) (ch : UInt8) : Option ℕ :=
  (unhex ch).bind fun v => if chunkLimit < m then none else some (m * 16 + v)

/-- The parser inside of a chunk size. -/
def HttpParser.atSize (parser : HttpParser) (m : ℕ) : HttpParser :=
  { parser with state := .chunkSize, content_length := m }

/-- The parser behind the line of a chunk size. -/
def HttpParser.sized (parser : HttpParser) (k : ℕ) : HttpParser :=
  if k = 0 then
    { parser with
      nread := 0
      content_length := 0
      flags := { parser.flags with trailing := true }
      state := .headerFieldStart }
  else { parser with nread := 0, content_length := k, state := .chunkData }

/-- What may stand between a size and the end of its line. -/
def Extension (extension : Bytes) : Prop :=
  CR ∉ extension ∧ ∀ b ∈ extension.head?, b = ';'.toUInt8 ∨ b = ' '.toUInt8

/-- A line that says a size. -/
structure SizeLine (k : ℕ) where
  digits : Bytes
  extension : Bytes
  hexadecimal : hexadecimal digits = some k
  le : k ≤ chunkMax
  extends' : Extension extension
  length_le : digits.length + extension.length + 2 ≤ maxHeaderSize

def SizeLine.text {k : ℕ} (line : SizeLine k) : Bytes :=
  line.digits ++ (line.extension ++ [CR, LF])

structure Chunk where
  data : Bytes
  line : SizeLine data.length
  ne_nil : data ≠ []

def Chunk.text (chunk : Chunk) : Bytes :=
  chunk.line.text ++ (chunk.data ++ [CR, LF])

def Chunk.calls (chunk : Chunk) : List Call :=
  [.chunkHeader, .body chunk.data, .chunkComplete]

/-- A chunked body with what stands behind the chunks. -/
structure Chunked where
  chunks : List Chunk
  last : SizeLine 0
  trailers : List (Bytes × Bytes)
  nameable : ∀ field ∈ trailers, Nameable field.1
  length_le : (fieldLines trailers).length + 2 ≤ maxHeaderSize

def Chunked.text (body : Chunked) : Bytes :=
  body.chunks.flatMap Chunk.text ++ (body.last.text ++ (fieldLines body.trailers ++ [CR, LF]))

def Chunked.calls (body : Chunked) (method : HttpMethod) : List Call :=
  body.chunks.flatMap Chunk.calls ++
    (.chunkHeader :: (body.trailers.flatMap fieldCalls ++ [.chunkComplete, .messageComplete method]))

/-- The parser behind the last chunk, in front of the trailers. -/
def HttpParser.trailing (parser : HttpParser) : HttpParser :=
  { parser with content_length := 0, flags := { parser.flags with trailing := true } }

section Chunks

variable {parser last : HttpParser} {ch : UInt8} {text rest digits : Bytes} {k m n v : ℕ}

/-! ## Sizes -/

theorem of_all_bytes {p : UInt8 → Prop} (h : ∀ n < 256, p (UInt8.ofNat n)) (b : UInt8) : p b := by
  have hb := h b.toNat b.toNat_lt
  rwa [UInt8.ofNat_toNat] at hb

theorem unhex_eq (b : UInt8) : unhex b = hexDigit (asDigit b) :=
  of_all_bytes (p := fun b => unhex b = hexDigit (asDigit b)) (by decide +kernel) b

theorem hexDigit_lt (h : hexDigit ch = some v) : v < 16 := by
  have hall := of_all_bytes (p := fun b => (hexDigit b).all (· < 16)) (by decide +kernel) ch
  simpa [h] using hall

theorem asDigit_of_hexDigit (h : hexDigit ch = some v) : asDigit ch = ch := by
  have hall := of_all_bytes (p := fun b => (hexDigit b).isSome → asDigit b = b)
    (by decide +kernel) ch
  exact hall (by rw [h]; rfl)

theorem hexadecimal_asDigit (h : hexadecimal digits = some k) :
    hexadecimal (digits.map asDigit) = some k := by
  obtain ⟨⟨-, hall⟩, -⟩ := Option.ite_none_right_eq_some.mp h
  have hsame : digits.map asDigit = digits := by
    refine (List.map_congr_left fun b hb => ?_).trans digits.map_id
    obtain ⟨v, hv⟩ := Option.isSome_iff_exists.mp (List.all_eq_true.mp hall b hb)
    exact asDigit_of_hexDigit hv
  rw [hsame, h]

theorem unhex_separators : unhex CR = none ∧ unhex ';'.toUInt8 = none ∧ unhex ' '.toUInt8 = none := by
  decide

theorem chunkStep_some (h : chunkStep m ch = some k) :
    ∃ v, unhex ch = some v ∧ m ≤ chunkLimit ∧ k = m * 16 + v := by
  obtain ⟨v, hv, hk⟩ := Option.bind_eq_some_iff.mp h
  obtain ⟨hle, hk⟩ := Option.ite_none_left_eq_some.mp hk
  exact ⟨v, hv, not_lt.mp hle, (Option.some.inj hk).symm⟩

/-- `s_chunk_size` for a byte that may be a digit. -/
theorem single_sizeDigit (hchunked : parser.flags.chunked = true) (hcr : ch ≠ CR)
    (hother : ch ≠ ';'.toUInt8 ∧ ch ≠ ' '.toUInt8) :
    match chunkStep m ch with
    | some m' => single (parser.atSize m) ch = .next (parser.atSize m') []
    | none => ∃ e, single (parser.atSize m) ch = .fail (parser.atSize m) [] e := by
  have hturn : single (parser.atSize m) ch = chunkSize (parser.atSize m) ch := rfl
  rw [hturn, chunkSize, if_neg (by simpa [HttpParser.atSize] using hchunked), if_neg hcr, chunkStep]
  cases hv : unhex ch with
  | none =>
      dsimp only [Option.bind_none]
      rw [if_neg (by simp [hother])]
      exact ⟨_, rfl⟩
  | some v =>
      have hlt := unhex_lt hv
      dsimp only [Option.bind_some]
      by_cases hlimit : chunkLimit < m
      · rw [if_pos hlimit]
        exact ⟨_, if_pos hlimit⟩
      · have hmod : (m * 16 + v) % 2 ^ 64 = m * 16 + v := by
          have hle : m ≤ 1152921504606846974 := not_lt.mp hlimit
          omega
        rw [if_neg hlimit]
        exact (if_neg hlimit).trans (congrArg (fun m => Turn.next (parser.atSize m) []) hmod)

theorem size_simulates (hchunked : parser.flags.chunked = true) :
    Simulates (fun _ => True) parser.atSize chunkStep (fun _ => [])
      (fun ch => ch ≠ CR ∧ ch ≠ ';'.toUInt8 ∧ ch ≠ ' '.toUInt8) where
  taken m ch m' _ hstep := by
    obtain ⟨v, hv, -⟩ := chunkStep_some hstep
    obtain ⟨hcr, hsemicolon, hspace⟩ := unhex_separators
    have hne : ∀ b, unhex b = none → ch ≠ b := by
      rintro b hb rfl
      rw [hb] at hv
      cases hv
    refine ⟨trivial, ⟨rfl, fun n => ?_⟩, byteCalls_outside ch _ rfl⟩
    have hturn := @single_sizeDigit (parser.withNread n) ch m hchunked (hne _ hcr)
      ⟨hne _ hsemicolon, hne _ hspace⟩
    rw [hstep] at hturn
    exact hturn
  refused m ch _ hstep hch := by
    refine ⟨rfl, fun n => ?_⟩
    have hturn := @single_sizeDigit (parser.withNread n) ch m hchunked hch.1 hch.2
    rw [hstep] at hturn
    obtain ⟨e, hfail⟩ := hturn
    exact ⟨_, _, e, hfail⟩

theorem foldlM_chunkStep (digits : Bytes) (m : ℕ) :
    digits.foldlM chunkStep m =
      if (digits.map asDigit).all fun b => (hexDigit b).isSome then
        Numerals.read 16 chunkLimit m (hexValues (digits.map asDigit))
      else none := by
  induction digits generalizing m with
  | nil => rfl
  | cons ch digits ih =>
      rw [List.foldlM_cons, List.map_cons, List.all_cons, chunkStep, unhex_eq, hexValues,
        List.map_cons, Numerals.read]
      cases hv : hexDigit (asDigit ch) with
      | none => rfl
      | some v =>
          rw [Option.bind_some, Option.isSome_some, Option.getD_some, Bool.true_and]
          by_cases hlimit : chunkLimit < m
          · rw [if_pos hlimit, if_pos hlimit, ite_self]
            rfl
          · rw [if_neg hlimit, if_neg hlimit]
            exact ih _

theorem hexValues_lt (digits : Bytes) : ∀ d ∈ hexValues digits, d < 16 := by
  refine List.forall_mem_map.mpr fun b _ => ?_
  cases hv : hexDigit b with
  | none => decide
  | some v => exact hexDigit_lt hv

theorem hexadecimal_iff :
    (hexadecimal (digits.map asDigit) = some k ∧ k ≤ chunkMax) ↔
      digits ≠ [] ∧ digits.foldlM chunkStep 0 = some k := by
  have hmax : ∀ k, k / 16 ≤ chunkLimit ↔ k ≤ chunkMax := by
    intro k
    have hlimit : chunkLimit = 1152921504606846974 := by decide
    rw [hlimit, chunkMax]
    omega
  rw [hexadecimal, foldlM_chunkStep, Option.ite_none_right_eq_some, Option.ite_none_right_eq_some,
    Numerals.read_eq (hexValues_lt _), Option.ite_none_right_eq_some, Option.some.injEq,
    ne_eq, List.map_eq_nil_iff]
  constructor
  · rintro ⟨⟨⟨hne, hall⟩, rfl⟩, hle⟩
    exact ⟨hne, hall, .inr ((hmax _).mpr hle), rfl⟩
  · rintro ⟨hne, hall, hfits, rfl⟩
    refine ⟨⟨⟨hne, hall⟩, rfl⟩, (hmax _).mp (hfits.resolve_left ?_)⟩
    simpa [hexValues] using hne

/-- The first digit, which is the first byte that is counted. -/
theorem eat_firstDigit (hstate : parser.state = .chunkSizeStart)
    (hchunked : parser.flags.chunked = true) (ch : UInt8) :
    eat (parser.withNread 0) ch =
      match chunkStep 0 ch with
      | some m => .next ((parser.atSize m).withNread 1) []
      | none => .fail (parser.withNread 1) [] .invalidChunkSize := by
  rw [eat_withNread (by rw [hstate]; rfl) (by decide), single, oneByte,
    show (parser.withNread (0 + 1)).state = .chunkSizeStart from hstate]
  dsimp only [Option.getD_some]
  rw [chunkSizeStart, if_neg (by simp [HttpParser.withNread, hchunked]), chunkStep]
  cases hv : unhex ch with
  | none => rfl
  | some v =>
      have hvalue : 0 * 16 + v = v := by omega
      rw [Option.bind_some, if_neg (Nat.not_lt_zero _), hvalue]
      rfl

theorem size_leads (hstate : parser.state = .chunkSizeStart) (hchunked : parser.flags.chunked = true)
    (hsize : hexadecimal (digits.map asDigit) = some k) (hk : k ≤ chunkMax)
    (hn : digits.length ≤ maxHeaderSize) :
    Leads (parser.withNread 0) digits [] ((parser.atSize k).withNread digits.length) := by
  obtain ⟨hne, hfold⟩ := hexadecimal_iff.mp ⟨hsize, hk⟩
  cases digits with
  | nil => exact absurd rfl hne
  | cons ch rest =>
      rw [List.foldlM_cons] at hfold
      obtain ⟨m, hfirst, hrest⟩ := Option.bind_eq_some_iff.mp hfold
      have heat := eat_firstDigit hstate hchunked ch
      rw [hfirst] at heat
      have hbyte := leads_byte heat
      have hmark : markOf (parser.withNread 0).state = none := by
        rw [show (parser.withNread 0).state = .chunkSizeStart from hstate]
        rfl
      rw [byteCalls_outside ch _ hmark] at hbyte
      have hinside := ((size_simulates hchunked).advances trivial hrest).1 1
        (by rw [List.length_cons] at hn; omega)
      rw [List.flatMap_eq_nil_iff.mpr fun _ _ => rfl, Nat.add_comm] at hinside
      exact hbyte.append hinside

theorem extension_advances {extension : Bytes} (hchunked : parser.flags.chunked = true)
    (hextension : Extension extension) :
    Advances (parser.enter .chunkSize) (extension ++ [CR]) []
      (parser.enter .chunkSizeAlmostDone) := by
  have hchunked' : ∀ s n, ¬ (!((parser.enter s).withNread n).flags.chunked) = true := by
    intro s n
    simpa [HttpParser.enter, HttpParser.withNread] using hchunked
  have hparameters : ∀ ch n, single ((parser.enter .chunkParameters).withNread n) ch =
      chunkParameters ((parser.enter .chunkParameters).withNread n) ch := fun _ _ => rfl
  have hcr : Passes (parser.enter .chunkParameters) CR (parser.enter .chunkSizeAlmostDone) [] := by
    refine ⟨rfl, fun n => ?_⟩
    rw [hparameters, chunkParameters, if_neg (hchunked' _ n), if_pos rfl]
    rfl
  have hsize : ∀ ch n, single ((parser.enter .chunkSize).withNread n) ch =
      chunkSize ((parser.enter .chunkSize).withNread n) ch := fun _ _ => rfl
  obtain ⟨hends, hbegins⟩ := hextension
  cases extension with
  | nil =>
      refine .enter (s := .chunkSizeAlmostDone) rfl ⟨rfl, fun n => ?_⟩ (.nil _)
      rw [hsize, chunkSize, if_neg (hchunked' _ n), if_pos rfl]
      rfl
  | cons ch rest =>
      rw [List.mem_cons, not_or] at hends
      have hch : ch = ';'.toUInt8 ∨ ch = ' '.toUInt8 := hbegins ch rfl
      have hunhex : unhex ch = none := by
        rcases hch with rfl | rfl <;> decide
      have hfirst : Passes (parser.enter .chunkSize) ch (parser.enter .chunkParameters) [] := by
        refine ⟨rfl, fun n => ?_⟩
        rw [hsize, chunkSize, if_neg (hchunked' _ n), if_neg (Ne.symm hends.1), hunhex]
        dsimp only
        rw [if_pos (by simpa using hch)]
        rfl
      have hinside : ∀ b ∈ rest, Passes (parser.enter .chunkParameters) b
          (parser.enter .chunkParameters) [] := by
        intro b hb
        have hcr : b ≠ CR := fun h => hends.2 (h ▸ hb)
        refine ⟨rfl, fun n => ?_⟩
        rw [hparameters, chunkParameters, if_neg (hchunked' _ n), if_neg hcr]
      exact .enter rfl hfirst ((Advances.stays_outside rfl hinside).append (.enter rfl hcr (.nil _)))

theorem sizeText_leads {extension : Bytes} (hstate : parser.state = .chunkSizeStart)
    (hchunked : parser.flags.chunked = true) (hsize : hexadecimal (digits.map asDigit) = some k)
    (hk : k ≤ chunkMax) (hextends : Extension extension)
    (hlength : digits.length + extension.length + 2 ≤ maxHeaderSize) :
    Leads (parser.withNread 0) (digits ++ (extension ++ [CR, LF])) [.chunkHeader]
      (parser.sized k) := by
  have hdigits := size_leads hstate hchunked hsize hk (by omega)
  have hextension := @extension_advances { parser with content_length := k } extension
    hchunked hextends digits.length (by simp; omega)
  have heat : ∀ n, n + 1 ≤ maxHeaderSize →
      eat (({ parser with content_length := k }.enter .chunkSizeAlmostDone).withNread n) LF =
        .next (parser.sized k) [.notify .chunkHeader] := by
    intro n hn
    have hturn : single
        (({ parser with content_length := k }.enter .chunkSizeAlmostDone).withNread (n + 1)) LF =
          chunkSizeAlmostDone
            (({ parser with content_length := k }.enter .chunkSizeAlmostDone).withNread (n + 1))
            LF := rfl
    rw [eat_withNread rfl hn, hturn, chunkSizeAlmostDone,
      if_neg (by simpa [HttpParser.enter, HttpParser.withNread] using hchunked),
      if_neg (by decide), HttpParser.sized]
    by_cases hzero : k = 0
    · subst hzero
      rfl
    · rw [if_neg hzero]
      exact congrArg (fun parser => Turn.next parser _) (if_neg hzero)
  have hlf := leads_byte (heat (digits.length + (extension ++ [CR]).length) (by simp; omega))
  have hcalls : byteCalls .chunkSizeAlmostDone LF (parser.sized k) [.notify .chunkHeader] =
      [.chunkHeader] := by
    rw [byteCalls_notify LF _ _ rfl, byteCalls_outside LF _ rfl]
    rfl
  have hline := hdigits.append (hextension.append hlf)
  rw [List.append_assoc] at hline
  refine Leads.congr hline ?_
  exact congrArg joined hcalls

theorem sizeLine_leads (hstate : parser.state = .chunkSizeStart)
    (hchunked : parser.flags.chunked = true) (line : SizeLine k) :
    Leads (parser.withNread 0) line.text [.chunkHeader] (parser.sized k) :=
  sizeText_leads hstate hchunked (hexadecimal_asDigit line.hexadecimal) line.le line.extends'
    line.length_le

/-- Digits that are refused. -/
theorem size_refused (hstate : parser.state = .chunkSizeStart)
    (hchunked : parser.flags.chunked = true)
    (hdigits : ∀ b ∈ digits, b ≠ CR ∧ b ≠ ';'.toUInt8 ∧ b ≠ ' '.toUInt8)
    (hn : digits.length ≤ maxHeaderSize) (hfold : digits.foldlM chunkStep 0 = none) :
    eats (parser.withNread 0) [] digits = .failed := by
  cases digits with
  | nil => cases hfold
  | cons ch rest =>
      rw [List.length_cons] at hn
      have heat := eat_firstDigit hstate hchunked ch
      rw [List.foldlM_cons] at hfold
      cases hfirst : chunkStep 0 ch with
      | none =>
          rw [hfirst] at heat
          rw [eats, heat]
      | some m =>
          rw [hfirst] at heat hfold
          have hfailed := (size_simulates hchunked).eats_failed (n := 1) trivial hfold
            (List.forall_mem_cons.mp hdigits).2 (by omega)
          rw [eats, heat]
          dsimp only
          rw [← List.append_nil ([] ++ _), eats_calls, hfailed]
          rfl

/-- A chunk size is taken exactly where it is a number up to the largest one, with zeros for the bytes
from 128 on. That number is the length of the chunk: it never wraps. -/
theorem chunkSize_iff (hstate : parser.state = .chunkSizeStart)
    (hchunked : parser.flags.chunked = true)
    (hdigits : ∀ b ∈ digits, b ≠ CR ∧ b ≠ ';'.toUInt8 ∧ b ≠ ' '.toUInt8)
    (hn : digits.length + 2 ≤ maxHeaderSize) :
    (∃ last calls, eats (parser.withNread 0) [] (digits ++ [CR, LF]) = .all last calls ∧
      last.content_length = k) ↔ hexadecimal (digits.map asDigit) = some k ∧ k ≤ chunkMax := by
  have hplain : Extension [] := ⟨List.not_mem_nil, nofun⟩
  have htaken : ∀ m, hexadecimal (digits.map asDigit) = some m → m ≤ chunkMax →
      ∃ calls, eats (parser.withNread 0) [] (digits ++ [CR, LF]) = .all (parser.sized m) calls := by
    intro m hm hle
    obtain ⟨calls, heats, -⟩ :=
      sizeText_leads hstate hchunked hm hle hplain (by simpa using hn)
    exact ⟨calls, heats⟩
  have hsized : ∀ m, (parser.sized m).content_length = m := by
    intro m
    rw [HttpParser.sized]
    split_ifs with hzero
    · exact hzero.symm
    · rfl
  constructor
  · rintro ⟨last, calls, heats, rfl⟩
    cases digits with
    | nil =>
        have heat := eat_firstDigit hstate hchunked CR
        rw [show chunkStep 0 CR = none by decide] at heat
        rw [List.nil_append, eats, heat] at heats
        cases heats
    | cons ch rest =>
        cases hfold : (ch :: rest).foldlM chunkStep 0 with
        | none =>
            have hfailed := size_refused hstate hchunked hdigits (by omega) hfold
            rw [eats_append_failed hfailed] at heats
            cases heats
        | some m =>
            obtain ⟨hm, hle⟩ := hexadecimal_iff.mpr ⟨List.cons_ne_nil ch rest, hfold⟩
            obtain ⟨calls', heats'⟩ := htaken m hm hle
            obtain ⟨rfl, -⟩ := Eaten.all.inj (heats.symm.trans heats')
            rw [hsized]
            exact ⟨hm, hle⟩
  · rintro ⟨hk, hle⟩
    obtain ⟨calls, heats⟩ := htaken k hk hle
    exact ⟨_, calls, heats, hsized k⟩

/-- A parser in front of a chunk size. -/
def chunkStart : HttpParser :=
  { HttpParser.init .both with
    state := .chunkSizeStart, flags := { Flags.none with chunked := true } }

theorem chunkSize_iff_hex :
    (∃ last calls, eats (chunkStart.withNread 0) [] (ascii "1f" ++ [CR, LF]) = .all last calls ∧
      last.content_length = 31) ↔
      hexadecimal ((ascii "1f").map asDigit) = some 31 ∧ 31 ≤ chunkMax :=
  chunkSize_iff rfl rfl (forall_mem_of_all (by decide)) (by decide)

/-! ## Chunks -/

theorem data_leads (hstate : parser.state = .chunkData) (hchunked : parser.flags.chunked = true)
    (hdata : text ≠ []) (hlength : parser.content_length = text.length)
    (hlt : text.length < ullongMax) :
    Leads parser text [.body text]
      { parser with content_length := 0, state := .chunkDataAlmostDone } := by
  induction text generalizing parser with
  | nil => exact absurd rfl hdata
  | cons ch rest ih =>
      rw [List.length_cons] at hlength hlt
      have hlengths : ¬ (decide (parser.content_length = 0) ||
          decide (parser.content_length = ullongMax)) = true := by
        simp only [hlength, Bool.or_eq_true, decide_eq_true_eq]
        omega
      have hmark : markOf parser.state = none := by rw [hstate]; rfl
      have heat : eat parser ch =
          .next
            (if rest.length = 0 then
              { parser with content_length := rest.length, state := .chunkDataAlmostDone }
            else { parser with content_length := rest.length })
            [.mark .body] := by
        rw [eat, if_neg (by rw [hstate]; decide), single, oneByte, hstate, Option.getD_none,
          loopByte, hstate]
        dsimp only
        rw [if_neg (by simp [hchunked]), if_neg hlengths, hlength, Nat.add_sub_cancel]
        rfl
      have hfirst := leads_byte heat
      rw [byteCalls_mark ch _ hmark] at hfirst
      cases rest with
      | nil => exact hfirst
      | cons ch' rest =>
          rw [if_neg (by simp)] at hfirst
          have hrest := @ih { parser with content_length := (ch' :: rest).length } hstate
            hchunked (List.cons_ne_nil _ _) rfl (by omega)
          exact (hfirst.append hrest).congr
            (Merging.merge_joined joinCalls_associative (joins_body [ch] (ch' :: rest)) [] [])

theorem chunk_leads (hstate : parser.state = .chunkSizeStart)
    (hchunked : parser.flags.chunked = true) (chunk : Chunk) :
    Leads (parser.withNread 0) chunk.text chunk.calls
      ({ parser with content_length := 0 }.withNread 0) := by
  have hline := sizeLine_leads hstate hchunked chunk.line
  have hlength : chunk.data.length ≠ 0 := by simpa using chunk.ne_nil
  have hle : chunk.data.length ≤ 18446744073709551599 := chunk.line.le
  have hmax : ullongMax = 18446744073709551615 := by decide
  rw [HttpParser.sized, if_neg hlength] at hline
  have hdata := @data_leads
    { parser with nread := 0, content_length := chunk.data.length, state := .chunkData }
    chunk.data rfl hchunked chunk.ne_nil rfl (by omega)
  have hcr : eat { parser with nread := 0, content_length := 0, state := .chunkDataAlmostDone } CR =
      .next { parser with nread := 0, content_length := 0, state := .chunkDataDone }
        [.data .body] := by
    have hturn : eat { parser with nread := 0, content_length := 0, state := .chunkDataAlmostDone }
        CR = chunkDataAlmostDone
          { parser with nread := 0, content_length := 0, state := .chunkDataAlmostDone } CR := rfl
    rw [hturn, chunkDataAlmostDone, if_neg (by simp [hchunked]), if_neg (by decide)]
    rfl
  have hlf : eat { parser with nread := 0, content_length := 0, state := .chunkDataDone } LF =
      .next ({ parser with content_length := 0 }.withNread 0) [.notify .chunkComplete] := by
    have hturn : eat { parser with nread := 0, content_length := 0, state := .chunkDataDone } LF =
        chunkDataDone { parser with nread := 0, content_length := 0, state := .chunkDataDone } LF :=
      rfl
    rw [hturn, chunkDataDone, if_neg (by simp [hchunked]), if_neg (by decide), ← hstate]
    rfl
  have hends := (leads_byte hcr).append (leads_byte hlf)
  have hcalls : byteCalls .chunkDataAlmostDone CR
        { parser with nread := 0, content_length := 0, state := .chunkDataDone } [.data .body] ++
      byteCalls .chunkDataDone LF ({ parser with content_length := 0 }.withNread 0)
        [.notify .chunkComplete] = [.chunkComplete] := by
    rw [byteCalls_unmarked CR _ rfl, byteCalls_notify LF _ _ rfl, byteCalls_outside LF _ rfl]
    rfl
  exact (hline.append (hdata.append (hends.congr (congrArg joined hcalls))))

theorem chunks_lead (hstate : parser.state = .chunkSizeStart)
    (hchunked : parser.flags.chunked = true) (chunks : List Chunk) :
    ∃ m, Leads (parser.withNread 0) (chunks.flatMap Chunk.text) (chunks.flatMap Chunk.calls)
      ({ parser with content_length := m }.withNread 0) := by
  induction chunks generalizing parser with
  | nil => exact ⟨parser.content_length, [], rfl, rfl⟩
  | cons chunk chunks ih =>
      obtain ⟨m, hrest⟩ := @ih { parser with content_length := 0 } hstate hchunked
      exact ⟨m, (chunk_leads hstate hchunked chunk).append hrest⟩

theorem chunked_leads {core' : HttpParser} (hstate : parser.state = .chunkSizeStart)
    (hchunked : parser.flags.chunked = true) (body : Chunked)
    (htrailers : TakesAll parser.core.trailing body.trailers core')
    (hkeeps : core'.flags.trailing = true ∧ core'.upgrade = false) :
    ∃ last, Leads (parser.withNread 0) body.text (body.calls core'.method) last ∧
      last.state = core'.newMessage ∧ last.core = core' ∧
      last.nread = (fieldLines body.trailers).length + 2 := by
  obtain ⟨m, hchunks⟩ := chunks_lead hstate hchunked body.chunks
  have hlast := @sizeLine_leads { parser with content_length := m } 0 hstate hchunked
    body.last
  rw [HttpParser.sized, if_pos rfl] at hlast
  obtain ⟨calls, middle, pending, line, hfields, hready, hcalls, hline⟩ :=
    htrailers.advances body.nameable
      (@Ready.first { parser.trailing with nread := 0, state := .headerFieldStart } rfl) rfl
  have htrailing : line.flags.trailing = true :=
    (congrArg (fun p => p.flags.trailing) hline).trans hkeeps.1
  have hupgrade : line.upgrade = false := (congrArg (fun p => p.upgrade) hline).trans hkeeps.2
  have hends := trailers_lead hready htrailing hupgrade body.length_le
  have hlength := body.length_le
  have hbody := hchunks.append (hlast.append ((hfields 0 (by omega)).append
    (by rw [Nat.zero_add]; exact hends)))
  have hmethod : line.method = core'.method := congrArg (fun p => p.method) hline
  have hnext : line.newMessage = core'.newMessage := by
    rw [← hline]
    rfl
  refine ⟨_, hbody.congr (congrArg joined ?_), hnext, hline, rfl⟩
  rw [Chunked.calls, ← hmethod, ← List.append_assoc calls, hcalls]
  rfl

end Chunks

end LibConn.Parser
