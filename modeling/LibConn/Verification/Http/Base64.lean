import LibConn.Model.Base64
import LibConn.Shared.Base64
import LibConn.Verification.Http.Strings

/-! # The text of `base64_encode`

The masks and shifts of the code make the digits of RFC 4648, and its loop writes one group
behind the other. -/

namespace LibConn.Http

open LibConn.Memory
open LibConn.Base64

/-! ## Groups -/

theorem base64Chars_getD : ∀ digit < 64, base64Chars.getD digit 0 = standard.symbol digit := by
  decide +kernel

theorem and_low (b : UInt8) {mask : UInt8} {k : ℕ} (hmask : mask.toNat = 2 ^ k - 1) :
    (b &&& mask).toNat = b.toNat % 2 ^ k := by
  rw [UInt8.toNat_and, hmask, Nat.and_two_pow_sub_one_eq_mod]

theorem and_high (b : UInt8) {mask k : UInt8} (hk : k.toNat < 8)
    (hmask : mask.toNat >>> k.toNat = 2 ^ (8 - k.toNat) - 1) :
    ((b &&& mask) >>> k).toNat = b.toNat / 2 ^ k.toNat := by
  have hlt : b.toNat / 2 ^ k.toNat < 2 ^ (8 - k.toNat) := by
    rw [Nat.div_lt_iff_lt_mul (Nat.two_pow_pos _), ← Nat.pow_add, Nat.sub_add_cancel hk.le]
    exact b.toNat_lt
  rw [UInt8.toNat_shiftRight, Nat.mod_eq_of_lt hk, UInt8.toNat_and, Nat.shiftRight_and_distrib,
    hmask, Nat.and_two_pow_sub_one_eq_mod, Nat.shiftRight_eq_div_pow, Nat.mod_eq_of_lt hlt]

theorem base64Group_eq (b₀ b₁ b₂ : UInt8) :
    base64Group b₀ b₁ b₂ = (digits (ofOctets b₀ b₁ b₂)).map standard.symbol := by
  have h₀ := b₀.toNat_lt
  have h₁ := b₁.toNat_lt
  have h₂ := b₂.toNat_lt
  have hfirst : ((b₀ &&& 0xFC) >>> 2).toNat = ofOctets b₀ b₁ b₂ / 262144 % 64 := by
    rw [and_high b₀ (by decide) (by decide), ofOctets]
    simp
    omega
  have hsecond : (((b₀ &&& 0x03) <<< 4) + ((b₁ &&& 0xF0) >>> 4)).toNat =
      ofOctets b₀ b₁ b₂ / 4096 % 64 := by
    rw [UInt8.toNat_add, UInt8.toNat_shiftLeft, and_low b₀ (k := 2) (by decide),
      and_high b₁ (by decide) (by decide), ofOctets, Nat.shiftLeft_eq]
    simp
    omega
  have hthird : (((b₁ &&& 0x0F) <<< 2) + ((b₂ &&& 0xC0) >>> 6)).toNat =
      ofOctets b₀ b₁ b₂ / 64 % 64 := by
    rw [UInt8.toNat_add, UInt8.toNat_shiftLeft, and_low b₁ (k := 4) (by decide),
      and_high b₂ (by decide) (by decide), ofOctets, Nat.shiftLeft_eq]
    simp
    omega
  have hfourth : (b₂ &&& 0x3F).toNat = ofOctets b₀ b₁ b₂ % 64 := by
    rw [and_low b₂ (k := 6) (by decide), ofOctets]
    omega
  rw [base64Group]
  simp only [List.map_cons, List.map_nil, hfirst, hsecond, hthird, hfourth]
  rw [base64Chars_getD _ (by omega), base64Chars_getD _ (by omega),
    base64Chars_getD _ (by omega), base64Chars_getD _ (by omega)]
  rfl

/-- The text is that of RFC 4648. -/
theorem base64Encode_eq (bytes : Bytes) : base64Encode bytes = standard.encode bytes := by
  induction bytes using base64Encode.induct with
  | case1 b₀ b₁ b₂ rest ih => rw [base64Encode, Alphabet.encode, base64Group_eq, ih]
  | case2 b₀ b₁ => rw [base64Encode, Alphabet.encode, base64Group_eq, List.map_take]; rfl
  | case3 b₀ => rw [base64Encode, Alphabet.encode, base64Group_eq, List.map_take]; rfl
  | case4 => rfl

theorem base64Encode_length (bytes : Bytes) :
    (base64Encode bytes).length = 4 * ((bytes.length + 2) / 3) := by
  rw [base64Encode_eq, encode_length]

theorem zero_notMem_encode (bytes : Bytes) : 0 ∉ standard.encode bytes := by
  intro h
  have hsymbol : ∀ digit < 64, 0 ≠ standard.symbol digit := by decide
  rcases mem_encode h with ⟨digit, hlt, hzero⟩ | hzero
  · exact hsymbol digit hlt hzero
  · exact absurd hzero (by decide)

theorem base64Encode_append {whole : Bytes} (h : whole.length % 3 = 0) (rest : Bytes) :
    base64Encode (whole ++ rest) = base64Encode whole ++ base64Encode rest := by
  rw [base64Encode_eq, base64Encode_eq, base64Encode_eq, encode_append h]

/-! ## The loop -/

/-- What was written so far, and the position behind it. -/
structure EncodeState.Wrote (m₀ : Block UInt8) (s : EncodeState) (text : Bytes) : Prop where
  holds : m₀.Holds s.output text
  k : s.k = text.length
  behind : ∀ i, text.length ≤ i → s.output.cells i = m₀.cells i

/-- The whole groups of what was read are written; the bytes behind them wait. -/
structure EncodeState.Read (m₀ : Block UInt8) (s : EncodeState) (whole part : Bytes) : Prop
    extends s.Wrote m₀ (base64Encode whole) where
  whole : whole.length % 3 = 0
  i : s.i = part.length
  part_lt : part.length < 3
  held : ∀ j, (h : j < part.length) → s.char_array_3 j = part[j]

namespace EncodeState

variable {m₀ : Block UInt8} {s : EncodeState} {text whole part : Bytes}

theorem Wrote.puts (h : s.Wrote m₀ text) (cs : Bytes) (hfits : text.length + cs.length < 2 ^ 31) :
    ∃ t, cs.foldlM put s = some t ∧ t.Wrote m₀ (text ++ cs) ∧ t.i = s.i := by
  induction cs generalizing s text with
  | nil =>
      rw [List.append_nil]
      exact ⟨s, rfl, h, rfl⟩
  | cons c cs ih =>
      rw [List.length_cons] at hfits
      have hk : s.k + 1 < 2 ^ 31 := by
        rw [h.k]
        omega
      have hput : s.put c = some { s with output := s.output.store s.k [c], k := s.k + 1 } :=
        if_pos hk
      have hnext : Wrote m₀ { s with output := s.output.store s.k [c], k := s.k + 1 }
          (text ++ [c]) := by
        refine ⟨h.holds.store h.k [c], ?_, fun i hi => ?_⟩
        · rw [List.length_append, ← h.k]
          rfl
        · rw [List.length_append] at hi
          refine (copy_of_ge (h.k ▸ hi)).trans (h.behind i ?_)
          omega
      have hrest : (text ++ [c]).length + cs.length < 2 ^ 31 := by
        rw [List.length_append, List.length_singleton]
        omega
      obtain ⟨t, ht, hwrote, hi⟩ := ih hnext hrest
      rw [List.foldlM_cons, hput]
      rw [List.append_assoc] at hwrote
      exact ⟨t, ht, hwrote, hi⟩

theorem putChars_eq (s : EncodeState) (char_array_4 : Bytes) :
    s.putChars char_array_4 =
      (char_array_4.map fun digit => base64Chars.getD digit.toNat 0).foldlM put s := by
  rw [putChars, List.foldlM_map]

theorem charArray4_chars (char_array_3 : ℕ → UInt8) :
    (charArray4 char_array_3).map (fun digit => base64Chars.getD digit.toNat 0) =
      base64Group (char_array_3 0) (char_array_3 1) (char_array_3 2) :=
  rfl

theorem Read.held_update (h : s.Read m₀ whole part) (b : UInt8) (j : ℕ)
    (hj : j < (part ++ [b]).length) :
    Function.update s.char_array_3 s.i b j = (part ++ [b])[j] := by
  rw [h.i]
  rcases Nat.lt_or_ge j part.length with hlt | hge
  · rw [Function.update_of_ne hlt.ne, List.getElem_append_left hlt, h.held j hlt]
  · obtain rfl : j = part.length := by
      rw [List.length_append, List.length_singleton] at hj
      omega
    rw [Function.update_self]
    simp

theorem Read.pass (h : s.Read m₀ whole part) (b : UInt8)
    (hfits : 4 * ((whole.length + part.length + 3) / 3) < 2 ^ 31) :
    ∃ t whole' part', s.pass b = some t ∧ whole' ++ part' = whole ++ part ++ [b] ∧
      t.Read m₀ whole' part' := by
  have hheld := h.held_update b
  by_cases hgroup : s.i + 1 = 3
  · obtain ⟨b₀, b₁, rfl⟩ := List.length_eq_two.mp (by rw [← h.i]; omega : part.length = 2)
    have hwhole := h.whole
    have h₀ : Function.update s.char_array_3 s.i b 0 = b₀ := hheld 0 (by simp)
    have h₁ : Function.update s.char_array_3 s.i b 1 = b₁ := hheld 1 (by simp)
    have h₂ : Function.update s.char_array_3 s.i b 2 = b := hheld 2 (by simp)
    have hread : Wrote m₀
        { s with char_array_3 := Function.update s.char_array_3 s.i b, i := s.i + 1 }
        (base64Encode whole) := ⟨h.holds, h.k, h.behind⟩
    obtain ⟨t, ht, hwrote, -⟩ := hread.puts (base64Group b₀ b₁ b) (by
      rw [base64Encode_length]
      simp only [List.length_cons, List.length_nil] at hfits
      change _ + 4 < _
      omega)
    have hgroup' : base64Encode [b₀, b₁, b] = base64Group b₀ b₁ b := List.append_nil _
    rw [← hgroup', ← base64Encode_append hwhole] at hwrote
    refine ⟨{ t with i := 0 }, whole ++ [b₀, b₁, b], [], ?_, by simp,
      ⟨hwrote.holds, hwrote.k, hwrote.behind⟩, ?_, rfl, by decide,
      fun j hj => absurd hj (Nat.not_lt_zero j)⟩
    · rw [EncodeState.pass]
      dsimp only
      rw [if_pos hgroup, putChars_eq, charArray4_chars, h₀, h₁, h₂, ht]
      rfl
    · rw [List.length_append]
      simp only [List.length_cons, List.length_nil]
      omega
  · refine ⟨_, whole, part ++ [b], if_neg hgroup, by rw [List.append_assoc],
      ⟨h.holds, h.k, h.behind⟩, h.whole, ?_, ?_, hheld⟩
    · rw [List.length_append, ← h.i]
      rfl
    · have hi := h.i
      have hpart := h.part_lt
      rw [List.length_append, List.length_singleton]
      omega

theorem Read.passes (h : s.Read m₀ whole part) (input : Bytes)
    (hfits : 4 * ((whole.length + part.length + input.length + 2) / 3) < 2 ^ 31) :
    ∃ t whole' part', input.foldlM EncodeState.pass s = some t ∧
      whole' ++ part' = whole ++ part ++ input ∧ t.Read m₀ whole' part' := by
  induction input generalizing s whole part with
  | nil => exact ⟨s, whole, part, rfl, (List.append_nil _).symm, h⟩
  | cons b input ih =>
      rw [List.length_cons] at hfits
      obtain ⟨t, whole', part', ht, hsame, hread⟩ := h.pass b (by omega)
      have hlength := congrArg List.length hsame
      simp only [List.length_append, List.length_singleton] at hlength
      obtain ⟨u, whole'', part'', hu, hsame', hread'⟩ := ih hread (by omega)
      refine ⟨u, whole'', part'', ?_, ?_, hread'⟩
      · rw [List.foldlM_cons, ht]
        exact hu
      · rw [hsame', hsame, List.append_assoc, List.singleton_append]

/-- `char_array_4` for the bytes that are left, as far as it is written. -/
def leftChars (s : EncodeState) : Bytes :=
  ((charArray4 fun j => if s.i ≤ j then 0 else s.char_array_3 j).take (s.i + 1)).map
    fun digit => base64Chars.getD digit.toNat 0

theorem Wrote.finish (h : s.Wrote m₀ text) (hi : s.i ≠ 0) {more : Bytes}
    (hmore : s.leftChars ++ List.replicate (3 - s.i) 61 = more)
    (hfits : text.length + more.length < 2 ^ 31) :
    ∃ t, s.finish = some t ∧ t.Wrote m₀ (text ++ more) := by
  rw [← hmore, List.length_append] at hfits
  obtain ⟨t, ht, hchars, hsame⟩ := h.puts s.leftChars (by omega)
  obtain ⟨u, hu, hwrote, -⟩ := hchars.puts (List.replicate (3 - s.i) 61) (by
    rw [List.length_append]
    omega)
  refine ⟨u, ?_, ?_⟩
  · rw [EncodeState.finish, if_pos hi]
    dsimp only
    rw [putChars_eq]
    change (s.leftChars.foldlM put s).bind _ = _
    rw [ht, Option.bind_some, hsame]
    exact hu
  · rw [← hmore, ← List.append_assoc]
    exact hwrote

theorem Read.finish (h : s.Read m₀ whole part)
    (hfits : 4 * ((whole.length + part.length + 2) / 3) < 2 ^ 31) :
    ∃ t, s.finish = some t ∧ t.Wrote m₀ (base64Encode (whole ++ part)) := by
  have hlength := base64Encode_length (whole ++ part)
  rw [List.length_append, base64Encode_append h.whole, List.length_append] at hlength
  rw [base64Encode_append h.whole]
  obtain ⟨hwrote, -, hi, hlt, hheld⟩ := h
  match part, hlt with
  | [], _ =>
      refine ⟨s, if_neg (not_not.mpr hi), ?_⟩
      rw [base64Encode, List.append_nil]
      exact hwrote
  | [b₀], _ =>
      have h₀ : s.char_array_3 0 = b₀ := hheld 0 (by simp)
      refine hwrote.finish (by simp [hi]) ?_ (lt_of_eq_of_lt hlength hfits)
      rw [leftChars, List.map_take, charArray4_chars, hi, ← h₀]
      rfl
  | [b₀, b₁], _ =>
      have h₀ : s.char_array_3 0 = b₀ := hheld 0 (by simp)
      have h₁ : s.char_array_3 1 = b₁ := hheld 1 (by simp)
      refine hwrote.finish (by simp [hi]) ?_ (lt_of_eq_of_lt hlength hfits)
      rw [leftChars, List.map_take, charArray4_chars, hi, ← h₀, ← h₁]
      rfl

end EncodeState

/-- `base64_encode` writes the text, and nothing behind it. -/
theorem base64EncodeInto_holds (char_array_3 : ℕ → UInt8) (output : Block UInt8) {input : Bytes}
    (hfits : 4 * ((input.length + 2) / 3) < 2 ^ 31) :
    ∃ m, base64EncodeInto char_array_3 output input = some m ∧
      output.Holds m (base64Encode input) ∧
      ∀ i, (base64Encode input).length ≤ i → m.cells i = output.cells i := by
  have hstart : EncodeState.Read output ⟨0, 0, char_array_3, output⟩ [] [] :=
    ⟨⟨.refl output, rfl, fun _ _ => rfl⟩, rfl, rfl, by decide,
      fun j hj => absurd hj (Nat.not_lt_zero j)⟩
  obtain ⟨s, whole, part, hs, hsame, hread⟩ := hstart.passes input (by simpa using hfits)
  obtain rfl : whole ++ part = input := hsame
  rw [List.length_append] at hfits
  obtain ⟨t, ht, hwrote⟩ := hread.finish hfits
  refine ⟨t.output, ?_, hwrote.holds, hwrote.behind⟩
  rw [base64EncodeInto, hs, Option.bind_some, ht]
  rfl

theorem base64EncodeInto_key (char_array_3 : ℕ → UInt8) (rand_key : Fin 16 → UInt8) :
    ∃ m, base64EncodeInto char_array_3 ⟨fun _ => 0, []⟩ (List.ofFn rand_key) = some m ∧
      cStr (slice m.cells 0 32) = base64Encode (List.ofFn rand_key) := by
  have hlength : (base64Encode (List.ofFn rand_key)).length = 24 := by
    rw [base64Encode_length, List.length_ofFn]
  have hfits : 4 * (((List.ofFn rand_key).length + 2) / 3) < 2 ^ 31 := by
    rw [List.length_ofFn]
    decide
  have hnul : 0 ∉ base64Encode (List.ofFn rand_key) := by
    rw [base64Encode_eq]
    exact zero_notMem_encode _
  obtain ⟨m, hm, hholds, hbehind⟩ :=
    base64EncodeInto_holds char_array_3 ⟨fun _ => 0, []⟩ hfits
  refine ⟨m, hm, cStr_slice hnul hholds.slice ?_ (by omega)⟩
  rw [hbehind _ le_rfl]

/-! ## The encoding -/

/-- The length of the text. -/
def encodedLength (input : Bytes) : ℕ :=
  4 * ((input.length + 2) / 3)

/-- The text that stands in a block for this input. -/
def encodedText (m : Block UInt8) (input : Bytes) : Bytes :=
  slice m.cells 0 (encodedLength input)

/-- The block was `output` before; each character of the text was written, one after the other. -/
structure Encodes (output m : Block UInt8) (input : Bytes) : Prop where
  written : m.written = output.written ++ List.range (encodedLength input)
  behind : ∀ i, encodedLength input ≤ i → m.cells i = output.cells i
  chars : ∀ c ∈ encodedText m input, (∃ digit < 64, c = standard.symbol digit) ∨ c = standard.pad
  decodes : standard.decode (encodedText m input) = some input

theorem base64EncodeInto_encodes {char_array_3 : ℕ → UInt8} {output m : Block UInt8}
    {input : Bytes} (hfits : encodedLength input < 2 ^ 31)
    (h : base64EncodeInto char_array_3 output input = some m) : Encodes output m input := by
  obtain ⟨m', hm, hholds, hbehind⟩ := base64EncodeInto_holds char_array_3 output hfits
  obtain rfl : m = m' := Option.some.inj (h.symm.trans hm)
  have hlength : (base64Encode input).length = encodedLength input := base64Encode_length input
  have htext : encodedText m input = standard.encode input := by
    rw [encodedText, ← hlength, hholds.slice, base64Encode_eq]
  refine ⟨?_, hlength ▸ hbehind, ?_, ?_⟩
  · rw [← hlength, hholds.written]
  · intro c hc
    rw [htext] at hc
    exact mem_encode hc
  · rw [htext, decode_encode]

/-- `base64_encode` writes a text that decodes to its input, so that different inputs have
different texts. -/
theorem base64EncodeInto_decodes (char_array_3 : ℕ → UInt8) (output : Block UInt8)
    (input : Bytes) (hfits : encodedLength input < 2 ^ 31) :
    ∃ m, base64EncodeInto char_array_3 output input = some m ∧ Encodes output m input ∧
      ∀ char_array_3' output' input' m', encodedLength input' < 2 ^ 31 →
        base64EncodeInto char_array_3' output' input' = some m' →
        encodedText m' input' = encodedText m input → input' = input := by
  obtain ⟨m, hm, -⟩ := base64EncodeInto_holds char_array_3 output hfits
  have hencodes := base64EncodeInto_encodes hfits hm
  refine ⟨m, hm, hencodes, ?_⟩
  intro char_array_3' output' input' m' hfits' hm' hsame
  have hdecodes' := (base64EncodeInto_encodes hfits' hm').decodes
  rw [hsame, hencodes.decodes] at hdecodes'
  exact (Option.some.inj hdecodes').symm

/-- Two bytes, with one character of padding. -/
theorem base64EncodeInto_decodes_two :
    ∃ m, base64EncodeInto (fun _ => 0) ⟨fun _ => 0, []⟩ [77, 97] = some m ∧
      Encodes ⟨fun _ => 0, []⟩ m [77, 97] := by
  obtain ⟨m, hm, hencodes, -⟩ :=
    base64EncodeInto_decodes (fun _ => 0) ⟨fun _ => 0, []⟩ [77, 97] (by decide)
  exact ⟨m, hm, hencodes⟩

end LibConn.Http
