import Mathlib.Tactic.Ring

/-! # Base64

The encoding of RFC 4648, over any alphabet: three octets are a number of 24 bits, and four
symbols are its digits. The decoder takes canonical texts only. -/

namespace LibConn.Base64

/-- The symbols for the 64 digits, and the one that pads the last quantum. -/
structure Alphabet (α : Type*) where
  symbol : ℕ → α
  pad : α
  value : α → Option ℕ
  value_symbol : ∀ digit < 64, value (symbol digit) = some digit
  value_pad : value pad = none

/-- The alphabet of RFC 4648 in ASCII: `A` to `Z`, `a` to `z`, `0` to `9`, `+` and `/`, with
`=` for the padding. -/
def standard : Alphabet UInt8 where
  symbol digit :=
    if digit < 26 then UInt8.ofNat (65 + digit)
    else if digit < 52 then UInt8.ofNat (97 + (digit - 26))
    else if digit < 62 then UInt8.ofNat (48 + (digit - 52))
    else if digit = 62 then 43
    else 47
  pad := 61
  value c :=
    if 65 ≤ c ∧ c ≤ 90 then some (c.toNat - 65)
    else if 97 ≤ c ∧ c ≤ 122 then some (c.toNat - 97 + 26)
    else if 48 ≤ c ∧ c ≤ 57 then some (c.toNat - 48 + 52)
    else if c = 43 then some 62
    else if c = 47 then some 63
    else none
  value_symbol := by decide
  value_pad := by decide

/-- The number that three octets spell. -/
def ofOctets (b₀ b₁ b₂ : UInt8) : ℕ :=
  b₀.toNat * 65536 + b₁.toNat * 256 + b₂.toNat

/-- The octets of a number of 24 bits. -/
def octets (n : ℕ) : List UInt8 :=
  [UInt8.ofNat (n / 65536), UInt8.ofNat (n / 256), UInt8.ofNat n]

/-- The digits of a number of 24 bits. -/
def digits (n : ℕ) : List ℕ :=
  [n / 262144 % 64, n / 4096 % 64, n / 64 % 64, n % 64]

section Alphabet

variable {α : Type*}

namespace Alphabet

variable (A : Alphabet α)

def encode : List UInt8 → List α
  | [] => []
  | [b₀] => ((digits (ofOctets b₀ 0 0)).take 2).map A.symbol ++ [A.pad, A.pad]
  | [b₀, b₁] => ((digits (ofOctets b₀ b₁ 0)).take 3).map A.symbol ++ [A.pad]
  | b₀ :: b₁ :: b₂ :: rest => (digits (ofOctets b₀ b₁ b₂)).map A.symbol ++ encode rest

/-- The number whose digits the symbols are. -/
def number (symbols : List α) : Option ℕ :=
  symbols.foldlM (fun n symbol => (A.value symbol).map fun digit => n * 64 + digit) 0

/-- The bits that the padding stands for have to be zero. -/
def decode [DecidableEq α] : List α → Option (List UInt8)
  | [] => some []
  | s₀ :: s₁ :: s₂ :: s₃ :: rest =>
      if s₃ = A.pad ∧ rest = [] then
        if s₂ = A.pad then
          (A.number [s₀, s₁]).bind fun n =>
            if n % 16 = 0 then some ((octets (n * 4096)).take 1) else none
        else
          (A.number [s₀, s₁, s₂]).bind fun n =>
            if n % 4 = 0 then some ((octets (n * 64)).take 2) else none
      else
        (A.number [s₀, s₁, s₂, s₃]).bind fun n => (decode rest).map (octets n ++ ·)
  | _ => none

end Alphabet

/-! ## Digits and octets -/

variable {A : Alphabet α} {b₀ b₁ b₂ : UInt8} {bytes : List UInt8} {n : ℕ}

theorem ofOctets_lt (b₀ b₁ b₂ : UInt8) : ofOctets b₀ b₁ b₂ < 2 ^ 24 := by
  have h₀ := b₀.toNat_lt
  have h₁ := b₁.toNat_lt
  have h₂ := b₂.toNat_lt
  rw [ofOctets]
  omega

theorem octets_ofOctets (b₀ b₁ b₂ : UInt8) : octets (ofOctets b₀ b₁ b₂) = [b₀, b₁, b₂] := by
  have h₁ := b₁.toNat_lt
  have h₂ := b₂.toNat_lt
  have hfirst : ofOctets b₀ b₁ b₂ / 65536 = b₀.toNat := by
    rw [ofOctets]
    omega
  have hsecond : ofOctets b₀ b₁ b₂ / 256 = b₀.toNat * 256 + b₁.toNat := by
    rw [ofOctets]
    omega
  rw [octets, hfirst, hsecond, ofOctets]
  congr
  · exact UInt8.ofNat_toNat
  · apply UInt8.toNat_inj.mp
    simp
  · apply UInt8.toNat_inj.mp
    simp

theorem digits_lt : ∀ digit ∈ digits n, digit < 64 := by
  intro digit hdigit
  simp only [digits, List.mem_cons, List.not_mem_nil, or_false] at hdigit
  omega

theorem symbol_ne_pad {digit : ℕ} (h : digit < 64) : A.symbol digit ≠ A.pad := by
  intro heq
  have hvalue := A.value_symbol digit h
  rw [heq, A.value_pad] at hvalue
  cases hvalue

/-- The symbols of digits are read as the number with these digits. -/
theorem number_map {ds : List ℕ} (h : ∀ digit ∈ ds, digit < 64) :
    A.number (ds.map A.symbol) = some (ds.foldl (fun n digit => n * 64 + digit) 0) := by
  rw [Alphabet.number]
  generalize 0 = n
  induction ds generalizing n with
  | nil => rfl
  | cons digit ds ih =>
      rw [List.map_cons, List.foldlM_cons, A.value_symbol digit (h digit List.mem_cons_self)]
      exact ih (fun d hd => h d (List.mem_cons_of_mem _ hd)) _

theorem number_digits (h : n < 2 ^ 24) : A.number ((digits n).map A.symbol) = some n := by
  rw [number_map digits_lt]
  simp only [digits, List.foldl_cons, List.foldl_nil]
  congr 1
  omega

theorem number_digits_three (h : n < 2 ^ 24) :
    A.number (((digits n).take 3).map A.symbol) = some (n / 64) := by
  rw [number_map fun digit hdigit => digits_lt digit (List.mem_of_mem_take hdigit)]
  simp only [digits, List.take_succ_cons, List.take_zero, List.foldl_cons, List.foldl_nil]
  congr 1
  omega

theorem number_digits_two (h : n < 2 ^ 24) :
    A.number (((digits n).take 2).map A.symbol) = some (n / 4096) := by
  rw [number_map fun digit hdigit => digits_lt digit (List.mem_of_mem_take hdigit)]
  simp only [digits, List.take_succ_cons, List.take_zero, List.foldl_cons, List.foldl_nil]
  congr 1
  omega

/-! ## The text -/

theorem encode_length (A : Alphabet α) (bytes : List UInt8) :
    (A.encode bytes).length = 4 * ((bytes.length + 2) / 3) := by
  induction bytes using Alphabet.encode.induct with
  | case1 => rfl
  | case2 b₀ => simp [Alphabet.encode, digits]
  | case3 b₀ b₁ => simp [Alphabet.encode, digits]
  | case4 b₀ b₁ b₂ rest ih =>
      have hdigits : (digits (ofOctets b₀ b₁ b₂)).length = 4 := rfl
      rw [Alphabet.encode, List.length_append, List.length_map, hdigits, ih]
      simp only [List.length_cons]
      omega

theorem mem_encode {s : α} (h : s ∈ A.encode bytes) :
    (∃ digit < 64, s = A.symbol digit) ∨ s = A.pad := by
  have hmap : ∀ {ds : List ℕ}, (∀ digit ∈ ds, digit < 64) → s ∈ ds.map A.symbol →
      ∃ digit < 64, s = A.symbol digit := by
    intro ds hds hs
    obtain ⟨digit, hdigit, rfl⟩ := List.mem_map.mp hs
    exact ⟨digit, hds digit hdigit, rfl⟩
  induction bytes using Alphabet.encode.induct with
  | case1 => cases h
  | case2 b₀ =>
      rcases List.mem_append.mp h with h | h
      · exact .inl (hmap (fun d hd => digits_lt d (List.mem_of_mem_take hd)) h)
      · exact .inr (by simpa using h)
  | case3 b₀ b₁ =>
      rcases List.mem_append.mp h with h | h
      · exact .inl (hmap (fun d hd => digits_lt d (List.mem_of_mem_take hd)) h)
      · exact .inr (by simpa using h)
  | case4 b₀ b₁ b₂ rest ih =>
      rcases List.mem_append.mp h with h | h
      · exact .inl (hmap digits_lt h)
      · exact ih h

/-- Whole quanta are encoded on their own. -/
theorem encode_append {whole : List UInt8} (h : whole.length % 3 = 0) (rest : List UInt8) :
    A.encode (whole ++ rest) = A.encode whole ++ A.encode rest := by
  induction whole using Alphabet.encode.induct with
  | case1 => rfl
  | case2 b₀ => cases h
  | case3 b₀ b₁ => cases h
  | case4 b₀ b₁ b₂ whole ih =>
      have hwhole : whole.length % 3 = 0 := by
        simp only [List.length_cons] at h
        omega
      rw [List.cons_append, List.cons_append, List.cons_append, Alphabet.encode, ih hwhole,
        Alphabet.encode, List.append_assoc]

/-! ## Round trip -/

/-- A quantum without padding. -/
theorem decode_quantum [DecidableEq α] (h : n < 2 ^ 24) (rest : List α) :
    A.decode ((digits n).map A.symbol ++ rest) = (A.decode rest).map (octets n ++ ·) := by
  have hnumber := number_digits (A := A) h
  have hpad : ¬ (A.symbol (n % 64) = A.pad ∧ rest = []) :=
    fun hpad => symbol_ne_pad (Nat.mod_lt _ (by decide)) hpad.1
  simp only [digits, List.map_cons, List.map_nil, List.cons_append, List.nil_append] at hnumber ⊢
  rw [Alphabet.decode, if_neg hpad, hnumber, Option.bind_some]

/-- A quantum of two octets. -/
theorem decode_three [DecidableEq α] (h : n < 2 ^ 24) (hzero : n % 256 = 0) :
    A.decode (((digits n).take 3).map A.symbol ++ [A.pad]) = some ((octets n).take 2) := by
  have hnumber := number_digits_three (A := A) h
  have hpad : A.symbol (n / 64 % 64) ≠ A.pad := symbol_ne_pad (Nat.mod_lt _ (by decide))
  have hmod : n / 64 % 4 = 0 := by omega
  have hn : n / 64 * 64 = n := by omega
  simp only [digits, List.take_succ_cons, List.take_zero, List.map_cons, List.map_nil,
    List.cons_append, List.nil_append] at hnumber ⊢
  rw [Alphabet.decode, if_pos ⟨rfl, rfl⟩, if_neg hpad, hnumber, Option.bind_some, if_pos hmod, hn]

/-- A quantum of one octet. -/
theorem decode_two [DecidableEq α] (h : n < 2 ^ 24) (hzero : n % 65536 = 0) :
    A.decode (((digits n).take 2).map A.symbol ++ [A.pad, A.pad]) =
      some ((octets n).take 1) := by
  have hnumber := number_digits_two (A := A) h
  have hmod : n / 4096 % 16 = 0 := by omega
  have hn : n / 4096 * 4096 = n := by omega
  simp only [digits, List.take_succ_cons, List.take_zero, List.map_cons, List.map_nil,
    List.cons_append, List.nil_append] at hnumber ⊢
  rw [Alphabet.decode, if_pos ⟨rfl, rfl⟩, if_pos rfl, hnumber, Option.bind_some, if_pos hmod, hn]

theorem decode_encode [DecidableEq α] (A : Alphabet α) (bytes : List UInt8) :
    A.decode (A.encode bytes) = some bytes := by
  induction bytes using Alphabet.encode.induct with
  | case1 => rfl
  | case2 b₀ =>
      have hzero : ofOctets b₀ 0 0 % 65536 = 0 := by
        simp only [ofOctets, UInt8.toNat_zero]
        omega
      rw [Alphabet.encode, decode_two (ofOctets_lt b₀ 0 0) hzero, octets_ofOctets]
      rfl
  | case3 b₀ b₁ =>
      have hzero : ofOctets b₀ b₁ 0 % 256 = 0 := by
        simp only [ofOctets, UInt8.toNat_zero]
        omega
      rw [Alphabet.encode, decode_three (ofOctets_lt b₀ b₁ 0) hzero, octets_ofOctets]
      rfl
  | case4 b₀ b₁ b₂ rest ih =>
      rw [Alphabet.encode, decode_quantum (ofOctets_lt b₀ b₁ b₂), ih, octets_ofOctets]
      rfl

/-- Different octets have different texts. -/
theorem encode_injective (A : Alphabet α) : Function.Injective A.encode := by
  classical
  intro bytes bytes' h
  have hdecode := congrArg A.decode h
  rw [decode_encode, decode_encode] at hdecode
  exact Option.some.inj hdecode

end Alphabet

end LibConn.Base64
