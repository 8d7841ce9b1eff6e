import Mathlib.Data.Nat.Basic

/-! # Numerals that are read with a limit

A reader of digits stops before it multiplies a number above `limit`. What it accepts is decided by
the value alone. -/

namespace LibConn.Numerals

/-- The value of digits behind those of `n`. -/
def value (base n : ℕ) (digits : List ℕ) : ℕ :=
  digits.foldl (fun n d => n * base + d) n

/-- The digits one by one, as long as the number in front of them is within the limit. -/
def read (base limit : ℕ) : ℕ → List ℕ → Option ℕ
  | n, [] => some n
  | n, d :: digits => if limit < n then none else read base limit (n * base + d) digits

variable {base limit n d : ℕ} {digits : List ℕ}

@[simp] theorem value_nil : value base n [] = n :=
  rfl

@[simp] theorem value_cons : value base n (d :: digits) = value base (n * base + d) digits :=
  rfl

theorem le_value (hbase : 0 < base) (n : ℕ) (digits : List ℕ) : n ≤ value base n digits := by
  induction digits generalizing n with
  | nil => exact le_rfl
  | cons d digits ih =>
      calc n ≤ n * base := Nat.le_mul_of_pos_right n hbase
        _ ≤ n * base + d := Nat.le_add_right _ d
        _ ≤ value base n (d :: digits) := ih _

theorem le_value_div (hbase : 0 < base) (n d : ℕ) (digits : List ℕ) :
    n ≤ value base n (d :: digits) / base := by
  rw [Nat.le_div_iff_mul_le hbase]
  exact Nat.le_trans (Nat.le_add_right _ d) (le_value hbase _ digits)

/-- A numeral is read exactly where it is one digit or its value stays within the limit. -/
theorem read_eq (hdigits : ∀ d ∈ digits, d < base) :
    read base limit n digits =
      if digits = [] ∨ value base n digits / base ≤ limit then some (value base n digits)
      else none := by
  induction digits generalizing n with
  | nil => rw [if_pos (.inl rfl)]; rfl
  | cons d digits ih =>
      obtain ⟨hd, hrest⟩ := List.forall_mem_cons.mp hdigits
      have hbase : 0 < base := Nat.zero_lt_of_lt hd
      have hle := le_value_div hbase n d digits
      have hfirst : value base (n * base + d) [] / base = n := by
        rw [value_nil, Nat.mul_comm, Nat.mul_add_div hbase, Nat.div_eq_of_lt hd, Nat.add_zero]
      rw [read, ih hrest, value_cons]
      rw [value_cons] at hle
      by_cases hall : value base (n * base + d) digits / base ≤ limit
      · rw [if_neg (by omega), if_pos (.inr hall), if_pos (.inr hall)]
      · have hcons : ¬ (d :: digits = [] ∨ value base (n * base + d) digits / base ≤ limit) := by
          rintro (hnil | hlast)
          · cases hnil
          · exact hall hlast
        rw [if_neg hcons]
        by_cases hlimit : limit < n
        · rw [if_pos hlimit]
        · rw [if_neg hlimit, if_neg]
          rintro (rfl | hlast)
          · exact hall (by omega)
          · exact hall hlast

end LibConn.Numerals
