import LibConn.Model.Http
import LibConn.Shared.Memory
import Mathlib.Data.List.TakeWhile

/-! # Strings

What a callee reads of a string, and of an array that holds one. -/

namespace LibConn.Http

open LibConn.Memory

theorem cStr_of_notMem {s : Bytes} (h : 0 ∉ s) : cStr s = s := by
  rw [cStr, List.takeWhile_eq_self_iff]
  intro b hb
  exact decide_eq_true fun hzero => h (hzero ▸ hb)

theorem cStr_starts (s : Bytes) : cStr s <+: s :=
  List.takeWhile_prefix _

theorem cStr_append_nul {text : Bytes} (h : 0 ∉ text) (behind : Bytes) :
    cStr (text ++ 0 :: behind) = text := by
  have hall : ∀ b ∈ text, decide (b ≠ 0) = true := by
    intro b hb
    exact decide_eq_true fun hzero => h (hzero ▸ hb)
  rw [cStr, List.takeWhile_append_of_pos hall, List.takeWhile_cons_of_neg (by decide),
    List.append_nil]

theorem cStr_slice {cells : ℕ → UInt8} {text : Bytes} {size : ℕ} (hnul : 0 ∉ text)
    (htext : slice cells 0 text.length = text) (hend : cells text.length = 0)
    (hsize : text.length < size) : cStr (slice cells 0 size) = text := by
  rw [← slice_append (Nat.zero_le _) hsize.le, htext, slice_cons hsize, hend]
  exact cStr_append_nul hnul _

/-- An array that a text was copied to, with the zero byte. -/
theorem cStr_copy (cells : ℕ → UInt8) {text behind : Bytes} {size : ℕ} (hnul : 0 ∉ text)
    (hsize : text.length < size) :
    cStr (slice (copy cells 0 (text ++ 0 :: behind)) 0 size) = text :=
  cStr_slice hnul (slice_copy_append _ _) (copy_append_cons _ _ _) hsize

end LibConn.Http
