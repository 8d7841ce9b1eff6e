import Mathlib.Logic.Equiv.Basic
import Mathlib.Order.Lattice

/-! # Heap order of the positions of a binary tree

Position `i` has the children `2 * i + 1` and `2 * i + 2`. `r i j` says that the entry at
`i` comes before the entry at `j`, so an exchange of two entries is a renaming of the
positions. The loops that restore the order each repair it at one position at a time. -/

namespace LibConn.TreeOrder

def parent (i : ℕ) : ℕ :=
  (i - 1) / 2

theorem parent_lt {i : ℕ} (h : 0 < i) : parent i < i := by
  unfold parent
  omega

theorem eq_or_eq_of_parent_eq {i k : ℕ} (h0 : 0 < i) (h : parent i = k) :
    i = 2 * k + 1 ∨ i = 2 * k + 2 := by
  unfold parent at h
  omega

/-- The entries at the first `n` positions are weakly ordered by `r`. -/
structure WeakOn (r : ℕ → ℕ → Prop) (n : ℕ) : Prop where
  asymm : ∀ i j, r i j → ¬ r j i
  negTrans : ∀ i j k, j < n → ¬ r i j → ¬ r j k → ¬ r i k

/-- The order after the entries at `i` and `j` have changed places. -/
def exchanged (r : ℕ → ℕ → Prop) (i j : ℕ) : ℕ → ℕ → Prop :=
  fun x y => r (Equiv.swap i j x) (Equiv.swap i j y)

/-- No child comes before its parent. -/
def Ordered (r : ℕ → ℕ → Prop) (n : ℕ) : Prop :=
  ∀ i, 0 < i → i < n → ¬ r i (parent i)

/-- Only edges at `k` are out of order, and none would be if `k` were cut out. -/
structure Broken (r : ℕ → ℕ → Prop) (n k : ℕ) : Prop where
  off : ∀ i, 0 < i → i < n → i ≠ k → parent i ≠ k → ¬ r i (parent i)
  across : ∀ i, 0 < i → i < n → parent i = k → 0 < k → ¬ r i (parent k)

/-- Only the edge that enters `k` may be out of order. -/
structure UpReady (r : ℕ → ℕ → Prop) (n k : ℕ) : Prop extends Broken r n k where
  below : ∀ i, 0 < i → i < n → parent i = k → ¬ r i k

/-- Only the edges that leave `k` may be out of order. -/
structure DownReady (r : ℕ → ℕ → Prop) (n k : ℕ) : Prop extends Broken r n k where
  above : 0 < k → ¬ r k (parent k)

variable {r : ℕ → ℕ → Prop} {n k : ℕ}

theorem WeakOn.trans (h : WeakOn r n) {i j l : ℕ} (hl : l < n) (hij : r i j) (hjl : r j l) :
    r i l := by
  by_contra hil
  exact h.negTrans i l j hl hil (h.asymm j l hjl) hij

/-- The root comes before no entry that it should follow. -/
theorem Ordered.root (hr : WeakOn r n) (h : Ordered r n) {i : ℕ} (hi : i < n) : ¬ r i 0 := by
  induction i using Nat.strong_induction_on with
  | _ i ih =>
      rcases Nat.eq_zero_or_pos i with rfl | hpos
      · exact fun h00 => hr.asymm 0 0 h00 h00
      · have hlt := parent_lt hpos
        exact hr.negTrans i (parent i) 0 (by omega) (h i hpos hi) (ih _ hlt (by omega))

theorem Ordered.broken (hr : WeakOn r n) (h : Ordered r n) (hk : k < n) : Broken r n k where
  off i hpos hi _ _ := h i hpos hi
  across i hpos hi hparent hkpos := by
    have hedge := h i hpos hi
    rw [hparent] at hedge
    exact hr.negTrans i k (parent k) hk hedge (h k hkpos hk)

theorem Ordered.upReady (hr : WeakOn r n) (h : Ordered r n) (hk : k < n) : UpReady r n k where
  toBroken := h.broken hr hk
  below i hpos hi hparent := by
    have hedge := h i hpos hi
    rwa [hparent] at hedge

theorem UpReady.ordered (h : UpReady r n k) (hstop : 0 < k → ¬ r k (parent k)) :
    Ordered r n := by
  intro i hpos hi
  by_cases hik : i = k
  · subst hik
    exact hstop hpos
  · by_cases hparent : parent i = k
    · rw [hparent]
      exact h.below i hpos hi hparent
    · exact h.off i hpos hi hik hparent

theorem DownReady.ordered (h : DownReady r n k)
    (hstop : ∀ i, 0 < i → i < n → parent i = k → ¬ r i k) : Ordered r n :=
  UpReady.ordered ⟨h.toBroken, hstop⟩ h.above

/-! ## One exchange -/

theorem exchanged_of_ne {i j x y : ℕ} (hxi : x ≠ i) (hxj : x ≠ j) (hyi : y ≠ i) (hyj : y ≠ j) :
    exchanged r i j x y ↔ r x y := by
  rw [exchanged, Equiv.swap_apply_of_ne_of_ne hxi hxj, Equiv.swap_apply_of_ne_of_ne hyi hyj]

/-- An entry that comes before its parent moves up. -/
theorem UpReady.exchange (hr : WeakOn r n) (h : UpReady r n k) (hpos : 0 < k) (hk : k < n)
    (hlt : r k (parent k)) : UpReady (exchanged r k (parent k)) n (parent k) := by
  have hpk : parent k < k := parent_lt hpos
  have hgrand : 0 < parent k → ¬ r (parent k) (parent (parent k)) := by
    intro hppos
    have hpp := parent_lt hppos
    exact h.off (parent k) hppos (by omega) (by omega) (by omega)
  refine ⟨⟨?_, ?_⟩, ?_⟩
  · intro i hi0 hi hip hpip
    by_cases hik : i = k
    · exact absurd (congrArg parent hik) hpip
    · by_cases hpik : parent i = k
      · rw [exchanged, hpik, Equiv.swap_apply_left, Equiv.swap_apply_of_ne_of_ne hik hip]
        exact h.across i hi0 hi hpik hpos
      · rw [exchanged_of_ne hik hip hpik hpip]
        exact h.off i hi0 hi hik hpik
  · intro i hi0 hi hpip hppos
    have hpp := parent_lt hppos
    rw [exchanged, Equiv.swap_apply_of_ne_of_ne (x := parent (parent k)) (by omega) (by omega)]
    by_cases hik : i = k
    · rw [hik, Equiv.swap_apply_left]
      exact hgrand hppos
    · have hpi := parent_lt hi0
      rw [Equiv.swap_apply_of_ne_of_ne hik (by omega)]
      have hedge := h.off i hi0 hi hik (by omega)
      rw [hpip] at hedge
      exact hr.negTrans i (parent k) _ (by omega) hedge (hgrand hppos)
  · intro i hi0 hi hpip
    rw [exchanged, Equiv.swap_apply_right]
    by_cases hik : i = k
    · rw [hik, Equiv.swap_apply_left]
      exact hr.asymm k (parent k) hlt
    · have hpi := parent_lt hi0
      rw [Equiv.swap_apply_of_ne_of_ne hik (by omega)]
      -- a sibling before `k` would be before the old parent too
      have hedge := h.off i hi0 hi hik (by omega)
      rw [hpip] at hedge
      exact fun hik' => hedge (hr.trans (by omega) hik' hlt)

/-- The least child moves up into a broken position. -/
theorem Broken.exchange (hr : WeakOn r n) (h : Broken r n k) {c : ℕ} (hpos : 0 < c) (hc : c < n)
    (hparent : parent c = k) (hlt : r c k)
    (hleast : ∀ i, 0 < i → i < n → parent i = k → ¬ r i c) :
    DownReady (exchanged r k c) n c := by
  have hkc : k < c := hparent ▸ parent_lt hpos
  refine ⟨⟨?_, ?_⟩, ?_⟩
  · intro i hi0 hi hic hpic
    have hpi := parent_lt hi0
    by_cases hik : i = k
    · rw [hik] at hi0 hpi ⊢
      rw [exchanged, Equiv.swap_apply_left, Equiv.swap_apply_of_ne_of_ne (by omega) (by omega)]
      exact h.across c hpos hc hparent hi0
    · by_cases hpik : parent i = k
      · rw [exchanged, hpik, Equiv.swap_apply_left, Equiv.swap_apply_of_ne_of_ne hik hic]
        exact hleast i hi0 hi hpik
      · rw [exchanged_of_ne hik hic hpik hpic]
        exact h.off i hi0 hi hik hpik
  · intro i hi0 hi hpic _
    have hpi := parent_lt hi0
    rw [exchanged, hparent, Equiv.swap_apply_left,
      Equiv.swap_apply_of_ne_of_ne (by omega) (by omega)]
    have hedge := h.off i hi0 hi (by omega) (by omega)
    rwa [hpic] at hedge
  · intro _
    rw [exchanged, hparent, Equiv.swap_apply_left, Equiv.swap_apply_right]
    exact hr.asymm c k hlt

theorem WeakOn.exchanged {i j : ℕ} (h : WeakOn r n) (hi : i < n) (hj : j < n) :
    WeakOn (exchanged r i j) n where
  asymm x y := h.asymm _ _
  negTrans x y z hy := by
    apply h.negTrans
    rw [Equiv.swap_apply_def]
    split_ifs <;> omega

end LibConn.TreeOrder
