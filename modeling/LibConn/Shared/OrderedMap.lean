import Mathlib.Order.Defs.LinearOrder
import Mathlib.Order.Lattice
import Mathlib.Data.List.Basic
import Mathlib.Data.List.Lex

/-! # Ordered maps

`std::map`: entries in increasing order of their keys, one for each key. -/

namespace LibConn

instance uInt8LinearOrder : LinearOrder UInt8 where
  le_refl := UInt8.le_refl
  le_trans _ _ _ := UInt8.le_trans
  lt_iff_le_not_ge a b := by rw [UInt8.not_le, and_iff_right_of_imp UInt8.le_of_lt]
  le_antisymm _ _ := UInt8.le_antisymm
  le_total := UInt8.le_total
  toDecidableLE := inferInstance

structure OrderedMap (κ υ : Type*) [LinearOrder κ] where
  entries : List (κ × υ)
  sorted : entries.Pairwise fun a b => a.1 < b.1

namespace OrderedMap

variable {κ υ : Type*} [LinearOrder κ]

def empty : OrderedMap κ υ :=
  ⟨[], .nil⟩

/-- Insertion into sorted entries; an entry with the same key is replaced. -/
def insertEntry (k : κ) (v : υ) : List (κ × υ) → List (κ × υ)
  | [] => [(k, v)]
  | e :: es =>
      if k < e.1 then (k, v) :: e :: es
      else if e.1 < k then e :: insertEntry k v es
      else (k, v) :: es

theorem mem_insertEntry {k : κ} {v : υ} {es : List (κ × υ)} {e : κ × υ}
    (h : e ∈ insertEntry k v es) : e = (k, v) ∨ e ∈ es := by
  induction es with
  | nil => exact .inl (List.mem_singleton.mp h)
  | cons e' es ih =>
      rw [insertEntry] at h
      split_ifs at h with hlt hgt
      · exact List.mem_cons.mp h
      · rcases List.mem_cons.mp h with rfl | h
        · exact .inr List.mem_cons_self
        · exact (ih h).imp_right (List.mem_cons_of_mem _)
      · exact (List.mem_cons.mp h).imp_right (List.mem_cons_of_mem _)

theorem pairwise_insertEntry {k : κ} {v : υ} {es : List (κ × υ)}
    (h : es.Pairwise fun a b => a.1 < b.1) :
    (insertEntry k v es).Pairwise fun a b => a.1 < b.1 := by
  induction es with
  | nil => exact List.pairwise_singleton _ _
  | cons e es ih =>
      obtain ⟨hhead, htail⟩ := List.pairwise_cons.mp h
      rw [insertEntry]
      split_ifs with hlt hgt
      · refine List.pairwise_cons.mpr ⟨fun a ha => ?_, h⟩
        rcases List.mem_cons.mp ha with rfl | ha
        · exact hlt
        · exact hlt.trans (hhead a ha)
      · refine List.pairwise_cons.mpr ⟨fun a ha => ?_, ih htail⟩
        rcases mem_insertEntry ha with rfl | ha
        · exact hgt
        · exact hhead a ha
      · obtain rfl : e.1 = k := le_antisymm (not_lt.mp hlt) (not_lt.mp hgt)
        exact List.pairwise_cons.mpr ⟨hhead, htail⟩

/-- `map[k] = v` -/
def set (m : OrderedMap κ υ) (k : κ) (v : υ) : OrderedMap κ υ :=
  ⟨insertEntry k v m.entries, pairwise_insertEntry m.sorted⟩

/-- `map.find(k)` -/
def find (m : OrderedMap κ υ) (k : κ) : Option υ :=
  (m.entries.find? fun e => e.1 = k).map Prod.snd

theorem mem_of_find {m : OrderedMap κ υ} {k : κ} {v : υ} (h : m.find k = some v) :
    (k, v) ∈ m.entries := by
  obtain ⟨e, he, rfl⟩ := Option.map_eq_some_iff.mp h
  obtain rfl : e.1 = k := by simpa using List.find?_some he
  exact List.mem_of_find?_eq_some he

theorem find_set_self (m : OrderedMap κ υ) (k : κ) (v : υ) : (m.set k v).find k = some v := by
  unfold find set
  dsimp only
  induction m.entries with
  | nil => simp [insertEntry]
  | cons e es ih =>
      rw [insertEntry]
      split_ifs with hlt hgt
      · simp
      · rw [List.find?_cons_of_neg (by simpa using hgt.ne), ih]
      · simp

theorem find_set_of_ne {k k' : κ} (m : OrderedMap κ υ) (v : υ) (hk : k ≠ k') :
    (m.set k v).find k' = m.find k' := by
  unfold find set
  dsimp only
  induction m.entries with
  | nil => simp [insertEntry, hk]
  | cons e es ih =>
      rw [insertEntry]
      split_ifs with hlt hgt
      · rw [List.find?_cons_of_neg (by simpa using hk)]
      · by_cases he : e.1 = k'
        · simp [he]
        · rw [List.find?_cons_of_neg (by simpa using he), ih,
            List.find?_cons_of_neg (by simpa using he)]
      · obtain rfl : e.1 = k := le_antisymm (not_lt.mp hlt) (not_lt.mp hgt)
        rw [List.find?_cons_of_neg (by simpa using hk), List.find?_cons_of_neg (by simpa using hk)]

theorem find_entry_of_sorted {k : κ} {v : υ} {es : List (κ × υ)}
    (hsorted : es.Pairwise fun a b => a.1 < b.1) (h : (k, v) ∈ es) :
    es.find? (fun e => e.1 = k) = some (k, v) := by
  induction es with
  | nil => exact absurd h List.not_mem_nil
  | cons e es ih =>
      obtain ⟨hhead, htail⟩ := List.pairwise_cons.mp hsorted
      rcases List.mem_cons.mp h with rfl | h
      · exact List.find?_cons_of_pos (by simp)
      · rw [List.find?_cons_of_neg (by simpa using (hhead _ h).ne)]
        exact ih htail h

theorem mem_entries_iff (m : OrderedMap κ υ) {k : κ} {v : υ} :
    (k, v) ∈ m.entries ↔ m.find k = some v := by
  refine ⟨fun h => ?_, mem_of_find⟩
  rw [find, find_entry_of_sorted m.sorted h]
  rfl

/-- A map is what can be found in it. -/
theorem ext_find {m m' : OrderedMap κ υ} (h : ∀ k, m.find k = m'.find k) : m = m' := by
  have hnodup : ∀ m : OrderedMap κ υ, m.entries.Nodup := fun m =>
    m.sorted.imp fun hlt heq => hlt.ne (congrArg Prod.fst heq)
  have hperm : m.entries.Perm m'.entries := by
    refine (List.perm_ext_iff_of_nodup (hnodup m) (hnodup m')).mpr ?_
    rintro ⟨k, v⟩
    rw [mem_entries_iff, mem_entries_iff, h]
  have hentries : m.entries = m'.entries :=
    hperm.eq_of_pairwise (fun _ _ _ _ hlt hgt => absurd hlt hgt.not_gt) m.sorted m'.sorted
  cases m
  cases m'
  congr

/-- A property of the entries is kept by setting an entry that has it. -/
theorem forall_set {p : κ × υ → Prop} {m : OrderedMap κ υ} {k : κ} {v : υ}
    (hm : ∀ e ∈ m.entries, p e) (hkv : p (k, v)) : ∀ e ∈ (m.set k v).entries, p e := by
  intro e he
  rcases mem_insertEntry he with rfl | he
  · exact hkv
  · exact hm e he

end OrderedMap

end LibConn
