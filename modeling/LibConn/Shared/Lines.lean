import Mathlib.Data.List.DropRight
import Mathlib.Data.List.Infix

/-! # Lines

A text whose lines end in the pair `cr`, `lf`, up to an empty one, and the parts of a line. -/

namespace LibConn.Lines

variable {α : Type*}

/-! ## Line ends -/

section Head

variable {cr lf : α} {line text rest behind : List α} {lines : List (List α)}

/-- No line end stands in `text`. -/
def Unbroken (cr lf : α) (text : List α) : Prop :=
  ¬ [cr, lf] <:+: text

instance decidableUnbroken [DecidableEq α] : Decidable (Unbroken cr lf text) :=
  inferInstanceAs (Decidable (¬ [cr, lf] <:+: text))

theorem Unbroken.within (h : Unbroken cr lf text) (hsub : line <:+: text) :
    Unbroken cr lf line := fun hbroken => h (hbroken.trans hsub)

theorem unbroken_of_length_le_one (h : text.length ≤ 1) : Unbroken cr lf text := by
  intro hbroken
  have hlen := hbroken.length_le
  simp only [List.length_cons, List.length_nil] at hlen
  omega

@[simp] theorem unbroken_nil : Unbroken cr lf [] :=
  unbroken_of_length_le_one (Nat.zero_le 1)

@[simp] theorem unbroken_singleton (a : α) : Unbroken cr lf [a] :=
  unbroken_of_length_le_one (Nat.le_refl 1)

theorem unbroken_cons_cons {a b : α} :
    Unbroken cr lf (a :: b :: text) ↔ ¬ (a = cr ∧ b = lf) ∧ Unbroken cr lf (b :: text) := by
  rw [Unbroken, List.infix_cons_iff, List.cons_prefix_cons, List.cons_prefix_cons, not_or]
  simp [Unbroken, eq_comm]

theorem unbroken_cons {a : α} (ha : a ≠ cr) (h : Unbroken cr lf text) :
    Unbroken cr lf (a :: text) := by
  cases text with
  | nil => exact unbroken_singleton a
  | cons b text => exact unbroken_cons_cons.mpr ⟨fun hpair => ha hpair.1, h⟩

/-- Neither side is broken, nor is the seam. -/
theorem unbroken_append {a : α} (hline : Unbroken cr lf line)
    (htext : Unbroken cr lf (a :: text)) (hseam : ∀ b ∈ line.getLast?, ¬ (b = cr ∧ a = lf)) :
    Unbroken cr lf (line ++ a :: text) := by
  induction line with
  | nil => exact htext
  | cons b line ih =>
      cases line with
      | nil => exact unbroken_cons_cons.mpr ⟨hseam b rfl, htext⟩
      | cons c line =>
          obtain ⟨hpair, hline⟩ := unbroken_cons_cons.mp hline
          rw [List.getLast?_cons_cons] at hseam
          exact unbroken_cons_cons.mpr ⟨hpair, ih hline hseam⟩

/-- In front of `text` stands nothing that could begin a line end. -/
theorem Unbroken.append_left (hcr : cr ∉ line) (h : Unbroken cr lf text) :
    Unbroken cr lf (line ++ text) := by
  induction line with
  | nil => exact h
  | cons a line ih =>
      obtain ⟨ha, hline⟩ := not_or.mp (List.mem_cons.not.mp hcr)
      exact unbroken_cons (Ne.symm ha) (ih hline)

theorem unbroken_of_notMem (hcr : cr ∉ text) : Unbroken cr lf text := fun h =>
  hcr (h.subset List.mem_cons_self)

/-- Behind `line` stands nothing that could end a line end. -/
theorem Unbroken.append_right (h : Unbroken cr lf line) (hlf : lf ∉ text) :
    Unbroken cr lf (line ++ text) := by
  cases text with
  | nil => rwa [List.append_nil]
  | cons a text =>
      have htext : Unbroken cr lf (a :: text) := fun hbroken =>
        hlf (hbroken.subset (List.mem_cons_of_mem _ (List.mem_singleton_self _)))
      refine unbroken_append h htext fun b _ hpair => hlf ?_
      rw [hpair.2]
      exact List.mem_cons_self

/-- What is broken has a first line end. -/
theorem exists_of_broken (h : ¬ Unbroken cr lf text) (hne : cr ≠ lf) :
    ∃ before behind, text = before ++ cr :: lf :: behind ∧ Unbroken cr lf before := by
  induction text with
  | nil => exact absurd unbroken_nil h
  | cons a text ih =>
      by_cases hrest : Unbroken cr lf text
      · cases text with
        | nil => exact absurd (unbroken_singleton a) h
        | cons b text =>
            have hpair : a = cr ∧ b = lf := by
              by_contra hpair
              exact h (unbroken_cons_cons.mpr ⟨hpair, hrest⟩)
            obtain ⟨rfl, rfl⟩ := hpair
            exact ⟨[], text, rfl, unbroken_nil⟩
      · obtain ⟨before, behind, rfl, hbefore⟩ := ih hrest
        cases before with
        | nil =>
            exact ⟨[a], behind, rfl, unbroken_singleton a⟩
        | cons b before =>
            by_cases hpair : a = cr ∧ b = lf
            · obtain ⟨rfl, rfl⟩ := hpair
              exact ⟨[], before ++ a :: b :: behind, rfl, unbroken_nil⟩
            · exact ⟨a :: b :: before, behind, rfl, unbroken_cons_cons.mpr ⟨hpair, hbefore⟩⟩

variable [DecidableEq α]

/-- The lines of `line ++ text` up to the first empty one, and what is behind that. Of the first
line, `line` has been read. -/
def head (cr lf : α) (line : List α) : List α → Option (List (List α) × List α)
  | a :: b :: rest =>
      if a = cr ∧ b = lf then
        if line = [] then some ([], rest)
        else (head cr lf [] rest).map fun (lines, behind) => (line :: lines, behind)
      else head cr lf (line ++ [a]) (b :: rest)
  | _ => none

/-- A text without a line end belongs to the first line. -/
theorem head_unbroken (hne : cr ≠ lf) (h : Unbroken cr lf text) :
    head cr lf line (text ++ cr :: lf :: rest) = head cr lf (line ++ text) (cr :: lf :: rest) := by
  induction text generalizing line with
  | nil => rw [List.append_nil, List.nil_append]
  | cons a text ih =>
      cases text with
      | nil =>
          have hpair : ¬ (a = cr ∧ cr = lf) := fun hpair => hne hpair.2
          rw [List.cons_append, List.nil_append, head, if_neg hpair]
      | cons b text =>
          obtain ⟨hpair, htext⟩ := unbroken_cons_cons.mp h
          rw [List.cons_append, List.cons_append, head, if_neg hpair, ← List.cons_append, ih htext,
            List.append_assoc, List.singleton_append]

/-- The first line of a text. -/
theorem head_line (hne : cr ≠ lf) (h : Unbroken cr lf line) (hline : line ≠ []) :
    head cr lf [] (line ++ cr :: lf :: rest) =
      (head cr lf [] rest).map fun (lines, behind) => (line :: lines, behind) := by
  rw [head_unbroken hne h, List.nil_append, head, if_pos ⟨rfl, rfl⟩, if_neg hline]

theorem head_empty : head cr lf [] (cr :: lf :: rest) = some ([], rest) := by
  rw [head, if_pos ⟨rfl, rfl⟩, if_pos rfl]

/-- Lines are read back in front of whatever follows them. -/
theorem head_lines (hne : cr ≠ lf) (h : ∀ line ∈ lines, Unbroken cr lf line ∧ line ≠ []) :
    head cr lf [] (lines.flatMap (· ++ [cr, lf]) ++ rest) =
      (head cr lf [] rest).map fun (lines', behind) => (lines ++ lines', behind) := by
  induction lines with
  | nil => simp
  | cons line lines ih =>
      obtain ⟨hline, hrest⟩ := List.forall_mem_cons.mp h
      have hfirst : ∀ more, head cr lf [] (line ++ cr :: lf :: more) = _ :=
        fun more => head_line hne hline.1 hline.2
      rw [List.flatMap_cons, List.append_assoc, List.append_assoc, List.cons_append,
        List.cons_append, List.nil_append, hfirst, ih hrest, Option.map_map]
      rfl

/-- What was read is what stood there. -/
theorem eq_of_head (h : head cr lf line text = some (lines, behind)) :
    line ++ text = lines.flatMap (· ++ [cr, lf]) ++ cr :: lf :: behind := by
  fun_induction head cr lf line text generalizing lines with
  | case1 a b rest hpair =>
      obtain ⟨rfl, rfl⟩ := hpair
      obtain ⟨rfl, rfl⟩ := Prod.mk.inj (Option.some.inj h)
      rfl
  | case2 line a b rest hpair hline ih =>
      obtain ⟨rfl, rfl⟩ := hpair
      obtain ⟨⟨lines', behind'⟩, hrest, heq⟩ := Option.map_eq_some_iff.mp h
      obtain ⟨rfl, rfl⟩ := Prod.mk.inj heq
      rw [List.flatMap_cons, List.append_assoc, ← ih hrest]
      simp
  | case3 line a b rest hpair ih =>
      rw [← ih h, List.append_assoc, List.singleton_append]
  | case4 line text hshort => exact absurd h (by simp)

/-- Lines that were read hold no line end. -/
theorem unbroken_of_head (h : head cr lf line text = some (lines, behind))
    (hfirst : Unbroken cr lf (line ++ text.take 1)) : ∀ l ∈ lines, Unbroken cr lf l := by
  fun_induction head cr lf line text generalizing lines with
  | case1 a b rest hpair =>
      obtain ⟨rfl, rfl⟩ := Prod.mk.inj (Option.some.inj h)
      exact List.forall_mem_nil _
  | case2 line a b rest hpair hline ih =>
      obtain ⟨⟨lines', behind'⟩, hrest, heq⟩ := Option.map_eq_some_iff.mp h
      obtain ⟨rfl, rfl⟩ := Prod.mk.inj heq
      have hlater : Unbroken cr lf ([] ++ rest.take 1) :=
        unbroken_of_length_le_one (List.length_take_le 1 rest)
      exact List.forall_mem_cons.mpr
        ⟨hfirst.within (List.prefix_append _ _).isInfix, ih hrest hlater⟩
  | case3 line a b rest hpair ih =>
      have hnext : Unbroken cr lf (line ++ [a] ++ [b]) :=
        unbroken_append hfirst (unbroken_singleton b) (by simpa using hpair)
      exact ih h hnext
  | case4 line text hshort => exact absurd h (by simp)

end Head

/-! ## The parts of a line -/

section Cut

variable [DecidableEq α] {sep : α} {line before behind : List α}

/-- What stands before and behind the first `sep`. -/
def cut (sep : α) : List α → Option (List α × List α)
  | [] => none
  | a :: rest =>
      if a = sep then some ([], rest)
      else (cut sep rest).map fun (before, behind) => (a :: before, behind)

theorem cut_append (h : sep ∉ before) :
    cut sep (before ++ sep :: behind) = some (before, behind) := by
  induction before with
  | nil => rw [List.nil_append, cut, if_pos rfl]
  | cons a before ih =>
      obtain ⟨ha, hbefore⟩ := not_or.mp (List.mem_cons.not.mp h)
      rw [List.cons_append, cut, if_neg (Ne.symm ha), ih hbefore]
      rfl

theorem cut_some (h : cut sep line = some (before, behind)) :
    line = before ++ sep :: behind ∧ sep ∉ before := by
  induction line generalizing before with
  | nil => exact absurd h (by simp [cut])
  | cons a line ih =>
      rw [cut] at h
      by_cases ha : a = sep
      · rw [if_pos ha] at h
        obtain ⟨rfl, rfl⟩ := Prod.mk.inj (Option.some.inj h)
        exact ⟨congrArg (· :: line) ha, List.not_mem_nil⟩
      · rw [if_neg ha] at h
        obtain ⟨⟨before', behind'⟩, hrest, heq⟩ := Option.map_eq_some_iff.mp h
        obtain ⟨rfl, rfl⟩ := Prod.mk.inj heq
        obtain ⟨rfl, hnot⟩ := ih hrest
        exact ⟨rfl, List.mem_cons.not.mpr (not_or.mpr ⟨Ne.symm ha, hnot⟩)⟩

theorem cut_eq_none_iff : cut sep line = none ↔ sep ∉ line := by
  induction line with
  | nil => simp [cut]
  | cons a line ih =>
      by_cases ha : a = sep
      · simp [cut, ha]
      · simp [cut, ha, ih, Ne.symm ha]

end Cut

section Trim

variable {blank : α → Bool} {text : List α}

/-- The text without the blanks at its ends. -/
def trim (blank : α → Bool) (text : List α) : List α :=
  (text.dropWhile blank).rdropWhile blank

/-- A text without blanks at its ends. -/
structure Tight (blank : α → Bool) (text : List α) : Prop where
  head : ∀ a ∈ text.head?, blank a = false
  last : ∀ a ∈ text.getLast?, blank a = false

theorem trim_within : trim blank text <:+: text :=
  (List.rdropWhile_prefix blank _).isInfix.trans (List.dropWhile_suffix blank).isInfix

theorem trim_cons {a : α} (ha : blank a = true) : trim blank (a :: text) = trim blank text := by
  rw [trim, List.dropWhile_cons_of_pos ha, trim]

theorem trim_tight : Tight blank (trim blank text) := by
  constructor
  · intro a ha
    obtain ⟨rest, hrest⟩ := List.rdropWhile_prefix blank (text.dropWhile blank)
    have hfirst : (text.dropWhile blank).head? = some a := by
      rw [← hrest, List.head?_append]
      exact Option.or_eq_some_iff.mpr (.inl ha)
    have hkept := List.head?_dropWhile_not blank text
    rw [hfirst] at hkept
    exact hkept
  · intro a ha
    have hne : trim blank text ≠ [] := by
      rintro hnil
      simp [hnil] at ha
    have hlast : (trim blank text).getLast hne = a :=
      Option.some.inj ((List.getLast?_eq_some_getLast hne).symm.trans ha)
    have hkept := List.rdropWhile_last_not blank (text.dropWhile blank) hne
    rw [← hlast]
    exact eq_false_of_ne_true hkept

theorem Tight.trim_eq (h : Tight blank text) : trim blank text = text := by
  have hhead : text.dropWhile blank = text := by
    cases text with
    | nil => rfl
    | cons a text => exact List.dropWhile_cons_of_neg (by simp [h.head a rfl])
  rw [trim, hhead, List.rdropWhile_eq_self_iff]
  intro hne
  simp [h.last _ (List.getLast?_eq_some_getLast hne)]

end Trim

end LibConn.Lines
