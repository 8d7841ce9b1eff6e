import LibConn.Model.Http
import LibConn.Shared.Lines

/-! # Reading a message

HTTP/1.1 as a peer reads it, for comparison with what the source writes: a first line, lines
that each name a field, an empty line, and as many bytes as the field Content-Length says. -/

namespace LibConn.Http

open LibConn.Lines

/-! ## Numbers -/

/-- A number in decimal digits. -/
def decimal (text : Bytes) : Option ℕ :=
  if text ≠ [] ∧ text.all fun b => 48 ≤ b && b ≤ 57 then
    some (text.foldl (fun n b => 10 * n + (b.toNat - 48)) 0)
  else none

theorem all_digits_iff {text : Bytes} :
    (text.all fun b => 48 ≤ b && b ≤ 57) = true ↔ ∀ b ∈ text, 48 ≤ b ∧ b ≤ 57 := by
  simp only [List.all_eq_true, Bool.and_eq_true, decide_eq_true_eq]

theorem decimal_repr (n : ℕ) : decimal (ascii n.repr) = some n := by
  have hdigit : ∀ c ∈ Nat.toDigits 10 n, 48 ≤ c.toNat ∧ c.toNat ≤ 57 := fun c hc =>
    Char.isDigit_iff_toNat.mp (Nat.isDigit_of_mem_toDigits (by decide) (by decide) hc)
  have hbyte : ∀ c ∈ Nat.toDigits 10 n, c.toUInt8.toNat = c.toNat := by
    intro c hc
    have hc' := hdigit c hc
    have hmod : c.toUInt8.toNat = c.toNat % 256 := UInt32.toNat_toUInt8 c.val
    omega
  have hascii : ascii n.repr = (Nat.toDigits 10 n).map Char.toUInt8 := by
    rw [ascii, Nat.toList_repr]
  have hdigits : ∀ b ∈ (Nat.toDigits 10 n).map Char.toUInt8, 48 ≤ b ∧ b ≤ 57 := by
    intro b hb
    obtain ⟨c, hc, rfl⟩ := List.mem_map.mp hb
    have hc' := hdigit c hc
    rw [UInt8.le_iff_toNat_le, UInt8.le_iff_toNat_le, hbyte c hc]
    exact hc'
  rw [decimal, hascii, if_pos ⟨by simp [Nat.toDigits_ne_nil], all_digits_iff.mpr hdigits⟩,
    List.foldl_map]
  have hfold : (Nat.toDigits 10 n).foldl (fun m c => 10 * m + (c.toUInt8.toNat - 48)) 0 =
      (Nat.toDigits 10 n).foldl (fun m c => 10 * m + (c.toNat - 48)) 0 :=
    List.foldl_ext _ _ _ fun m c hc => by rw [hbyte c hc]
  rw [hfold]
  exact congrArg some (Nat.ofDigitChars_eq_foldl.symm.trans Nat.ofDigitChars_ten_toDigits)

theorem formatInt_of_lt {n : ℕ} (h : n < 2 ^ 31) : formatInt n = ascii n.repr := by
  have hint : (n : ℤ).bmod (2 ^ 32) = n := by
    rw [Int.bmod_def]
    split_ifs <;> omega
  rw [formatInt, hint]
  rfl

theorem formatInt_cases (n : ℕ) :
    (∃ k : ℕ, k < 2 ^ 31 ∧ formatInt n = ascii k.repr) ∨
      ∃ k : ℕ, formatInt n = 45 :: ascii k.repr := by
  have hhigh : (n : ℤ).bmod (2 ^ 32) < 2 ^ 31 := by
    rw [Int.bmod_def]
    split_ifs <;> omega
  rw [formatInt]
  cases hprinted : (n : ℤ).bmod (2 ^ 32) with
  | ofNat k =>
      rw [hprinted] at hhigh
      have hlt : ((k : ℕ) : ℤ) < 2 ^ 31 := hhigh
      exact .inl ⟨k, by omega, rfl⟩
  | negSucc k =>
      refine .inr ⟨k + 1, ?_⟩
      rw [Int.toString_eq_repr, Int.repr_eq_if, if_neg (by omega), ascii, String.toList_append]
      rfl

theorem decimal_formatInt_iff (n : ℕ) : decimal (formatInt n) = some n ↔ n < 2 ^ 31 := by
  constructor
  · intro h
    rcases formatInt_cases n with ⟨k, hk, hformat⟩ | ⟨k, hformat⟩
    · rw [hformat, decimal_repr] at h
      exact Option.some.inj h ▸ hk
    · -- the sign is no digit
      rw [hformat, decimal, if_neg (by simp)] at h
      exact absurd h (by simp)
  · intro h
    rw [formatInt_of_lt h, decimal_repr]

theorem digit_of_decimal {text : Bytes} {n : ℕ} (h : decimal text = some n) :
    ∀ b ∈ text, 48 ≤ b ∧ b ≤ 57 :=
  all_digits_iff.mp (Option.ite_none_right_eq_some.mp h).1.2

theorem le_of_mem_formatInt {n : ℕ} : ∀ b ∈ formatInt n, 33 ≤ b := by
  have hdigit : ∀ k : ℕ, ∀ b ∈ ascii k.repr, 33 ≤ b := fun k b hb =>
    le_trans (by decide) (digit_of_decimal (decimal_repr k) b hb).1
  rcases formatInt_cases n with ⟨k, -, hformat⟩ | ⟨k, hformat⟩
  · rw [hformat]
    exact hdigit k
  · rw [hformat]
    exact List.forall_mem_cons.mpr ⟨by decide, hdigit k⟩

/-! ## Fields -/

/-- SP and HTAB, which do not belong to a value where they stand around it. -/
def blank (b : UInt8) : Bool :=
  b = 32 || b = 9

def contentLength : Bytes :=
  ascii "Content-Length"

/-- The line that spells a field. -/
def fieldLine (field : Bytes × Bytes) : Bytes :=
  field.1 ++ ascii ": " ++ field.2

/-- A line split at its first colon. -/
def readField (line : Bytes) : Option (Bytes × Bytes) :=
  (cut 58 line).map fun (name, value) => (name, trim blank value)

def readFields : List Bytes → Option (List (Bytes × Bytes))
  | [] => some []
  | line :: lines => (readField line).bind fun field => (readFields lines).map (field :: ·)

/-- The name is Content-Length, in any case. -/
def isContentLength (field : Bytes × Bytes) : Bool :=
  field.1.map toLower = contentLength.map toLower

/-- What the fields Content-Length say, if they agree. -/
def framing (fields : List (Bytes × Bytes)) : Option ℕ :=
  match (fields.filter isContentLength).map fun field => decimal field.2 with
  | some n :: more => if ∀ m ∈ more, m = some n then some n else none
  | _ => none

/-- A field that its line spells. -/
structure Spellable (field : Bytes × Bytes) : Prop where
  name : Unbroken 13 10 field.1
  colon : 58 ∉ field.1
  value : Unbroken 13 10 field.2
  tight : Tight blank field.2

variable {field : Bytes × Bytes} {fields : List (Bytes × Bytes)} {line : Bytes}
  {lines : List Bytes}

theorem fieldLine_eq (name value : Bytes) :
    fieldLine (name, value) = name ++ 58 :: 32 :: value := by
  rw [fieldLine, List.append_assoc]
  rfl

theorem fieldLine_ne_nil (field : Bytes × Bytes) : fieldLine field ≠ [] := by
  simp [fieldLine_eq field.1 field.2]

theorem readField_fieldLine {name : Bytes} (h : 58 ∉ name) (value : Bytes) :
    readField (fieldLine (name, value)) = some (name, trim blank value) := by
  rw [fieldLine_eq, readField, cut_append h, Option.map_some]
  exact congrArg (fun value => some (name, value)) (trim_cons rfl)

theorem Spellable.readField (h : Spellable field) :
    readField (fieldLine field) = some field := by
  rw [readField_fieldLine h.colon, h.tight.trim_eq]

theorem fieldLine_unbroken {name value : Bytes} (hname : Unbroken 13 10 name)
    (hvalue : Unbroken 13 10 value) : Unbroken 13 10 (fieldLine (name, value)) := by
  have hrest : Unbroken 13 10 (58 :: 32 :: value) :=
    unbroken_cons (by decide) (unbroken_cons (by decide) hvalue)
  rw [fieldLine_eq]
  exact unbroken_append hname hrest (by simp)

theorem spellable_of_readField (h : readField line = some field) (hline : Unbroken 13 10 line) :
    Spellable field := by
  obtain ⟨⟨name, value⟩, hcut, rfl⟩ := Option.map_eq_some_iff.mp h
  obtain ⟨rfl, hcolon⟩ := cut_some hcut
  have hname : name <:+: name ++ 58 :: value := (List.prefix_append _ _).isInfix
  have hvalue : value <:+: name ++ 58 :: value :=
    (List.suffix_cons 58 value).isInfix.trans (List.suffix_append _ _).isInfix
  exact ⟨hline.within hname, hcolon, hline.within (trim_within.trans hvalue), trim_tight⟩

theorem spellable_of_plain {name value : Bytes} (hname : ∀ b ∈ name, 33 ≤ b) (hcolon : 58 ∉ name)
    (hvalue : ∀ b ∈ value, 33 ≤ b) : Spellable (name, value) := by
  have hcr : ∀ text : Bytes, (∀ b ∈ text, 33 ≤ b) → 13 ∉ text := fun text h hmem =>
    absurd (h 13 hmem) (by decide)
  have hblank : ∀ b ∈ value, blank b = false := by
    intro b hb
    by_contra hblank
    have hb' : b = 32 ∨ b = 9 := by simpa [blank, or_iff_not_imp_left] using hblank
    rcases hb' with rfl | rfl
    · exact absurd (hvalue 32 hb) (by decide)
    · exact absurd (hvalue 9 hb) (by decide)
  exact ⟨unbroken_of_notMem (hcr _ hname), hcolon, unbroken_of_notMem (hcr _ hvalue),
    fun b hb => hblank b (List.mem_of_mem_head? hb),
    fun b hb => hblank b (List.mem_of_mem_getLast? hb)⟩

theorem spellable_contentLength (n : ℕ) : Spellable (contentLength, formatInt n) :=
  spellable_of_plain (by decide +kernel) (by decide +kernel) le_of_mem_formatInt

theorem readFields_map (h : ∀ field ∈ fields, Spellable field) :
    readFields (fields.map fieldLine) = some fields := by
  induction fields with
  | nil => rfl
  | cons field fields ih =>
      obtain ⟨hfield, hrest⟩ := List.forall_mem_cons.mp h
      rw [List.map_cons, readFields, hfield.readField, ih hrest]
      rfl

theorem mem_of_readFields (h : readFields lines = some fields) :
    ∀ field ∈ fields, ∃ line ∈ lines, readField line = some field := by
  induction lines generalizing fields with
  | nil =>
      obtain rfl := Option.some.inj h
      exact List.forall_mem_nil _
  | cons line lines ih =>
      obtain ⟨first, hfirst, hlater⟩ := Option.bind_eq_some_iff.mp h
      obtain ⟨rest, hrest, rfl⟩ := Option.map_eq_some_iff.mp hlater
      refine List.forall_mem_cons.mpr ⟨⟨line, List.mem_cons_self, hfirst⟩, fun field hfield => ?_⟩
      obtain ⟨line', hline', hread⟩ := ih hrest field hfield
      exact ⟨line', List.mem_cons_of_mem _ hline', hread⟩

theorem colon_mem_of_readFields (h : readFields lines = some fields) :
    ∀ line ∈ lines, 58 ∈ line := by
  induction lines generalizing fields with
  | nil => exact List.forall_mem_nil _
  | cons line lines ih =>
      obtain ⟨field, hfield, hlater⟩ := Option.bind_eq_some_iff.mp h
      obtain ⟨rest, hrest, -⟩ := Option.map_eq_some_iff.mp hlater
      obtain ⟨⟨name, value⟩, hcut, -⟩ := Option.map_eq_some_iff.mp hfield
      obtain ⟨rfl, -⟩ := cut_some hcut
      exact List.forall_mem_cons.mpr ⟨by simp, ih hrest⟩

theorem framing_eq_some_iff {n : ℕ} :
    framing fields = some n ↔
      (∃ field ∈ fields, isContentLength field = true) ∧
        ∀ field ∈ fields, isContentLength field = true → decimal field.2 = some n := by
  have hmem : ∀ field, field ∈ fields.filter isContentLength ↔
      field ∈ fields ∧ isContentLength field = true := fun _ => List.mem_filter
  rw [framing]
  generalize fields.filter isContentLength = lengths at hmem
  cases lengths with
  | nil =>
      have hnone : ¬ ∃ field ∈ fields, isContentLength field = true := by
        rintro ⟨field, hfield⟩
        exact List.not_mem_nil ((hmem field).mpr hfield)
      simp [hnone]
  | cons first more =>
      have hfirst := (hmem first).mp List.mem_cons_self
      cases hdecimal : decimal first.2 with
      | none =>
          refine ⟨fun h => ?_, fun h => ?_⟩
          · simp [hdecimal] at h
          · exact absurd (hdecimal.symm.trans (h.2 first hfirst.1 hfirst.2)) (by simp)
      | some m =>
          have hall : (∀ field ∈ more, decimal field.2 = some m) ↔
              ∀ field ∈ fields, isContentLength field = true → decimal field.2 = some m := by
            constructor
            · intro h field hfield hlength
              rcases List.mem_cons.mp ((hmem field).mpr ⟨hfield, hlength⟩) with rfl | hmore
              · exact hdecimal
              · exact h field hmore
            · intro h field hfield
              have hfield' := (hmem field).mp (List.mem_cons_of_mem _ hfield)
              exact h field hfield'.1 hfield'.2
          have hagree : (∀ k ∈ more.map fun field => decimal field.2, k = some m) ↔
              ∀ field ∈ more, decimal field.2 = some m := List.forall_mem_map
          simp only [List.map_cons, hdecimal, hagree, hall, Option.ite_none_right_eq_some,
            Option.some.injEq]
          constructor
          · rintro ⟨h, rfl⟩
            exact ⟨⟨first, hfirst⟩, h⟩
          · rintro ⟨-, h⟩
            obtain rfl : m = n :=
              Option.some.inj (hdecimal.symm.trans (h first hfirst.1 hfirst.2))
            exact ⟨h, rfl⟩

/-! ## Messages -/

structure TextMessage where
  start : Bytes
  fields : List (Bytes × Bytes)
  body : Bytes
  deriving DecidableEq, Repr

/-- The message at the start of `text`, and the bytes behind it. -/
def readMessage (text : Bytes) : Option (TextMessage × Bytes) :=
  (head 13 10 [] text).bind fun (lines, behind) =>
    match lines with
    | [] => none
    | start :: lines =>
      (readFields lines).bind fun fields =>
        (framing fields).bind fun n =>
          if n ≤ behind.length then some (⟨start, fields, behind.take n⟩, behind.drop n) else none

/-- The text of a message: lines, an empty line, and the body. -/
def spell (lines : List Bytes) (body : Bytes) : Bytes :=
  lines.flatMap (· ++ [13, 10]) ++ 13 :: 10 :: body

variable {start body text rest : Bytes} {m : TextMessage}

theorem spell_cons (line : Bytes) (lines : List Bytes) (body : Bytes) :
    spell (line :: lines) body = line ++ 13 :: 10 :: spell lines body := by
  simp [spell]

theorem head_spell (h : ∀ line ∈ lines, Unbroken 13 10 line ∧ line ≠ []) :
    head 13 10 [] (spell lines body) = some (lines, body) := by
  rw [spell, head_lines (by decide) h, head_empty, Option.map_some]
  exact congrArg (fun lines => some (lines, body)) (List.append_nil lines)

theorem readMessage_spell (hstart : Unbroken 13 10 start ∧ start ≠ [])
    (hfields : ∀ field ∈ fields, Spellable field) (hframing : framing fields = some body.length) :
    readMessage (spell (start :: fields.map fieldLine) body) =
      some (⟨start, fields, body⟩, []) := by
  have hlines : ∀ line ∈ start :: fields.map fieldLine, Unbroken 13 10 line ∧ line ≠ [] := by
    refine List.forall_mem_cons.mpr ⟨hstart, List.forall_mem_map.mpr fun field hfield => ?_⟩
    obtain ⟨hname, -, hvalue, -⟩ := hfields field hfield
    exact ⟨fieldLine_unbroken hname hvalue, fieldLine_ne_nil field⟩
  simp only [readMessage, head_spell hlines, Option.bind_some, readFields_map hfields, hframing,
    Nat.le_refl, if_true, List.take_length, List.drop_length]

/-- What is read has fields that can be spelled again, and as many bytes as they say. -/
theorem readMessage_some (h : readMessage text = some (m, rest)) :
    (∀ field ∈ m.fields, Spellable field) ∧ framing m.fields = some m.body.length := by
  obtain ⟨⟨lines, behind⟩, hhead, h⟩ := Option.bind_eq_some_iff.mp h
  cases lines with
  | nil => exact absurd h (by simp)
  | cons start lines =>
      obtain ⟨fields, hfields, h⟩ := Option.bind_eq_some_iff.mp h
      obtain ⟨n, hframing, h⟩ := Option.bind_eq_some_iff.mp h
      obtain ⟨hlen, h⟩ := Option.ite_none_right_eq_some.mp h
      obtain ⟨rfl, -⟩ := Prod.mk.inj (Option.some.inj h)
      have hunbroken := unbroken_of_head hhead (unbroken_of_length_le_one (by simp))
      refine ⟨fun field hfield => ?_, ?_⟩
      · obtain ⟨line, hline, hread⟩ := mem_of_readFields hfields field hfield
        exact spellable_of_readField hread (hunbroken line (List.mem_cons_of_mem _ hline))
      · rw [hframing, List.length_take, Nat.min_eq_left hlen]

end LibConn.Http
