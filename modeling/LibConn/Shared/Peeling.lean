import Mathlib.Data.List.Basic

/-! # Incremental decoders

A decoder looks at a buffer and either waits for more input, fails, or peels one item
off the front. Peeling as long as possible is a relation on buffers; a stream may
arrive in chunks, each of which is appended to what the previous one left. -/

namespace LibConn.Peeling

variable {β γ δ : Type*}

/-- What a decoder makes of a buffer. -/
inductive Outcome (β γ : Type*) where
  | wait
  | fail
  | item (x : γ) (rest : List β)

variable (peel : List β → Outcome β γ)

/-- Peeling the buffer to exhaustion yields the items and leaves a waiting rest. -/
inductive Drains : List β → List γ → List β → Prop where
  | wait {b} : peel b = .wait → Drains b [] b
  | item {b x rest xs b'} : peel b = .item x rest → Drains rest xs b' →
      Drains b (x :: xs) b'

/-- Chunks arrive one after another and each is peeled to exhaustion. -/
inductive Feeds : List β → List (List β) → List γ → List β → Prop where
  | nil (b) : Feeds b [] [] b
  | cons {b c cs xs b' ys b''} : Drains peel (b ++ c) xs b' → Feeds b' cs ys b'' →
      Feeds b (c :: cs) (xs ++ ys) b''

/-- Every buffer that peeling passes through satisfies `P`. -/
inductive Throughout (P : List β → Prop) : List β → Prop where
  | wait {b} : P b → peel b = .wait → Throughout P b
  | fail {b} : P b → peel b = .fail → Throughout P b
  | item {b x rest} : P b → peel b = .item x rest → Throughout P rest → Throughout P b

variable {peel}

theorem Drains.waits {b b' : List β} {xs : List γ} (h : Drains peel b xs b') :
    peel b' = .wait := by
  induction h with
  | wait h => exact h
  | item _ _ ih => exact ih

theorem Drains.unique {b b₁ b₂ : List β} {xs ys : List γ}
    (h₁ : Drains peel b xs b₁) (h₂ : Drains peel b ys b₂) : xs = ys ∧ b₁ = b₂ := by
  induction h₁ generalizing ys b₂ with
  | wait hw =>
      cases h₂ with
      | wait _ => exact ⟨rfl, rfl⟩
      | item hi _ => rw [hw] at hi; cases hi
  | item hi _ ih =>
      cases h₂ with
      | wait hw => rw [hi] at hw; cases hw
      | item hj hrest =>
          obtain ⟨rfl, rfl⟩ := Outcome.item.inj (hi.symm.trans hj)
          obtain ⟨rfl, rfl⟩ := ih hrest
          exact ⟨rfl, rfl⟩

/-- A waiting buffer has nothing more to give. -/
theorem Drains.of_wait {b b' : List β} {xs : List γ} (hw : peel b = .wait)
    (h : Drains peel b xs b') : xs = [] ∧ b' = b := by
  obtain ⟨rfl, rfl⟩ := h.unique (.wait hw)
  exact ⟨rfl, rfl⟩

/-- Feeding a waiting buffer leaves a waiting buffer. -/
theorem Feeds.waits {b b' : List β} {cs : List (List β)} {xs : List γ}
    (h : Feeds peel b cs xs b') (hw : peel b = .wait) : peel b' = .wait := by
  induction h with
  | nil => exact hw
  | cons hd _ ih => exact ih hd.waits

/-- Feeding in two parts. -/
theorem Feeds.split {cs cs' : List (List β)} {b b' : List β} {xs : List γ}
    (h : Feeds peel b (cs ++ cs') xs b') :
    ∃ ys zs b'', xs = ys ++ zs ∧ Feeds peel b cs ys b'' ∧ Feeds peel b'' cs' zs b' := by
  induction cs generalizing b xs with
  | nil => exact ⟨[], xs, b, rfl, .nil b, h⟩
  | cons c cs ih =>
      cases h with
      | @cons _ _ _ us _ vs _ hd hrest =>
          obtain ⟨ys, zs, b'', rfl, hys, hzs⟩ := ih hrest
          exact ⟨us ++ ys, zs, b'', (List.append_assoc ..).symm, .cons hd hys, hzs⟩

theorem Throughout.here {P : List β → Prop} {b : List β} (h : Throughout peel P b) : P b := by
  cases h <;> assumption

theorem Throughout.rest {P : List β → Prop} {b rest : List β} {x : γ}
    (h : Throughout peel P b) (hp : peel b = .item x rest) : Throughout peel P rest := by
  cases h with
  | wait _ hw => rw [hp] at hw; cases hw
  | fail _ hf => rw [hp] at hf; cases hf
  | item _ hi hrest =>
      obtain ⟨rfl, rfl⟩ := Outcome.item.inj (hp.symm.trans hi)
      exact hrest

/-- Encodings that peel off whole decode to their items, whatever follows each. -/
theorem drains_flatMap {encode : δ → List β} {decode : δ → γ} (hnil : peel [] = .wait)
    (hencode : ∀ f rest, peel (encode f ++ rest) = .item (decode f) rest) (fs : List δ) :
    Drains peel (fs.flatMap encode) (fs.map decode) [] := by
  induction fs with
  | nil => exact .wait hnil
  | cons f fs ih =>
      rw [List.flatMap_cons, List.map_cons]
      exact .item (hencode f _) ih

/-- A property of every encoding, whatever follows it, holds throughout their stream. -/
theorem throughout_flatMap {encode : δ → List β} {decode : δ → γ} {P : List β → Prop}
    (hnil : peel [] = .wait) (hempty : P [])
    (hencode : ∀ f rest, peel (encode f ++ rest) = .item (decode f) rest)
    (hP : ∀ f rest, P (encode f ++ rest)) (fs : List δ) :
    Throughout peel P (fs.flatMap encode) := by
  induction fs with
  | nil => exact .wait hempty hnil
  | cons f fs ih =>
      rw [List.flatMap_cons]
      exact .item (hP f _) (hencode f _) ih

/-- A decoder is extensible on buffers with property `P` when input that arrives later
neither changes an item nor makes up for a failure, and every item consumes input. -/
structure Extensible (peel : List β → Outcome β γ) (P : List β → Prop) : Prop where
  item_append : ∀ p q x rest, P (p ++ q) → peel p = .item x rest →
    peel (p ++ q) = .item x (rest ++ q)
  ne_fail : ∀ p q, P (p ++ q) → peel p ≠ .fail
  shrinks : ∀ p x rest, peel p = .item x rest → rest.length < p.length

variable {P : List β → Prop}

/-- A prefix of an acceptable stream drains, and leaves an acceptable stream. -/
theorem Extensible.exists_drains (he : Extensible peel P) (p q : List β)
    (h : Throughout peel P (p ++ q)) :
    ∃ xs b, Drains peel p xs b ∧ Throughout peel P (b ++ q) := by
  induction hn : p.length using Nat.strongRecOn generalizing p with
  | ind n ih =>
      cases hp : peel p with
      | wait => exact ⟨[], p, .wait hp, h⟩
      | fail => exact absurd hp (he.ne_fail p q h.here)
      | item x rest =>
          have happ := he.item_append p q x rest h.here hp
          obtain ⟨xs, b, hd, ht⟩ :=
            ih rest.length (hn ▸ he.shrinks p x rest hp) rest (h.rest happ) rfl
          exact ⟨x :: xs, b, .item hp hd, ht⟩

/-- Draining a prefix and then the rest is draining the whole. -/
theorem Extensible.drains_append (he : Extensible peel P) {p q b b' : List β}
    {xs ys : List γ} (h : Throughout peel P (p ++ q)) (h₁ : Drains peel p xs b)
    (h₂ : Drains peel (b ++ q) ys b') : Drains peel (p ++ q) (xs ++ ys) b' := by
  induction h₁ with
  | wait _ => exact h₂
  | item hp _ ih =>
      have happ := he.item_append _ q _ _ h.here hp
      exact .item happ (ih (h.rest happ) h₂)

/-- The items and the rest do not depend on how an acceptable stream is cut. -/
theorem Extensible.feeds_iff_drains (he : Extensible peel P) (cs : List (List β))
    (b b' : List β) (xs : List γ) (hw : peel b = .wait)
    (h : Throughout peel P (b ++ cs.flatten)) :
    Feeds peel b cs xs b' ↔ Drains peel (b ++ cs.flatten) xs b' := by
  induction cs generalizing b xs with
  | nil =>
      rw [List.flatten_nil, List.append_nil]
      constructor
      · intro hf
        cases hf
        exact .wait hw
      · intro hd
        obtain ⟨rfl, rfl⟩ := hd.of_wait hw
        exact .nil b'
  | cons c cs ih =>
      rw [List.flatten_cons, ← List.append_assoc] at h ⊢
      obtain ⟨ys, b₁, hd, ht⟩ := he.exists_drains (b ++ c) cs.flatten h
      constructor
      · intro hf
        cases hf with
        | cons hc hrest =>
            obtain ⟨rfl, rfl⟩ := hd.unique hc
            exact he.drains_append h hd ((ih _ _ hd.waits ht).mp hrest)
      · intro hall
        obtain ⟨zs, b₂, hd₂, -⟩ := he.exists_drains (b₁ ++ cs.flatten) [] (by simpa using ht)
        obtain ⟨rfl, rfl⟩ := hall.unique (he.drains_append h hd hd₂)
        exact .cons hd ((ih _ _ hd.waits ht).mpr hd₂)

end LibConn.Peeling
