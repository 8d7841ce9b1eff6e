import Mathlib.Data.List.Basic
import Mathlib.Data.List.Chain

/-! # Neighbours that join

Where a producer may hand out a piece whole or in parts, two of its outputs are compared after
neighbouring parts are joined. `join` says which elements join, and to what. -/

namespace LibConn.Merging

variable {α : Type*}

/-- Joining is associative, and an element joins with a neighbour before and after it has joined
with another one. -/
structure Associative (join : α → α → Option α) : Prop where
  joined : ∀ {a b c ab bc}, join a b = some ab → join b c = some bc →
    ∃ abc, join a bc = some abc ∧ join ab c = some abc
  apart : ∀ {a b c ab}, join a b = some ab → join b c = none → join ab c = none

/-- `a` in front of a list, joined with its first element where that is possible. -/
def push (join : α → α → Option α) (a : α) : List α → List α
  | [] => [a]
  | b :: rest =>
      match join a b with
      | some ab => ab :: rest
      | none => a :: b :: rest

def merge (join : α → α → Option α) (l : List α) : List α :=
  l.foldr (push join) []

variable {join : α → α → Option α}

@[simp] theorem merge_nil : merge join [] = [] :=
  rfl

theorem merge_cons (a : α) (l : List α) : merge join (a :: l) = push join a (merge join l) :=
  rfl

theorem merge_append (l l' : List α) :
    merge join (l ++ l') = l.foldr (push join) (merge join l') :=
  List.foldr_append

theorem push_of_none {a b : α} (h : join a b = none) (l : List α) :
    push join a (b :: l) = a :: b :: l := by
  simp only [push, h]

theorem push_of_some {a b ab : α} (h : join a b = some ab) (l : List α) :
    push join a (b :: l) = ab :: l := by
  simp only [push, h]

/-- Whoever reads two elements as what they join to reads a merged list as the list. -/
theorem foldl_merge {β : Type*} {f : β → α → β}
    (hf : ∀ {a b ab}, join a b = some ab → ∀ s, f (f s a) b = f s ab) (l : List α) (s : β) :
    (merge join l).foldl f s = l.foldl f s := by
  induction l generalizing s with
  | nil => rfl
  | cons a l ih =>
      rw [merge_cons, List.foldl_cons, ← ih]
      cases merge join l with
      | nil => rfl
      | cons b rest =>
          cases h : join a b with
          | none => rw [push_of_none h, List.foldl_cons]
          | some ab => rw [push_of_some h, List.foldl_cons, List.foldl_cons, hf h]

/-- A list in which no neighbours join is merged already. -/
theorem merge_eq_self {l : List α} (h : l.IsChain fun a b => join a b = none) :
    merge join l = l := by
  induction l with
  | nil => rfl
  | cons a l ih =>
      obtain ⟨hhead, hrest⟩ := List.isChain_cons.mp h
      rw [merge_cons, ih hrest]
      cases l with
      | nil => rfl
      | cons b l => exact push_of_none (hhead b rfl) l

section Associative

variable (hjoin : Associative join)

include hjoin

theorem push_push {a b ab : α} (h : join a b = some ab) (l : List α) :
    push join a (push join b l) = push join ab l := by
  cases l with
  | nil => exact push_of_some h []
  | cons c l =>
      cases hbc : join b c with
      | none => rw [push_of_none hbc, push_of_some h, push_of_none (hjoin.apart h hbc)]
      | some bc =>
          obtain ⟨abc, hleft, hright⟩ := hjoin.joined h hbc
          rw [push_of_some hbc, push_of_some hleft, push_of_some hright]

theorem foldr_push (a : α) (l base : List α) :
    (push join a l).foldr (push join) base = push join a (l.foldr (push join) base) := by
  cases l with
  | nil => rfl
  | cons b l =>
      cases hab : join a b with
      | none => rw [push_of_none hab, List.foldr_cons]
      | some ab =>
          rw [push_of_some hab, List.foldr_cons, List.foldr_cons, push_push hjoin hab]

/-- Merging a front part first makes no difference. -/
theorem foldr_merge (l base : List α) :
    (merge join l).foldr (push join) base = l.foldr (push join) base := by
  induction l with
  | nil => rfl
  | cons a l ih => rw [merge_cons, foldr_push hjoin, ih, List.foldr_cons]

theorem merge_congr {l l' r r' : List α} (hl : merge join l = merge join l')
    (hr : merge join r = merge join r') : merge join (l ++ r) = merge join (l' ++ r') := by
  rw [merge_append, merge_append, hr, ← foldr_merge hjoin l, hl, foldr_merge hjoin]

theorem merge_joined {a b ab : α} (h : join a b = some ab) (l r : List α) :
    merge join (l ++ a :: b :: r) = merge join (l ++ ab :: r) := by
  rw [merge_append, merge_append, merge_cons, merge_cons, merge_cons, push_push hjoin h]

end Associative

/-! ## Parts of a merged list -/

/-- A nonempty list whose elements join to one. -/
inductive JoinsTo (join : α → α → Option α) : List α → α → Prop where
  | single (a : α) : JoinsTo join [a] a
  | cons {a b ab : α} {parts : List α} : JoinsTo join parts b → join a b = some ab →
      JoinsTo join (a :: parts) ab

/-- A list cut into parts that join to the elements of another. -/
def Spread (join : α → α → Option α) (l target : List α) : Prop :=
  ∃ groups : List (List α), l = groups.flatten ∧ List.Forall₂ (JoinsTo join) groups target

/-- What a list is merged to comes from consecutive parts of it. -/
theorem spread_merge (l : List α) : Spread join l (merge join l) := by
  induction l with
  | nil => exact ⟨[], rfl, .nil⟩
  | cons a l ih =>
      obtain ⟨groups, rfl, hgroups⟩ := ih
      rw [merge_cons]
      cases hmerge : merge join groups.flatten with
      | nil =>
          rw [hmerge] at hgroups
          cases hgroups
          exact ⟨[[a]], rfl, .cons (.single a) .nil⟩
      | cons b rest =>
          rw [hmerge] at hgroups
          cases hgroups with
          | @cons parts _ groups _ hparts hrest =>
              cases hab : join a b with
              | none =>
                  rw [push_of_none hab]
                  exact ⟨[a] :: parts :: groups, rfl, .cons (.single a) (.cons hparts hrest)⟩
              | some ab =>
                  rw [push_of_some hab]
                  exact ⟨(a :: parts) :: groups, rfl, .cons (.cons hparts hab) hrest⟩

theorem spread_nil {l : List α} (h : Spread join l []) : l = [] := by
  obtain ⟨groups, rfl, hgroups⟩ := h
  cases hgroups
  rfl

theorem spread_cons {l target : List α} {a : α} (h : Spread join l (a :: target)) :
    ∃ parts rest, l = parts ++ rest ∧ JoinsTo join parts a ∧ Spread join rest target := by
  obtain ⟨groups, rfl, hgroups⟩ := h
  cases hgroups with
  | @cons parts _ groups _ hparts hrest =>
      exact ⟨parts, groups.flatten, rfl, hparts, groups, rfl, hrest⟩

theorem spread_append {l target target' : List α} (h : Spread join l (target ++ target')) :
    ∃ front rest, l = front ++ rest ∧ Spread join front target ∧ Spread join rest target' := by
  induction target generalizing l with
  | nil => exact ⟨[], l, rfl, ⟨[], rfl, .nil⟩, h⟩
  | cons a target ih =>
      obtain ⟨parts, behind, rfl, hparts, hbehind⟩ := spread_cons h
      obtain ⟨front, rest, rfl, ⟨groups, rfl, hgroups⟩, hrest⟩ := ih hbehind
      refine ⟨parts ++ groups.flatten, rest, ?_, ⟨parts :: groups, rfl, .cons hparts hgroups⟩,
        hrest⟩
      rw [List.append_assoc]

end LibConn.Merging
