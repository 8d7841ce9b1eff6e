import Mathlib.Logic.Basic

/-! # Runs of partial step functions

`step s a = none` means that the action `a` is not available in `s`. A run is the
list of the actions taken; the two predicates below speak about every state it
passes through and about every step it takes. -/

namespace LibConn.Run

variable {σ τ α : Type*}

/-- `P` holds in the start state and in every state that the run reaches. -/
def Along (step : σ → α → Option σ) (P : σ → Prop) : σ → List α → Prop
  | s, [] => P s
  | s, a :: as => P s ∧ ∀ t, step s a = some t → Along step P t as

/-- Every step that the run takes meets `guard` in the state it is taken from. -/
def Meets (step : σ → α → Option σ) (guard : σ → α → Prop) : σ → List α → Prop
  | _, [] => True
  | s, a :: as => ∀ t, step s a = some t → guard s a ∧ Meets step guard t as

/-- Every step that the run comes to meets `guard`, whether it is available or not. -/
def Attempts (step : σ → α → Option σ) (guard : σ → α → Prop) : σ → List α → Prop
  | _, [] => True
  | s, a :: as => guard s a ∧ ∀ t, step s a = some t → Attempts step guard t as

/-- The state after the run, when every step of it was available. -/
def exec (step : σ → α → Option σ) : σ → List α → Option σ
  | s, [] => some s
  | s, a :: as => (step s a).bind fun t => exec step t as

theorem exec_append (step : σ → α → Option σ) (s : σ) (as bs : List α) :
    exec step s (as ++ bs) = (exec step s as).bind fun t => exec step t bs := by
  induction as generalizing s with
  | nil => rfl
  | cons a as ih =>
      rw [List.cons_append, exec, exec, Option.bind_assoc]
      exact congrArg _ (funext ih)

theorem exec_concat (step : σ → α → Option σ) (s : σ) (as : List α) (a : α) :
    exec step s (as ++ [a]) = (exec step s as).bind fun t => step t a := by
  rw [exec_append]
  exact congrArg _ (funext fun t => Option.bind_fun_some (step t a))

/-- Two runs whose steps go together. `R` relates the states, and what is left to do. -/
theorem exec_rel {step : σ → α → Option σ} {step' : τ → α → Option τ}
    {R : σ → τ → List α → Prop}
    (hstep : ∀ s t a as, R s t (a :: as) → Option.Rel (R · · as) (step s a) (step' t a))
    {s : σ} {t : τ} {as : List α} (h : R s t as) :
    Option.Rel (R · · []) (exec step s as) (exec step' t as) := by
  induction as generalizing s t with
  | nil => exact .some h
  | cons a as ih =>
      have hnext := hstep s t a as h
      rw [exec, exec]
      generalize step s a = u, step' t a = v at hnext
      cases hnext with
      | none => exact .none
      | some h => exact ih h

variable {step : σ → α → Option σ} {P Q : σ → Prop} {guard : σ → α → Prop}

theorem Along.start {s : σ} {as : List α} (h : Along step P s as) : P s := by
  cases as with
  | nil => exact h
  | cons a as => exact h.1

theorem Along.mono (hPQ : ∀ s, P s → Q s) {s : σ} {as : List α}
    (h : Along step P s as) : Along step Q s as := by
  induction as generalizing s with
  | nil => exact hPQ s h
  | cons a as ih => exact ⟨hPQ s h.1, fun t ht => ih (h.2 t ht)⟩

/-- The last state of an available run is one of the states the run passes through. -/
theorem Along.exec {s t : σ} {as : List α} (h : Along step P s as)
    (ht : exec step s as = some t) : P t := by
  induction as generalizing s with
  | nil =>
      obtain rfl : s = t := Option.some.inj ht
      exact h
  | cons a as ih =>
      obtain ⟨u, hu, ht⟩ := Option.bind_eq_some_iff.mp ht
      exact ih (h.2 u hu) ht

theorem Meets.trivial {s : σ} (as : List α) : Meets step (fun _ _ => True) s as := by
  induction as generalizing s with
  | nil => exact True.intro
  | cons a as ih => exact fun t _ => ⟨True.intro, ih⟩

instance decidableMeets [∀ s a, Decidable (guard s a)] (s : σ) (as : List α) :
    Decidable (Meets step guard s as) :=
  match as with
  | [] => .isTrue True.intro
  | a :: as =>
      match h : step s a with
      | none => .isTrue fun t ht => absurd (h.symm.trans ht) (by simp)
      | some t =>
          have := decidableMeets t as
          decidable_of_iff (guard s a ∧ Meets step guard t as)
            ⟨fun hand u hu => by
                obtain rfl := Option.some.inj (h.symm.trans hu)
                exact hand,
              fun hmeets => hmeets t h⟩

theorem Meets.cons {s t : σ} {a : α} {as : List α} (ht : step s a = some t) (hg : guard s a)
    (h : Meets step guard t as) : Meets step guard s (a :: as) := by
  intro u hu
  obtain rfl : t = u := Option.some.inj (ht.symm.trans hu)
  exact ⟨hg, h⟩

/-- What an invariant shows that guarded steps preserve holds along every guarded run. The invariant
may tell of the rest of the run. -/
theorem along_of_meets_rest {I : σ → List α → Prop} (hP : ∀ s as, I s as → P s)
    (hI : ∀ s a as t, I s (a :: as) → guard s a → step s a = some t → I t as)
    {s : σ} {as : List α} (h0 : I s as) (h : Meets step guard s as) : Along step P s as := by
  induction as generalizing s with
  | nil => exact hP s [] h0
  | cons a as ih =>
      refine ⟨hP s _ h0, fun t ht => ?_⟩
      obtain ⟨hg, hrest⟩ := h t ht
      exact ih (hI s a as t h0 hg ht) hrest

/-- An invariant that guarded steps preserve holds along every guarded run. -/
theorem along_of_meets {I : σ → Prop}
    (hstep : ∀ s a t, I s → guard s a → step s a = some t → I t)
    {s : σ} {as : List α} (h0 : I s) (h : Meets step guard s as) : Along step I s as :=
  along_of_meets_rest (I := fun s _ => I s) (fun _ _ h => h) (fun s a _ => hstep s a) h0 h

theorem Attempts.cons {s t : σ} {a : α} {as : List α} (hg : guard s a) (ht : step s a = some t)
    (h : Attempts step guard t as) : Attempts step guard s (a :: as) := by
  refine ⟨hg, fun u hu => ?_⟩
  obtain rfl : t = u := Option.some.inj (ht.symm.trans hu)
  exact h

theorem Attempts.of_append {s : σ} {as bs : List α} (h : Attempts step guard s (as ++ bs)) :
    Attempts step guard s as := by
  induction as generalizing s with
  | nil => exact True.intro
  | cons a as ih => exact ⟨h.1, fun t ht => ih (h.2 t ht)⟩

/-- Where guarded steps are available and keep the invariant, a guarded run goes through. The
invariant may tell of what the run has done. -/
theorem exec_of_attempts {I : List α → σ → Prop}
    (hstep : ∀ done s a, I done s → guard s a → ∃ t, step s a = some t ∧ I (done ++ [a]) t)
    {done : List α} {s : σ} {as : List α} (h0 : I done s) (h : Attempts step guard s as) :
    ∃ t, exec step s as = some t ∧ I (done ++ as) t := by
  induction as generalizing done s with
  | nil => exact ⟨s, rfl, by rwa [List.append_nil]⟩
  | cons a as ih =>
      obtain ⟨t, ht, hI⟩ := hstep done s a h0 h.1
      obtain ⟨u, hu, hlast⟩ := ih hI (h.2 t ht)
      refine ⟨u, by rw [exec, ht, Option.bind_some, hu], ?_⟩
      rwa [← List.append_cons] at hlast

/-- What guarded steps from a state with the invariant show, every step of a guarded run shows. -/
theorem meets_of_meets {I : σ → Prop} {shown : σ → α → Prop}
    (hstep : ∀ s a t, I s → guard s a → step s a = some t → I t)
    (hshown : ∀ s a t, I s → guard s a → step s a = some t → shown s a)
    {s : σ} {as : List α} (h0 : I s) (h : Meets step guard s as) : Meets step shown s as := by
  induction as generalizing s with
  | nil => exact True.intro
  | cons a as ih =>
      intro t ht
      obtain ⟨hg, hrest⟩ := h t ht
      exact ⟨hshown s a t h0 hg ht, ih (hstep s a t h0 hg ht) hrest⟩

/-- When the guard is exactly what a step needs to keep `P`, a run keeps `P` to its end
exactly when it meets the guard throughout. `I` carries what `P` leaves out, and what is
known of the rest of the run. -/
theorem along_iff_meets_rest {I : σ → List α → Prop} (hP : ∀ s as, I s as → P s)
    (hI : ∀ s a as t, I s (a :: as) → guard s a → step s a = some t → I t as)
    (hguard : ∀ s a as t, I s (a :: as) → step s a = some t → P t → guard s a)
    {s : σ} (as : List α) (h0 : I s as) : Along step P s as ↔ Meets step guard s as := by
  refine ⟨fun h => ?_, along_of_meets_rest hP hI h0⟩
  induction as generalizing s with
  | nil => exact True.intro
  | cons a as ih =>
      intro t ht
      have hg : guard s a := hguard s a as t h0 ht (h.2 t ht).start
      exact ⟨hg, ih (hI s a as t h0 hg ht) (h.2 t ht)⟩

/-- The same with an invariant that does not look ahead. -/
theorem along_iff_meets {I : σ → Prop} (hP : ∀ s, I s → P s)
    (hI : ∀ s a t, I s → guard s a → step s a = some t → I t)
    (hguard : ∀ s a t, I s → step s a = some t → P t → guard s a)
    {s : σ} (as : List α) (h0 : I s) : Along step P s as ↔ Meets step guard s as :=
  along_iff_meets_rest (fun s _ => hP s) (fun s a _ => hI s a) (fun s a _ => hguard s a) as h0

end LibConn.Run
