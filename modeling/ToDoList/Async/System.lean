import Mathlib.Logic.Relation

/-!
# Labelled transition systems

Reachable states, runs whose steps all meet a condition, inductive
invariants, and runs seen through a view as the events of an abstract model.
-/

namespace Async

structure System (σ ℓ : Type) where
  init : σ → Prop
  step : σ → ℓ → σ → Prop

namespace System

variable {σ τ ℓ : Type}

inductive Reachable (S : System σ ℓ) : σ → Prop
  | init {s} : S.init s → Reachable S s
  | step {s l s'} : Reachable S s → S.step s l s' → Reachable S s'

/-- The runs of `S` whose steps all meet `ok`. -/
def restrict (S : System σ ℓ) (ok : σ → ℓ → σ → Prop) : System σ ℓ where
  init := S.init
  step s l s' := S.step s l s' ∧ ok s l s'

theorem Reachable.unrestrict {S : System σ ℓ} {ok : σ → ℓ → σ → Prop} {s : σ}
    (h : (S.restrict ok).Reachable s) : S.Reachable s := by
  induction h with
  | init h => exact .init h
  | step _ hs ih => exact .step ih hs.1

structure Invariant (S : System σ ℓ) (I : σ → Prop) : Prop where
  init : ∀ s, S.init s → I s
  step : ∀ s l s', I s → S.step s l s' → I s'

variable {S : System σ ℓ} {I J : σ → Prop}

theorem Invariant.holds (h : S.Invariant I) {s : σ} (hs : S.Reachable s) : I s := by
  induction hs with
  | init h0 => exact h.init _ h0
  | step _ hst ih => exact h.step _ _ _ ih hst

theorem Invariant.of_reachable (hi : ∀ s, S.init s → I s)
    (hst : ∀ s l s', S.Reachable s → I s → S.step s l s' → I s') {s : σ} (hs : S.Reachable s) : I s := by
  induction hs with
  | init h0 => exact hi _ h0
  | step hr hst' ih => exact hst _ _ _ hr ih hst'

def Steps (S : System σ ℓ) (ok : σ → ℓ → σ → Prop) : σ → σ → Prop :=
  Relation.ReflTransGen fun s s' => ∃ l, S.step s l s' ∧ ok s l s'

theorem Steps.keep {ok : σ → ℓ → σ → Prop} (hst : ∀ s l s', I s → S.step s l s' → ok s l s' → I s')
    {s s' : σ} (h : S.Steps ok s s') (hs : I s) : I s' := by
  induction h with
  | refl => exact hs
  | tail _ hl ih => obtain ⟨l, hl, hok⟩ := hl; exact hst _ _ _ ih hl hok

theorem Steps.reachable {ok : σ → ℓ → σ → Prop} {s s' : σ} (h : S.Steps ok s s') (hs : S.Reachable s) :
    S.Reachable s' :=
  Steps.keep (I := S.Reachable) (fun _ _ _ hr hst _ => .step hr hst) h hs

theorem Reachable.steps {s : σ} (hr : S.Reachable s) : ∃ s₀, S.init s₀ ∧ S.Steps (fun _ _ _ => True) s₀ s := by
  induction hr with
  | init h0 => exact ⟨_, h0, .refl⟩
  | step _ hst ih =>
    obtain ⟨s₀, h0, hsteps⟩ := ih
    exact ⟨s₀, h0, hsteps.tail ⟨_, hst, trivial⟩⟩

/-! ## Runs with their labels -/

/-- A run from `s₀` with its labels, the latest first. -/
inductive Run (S : System σ ℓ) (s₀ : σ) : List ℓ → σ → Prop
  | nil : Run S s₀ [] s₀
  | cons {h s l s'} : Run S s₀ h s → S.step s l s' → Run S s₀ (l :: h) s'

section
variable {s₀ s : σ} {l h : List ℓ}

theorem Run.reachable (hr : S.Run s₀ h s) (h0 : S.Reachable s₀) : S.Reachable s := by
  induction hr with
  | nil => exact h0
  | cons _ hst ih => exact ih.step hst

theorem Run.trans {s' : σ} {l : List ℓ} (hr : S.Run s₀ h s) (hl : S.Run s l s') : S.Run s₀ (l ++ h) s' := by
  induction hl with
  | nil => exact hr
  | cons _ hst ih => exact ih.cons hst

/-- Where each step is determined by its label, so is a run by its labels. -/
theorem Run.unique {t : σ} (hS : ∀ s l a b, S.step s l a → S.step s l b → a = b) (hs : S.Run s₀ h s)
    (ht : S.Run s₀ h t) : s = t := by
  induction hs generalizing t with
  | nil => cases ht; rfl
  | cons _ hst ih =>
    cases ht with
    | cons ht hst' =>
      obtain rfl := ih ht
      exact hS _ _ _ _ hst hst'

theorem Run.split (hr : S.Run s₀ (l ++ h) s) : ∃ m, S.Run s₀ h m ∧ S.Run m l s := by
  induction l generalizing s with
  | nil => exact ⟨s, hr, .nil⟩
  | cons e l ih =>
    cases hr with
    | cons hr hst =>
      obtain ⟨m, hm, hl⟩ := ih hr
      exact ⟨m, hm, hl.cons hst⟩

theorem Run.event {e : ℓ} (hr : S.Run s₀ (l ++ e :: h) s) : ∃ m m', S.Run s₀ h m ∧ S.step m e m' ∧
    S.Run m' l s := by
  obtain ⟨m', hm', hl⟩ := hr.split
  cases hm' with
  | cons hm hst => exact ⟨_, m', hm, hst, hl⟩

end

/-! ## Runs seen through a view -/

section
variable {κ : Type} {view : σ → τ} {next : τ → κ → τ} {made : σ → κ → Prop} {ok : σ → ℓ → σ → Prop} {s s' : σ}

/-- If each step leaves the view as it is or moves it by an event, then so does
each run by a list of events. -/
theorem Steps.events (h : S.Steps ok s s') (hs : S.Reachable s)
    (hst : ∀ s l s', S.Reachable s → S.step s l s' →
      view s' = view s ∨ ∃ e, made s e ∧ view s' = next (view s) e)
    (hkeep : ∀ s l s' e, S.step s l s' → made s e → made s' e) :
    ∃ es : List κ, (∀ e ∈ es, made s' e) ∧ view s' = es.foldl next (view s) := by
  induction h with
  | refl => exact ⟨[], fun e he => (by cases he), rfl⟩
  | @tail t t' hrun hl ih =>
    obtain ⟨l, hl, _⟩ := hl
    obtain ⟨es, hmade, hview⟩ := ih
    have hes : ∀ e ∈ es, made t' e := fun e he => hkeep _ _ _ e hl (hmade e he)
    rcases hst _ _ _ (Steps.reachable hrun hs) hl with hsame | ⟨e, he, hnext⟩
    · exact ⟨es, hes, by rw [hsame, hview]⟩
    · refine ⟨es ++ [e], fun x hx => ?_, by rw [hnext, hview, List.foldl_append]; rfl⟩
      rcases List.mem_append.mp hx with hx | hx
      · exact hes x hx
      · rw [List.mem_singleton.mp hx]
        exact hkeep _ _ _ e hl he

end

/-- If each step leaves the view as it is or is one of the abstract model, then
what is reached is seen as reached there. -/
theorem Reachable.view {κ : Type} {T : System τ κ} {view : σ → τ} (hi : ∀ s, S.init s → T.init (view s))
    (hst : ∀ s l s', S.Reachable s → S.step s l s' → view s' = view s ∨ ∃ e, T.step (view s) e (view s'))
    {s : σ} (hs : S.Reachable s) : T.Reachable (view s) := by
  induction hs with
  | init h0 => exact .init (hi _ h0)
  | @step s l s' hr hst' ih =>
    rcases hst s l s' hr hst' with hsame | ⟨e, he⟩
    · rw [hsame]
      exact ih
    · exact .step ih he

/-! ## Runs with their history -/

/-- Each state comes with the labels so far, the latest first. -/
def recorded (S : System σ ℓ) : System (σ × List ℓ) ℓ where
  init x := S.init x.1 ∧ x.2 = []
  step x l y := S.step x.1 l y.1 ∧ y.2 = l :: x.2

theorem Reachable.of_recorded {x : σ × List ℓ} (h : S.recorded.Reachable x) : S.Reachable x.1 := by
  induction h with
  | init h => exact .init h.1
  | step _ hs ih => exact .step ih hs.1

theorem recorded_step {s s' : σ} {l : ℓ} (h : List ℓ) (hst : S.step s l s') :
    S.recorded.step (s, h) l (s', l :: h) :=
  ⟨hst, rfl⟩

theorem Reachable.record {s s' : σ} {l : ℓ} {h : List ℓ} (hr : S.recorded.Reachable (s, h)) (hst : S.step s l s') :
    S.recorded.Reachable (s', l :: h) :=
  hr.step (recorded_step h hst)

theorem Reachable.recorded {s : σ} (hr : S.Reachable s) : ∃ h, S.recorded.Reachable (s, h) := by
  induction hr with
  | init h0 => exact ⟨[], .init ⟨h0, rfl⟩⟩
  | step _ hst ih =>
    obtain ⟨h, ih⟩ := ih
    exact ⟨_, ih.record hst⟩

theorem Run.recorded {s₀ s : σ} {h : List ℓ} (hr : S.Run s₀ h s) (h0 : S.init s₀) :
    S.recorded.Reachable (s, h) := by
  induction hr with
  | nil => exact .init ⟨h0, rfl⟩
  | cons _ hst ih => exact ih.record hst

/-- An event of a run was a step from a state with the history before it. -/
theorem Reachable.event {x : σ × List ℓ} (hr : S.recorded.Reachable x) {h₁ h₂ : List ℓ} {l : ℓ}
    (hx : x.2 = h₁ ++ l :: h₂) :
    ∃ s s', S.recorded.Reachable (s, h₂) ∧ S.step s l s' := by
  induction hr generalizing h₁ with
  | init h0 => rw [h0.2] at hx; simp at hx
  | @step x m y hr hst ih =>
    obtain ⟨hst, hy⟩ := hst
    rw [hx] at hy
    cases h₁ with
    | nil =>
      simp only [List.nil_append, List.cons.injEq] at hy
      obtain ⟨rfl, hh⟩ := hy
      refine ⟨x.1, y.1, ?_, hst⟩
      rw [hh]
      exact hr
    | cons k h₁ =>
      simp only [List.cons_append, List.cons.injEq] at hy
      exact ih hy.2.symm

end System

end Async
