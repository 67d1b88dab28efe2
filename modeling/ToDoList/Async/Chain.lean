/-!
# Chains of callbacks

A program written in callback style hands a request to a service together
with the closure that runs on its answer. `Chain` is such a program from the
point it has reached: it waits for the answer of a request, invokes the
completion its caller passed in, has ended, or has trapped.
-/

namespace Async

/-- `Q` are the requests, `A q` the answers of `q`, `R` what a completion is
given and `T` the ways to trap. -/
inductive Chain {Q : Type} (A : Q → Type) (R T : Type) : Type
  | done
  | trap (t : T)
  | complete (r : R) (next : Chain A R T)
  | call (q : Q) (next : A q → Chain A R T)

namespace Chain

variable {Q : Type} {A : Q → Type} {R T : Type}

def ended : Chain A R T → Bool
  | done => true
  | trap _ => true
  | complete _ _ => false
  | call _ _ => false

def trapped : Chain A R T → Option T
  | trap t => some t
  | _ => none

def awaits : Chain A R T → Option Q
  | call q _ => some q
  | _ => none

@[simp] theorem ended_done : (done : Chain A R T).ended = true := rfl
@[simp] theorem ended_trap (t : T) : (trap t : Chain A R T).ended = true := rfl
@[simp] theorem ended_complete (r : R) (k : Chain A R T) : (complete r k).ended = false := rfl
@[simp] theorem ended_call (q : Q) (k : A q → Chain A R T) : (call q k).ended = false := rfl
@[simp] theorem awaits_call (q : Q) (k : A q → Chain A R T) : (call q k).awaits = some q := rfl
@[simp] theorem trapped_complete (r : R) (k : Chain A R T) : (complete r k).trapped = none := rfl

theorem awaits_of_ended {c : Chain A R T} (h : c.ended = true) : c.awaits = none := by
  cases c with
  | done => rfl
  | trap t => rfl
  | complete r k => cases h
  | call q k => cases h

/-! ## Where a chain can get to -/

inductive Leads : Chain A R T → Chain A R T → Prop
  | refl (c) : Leads c c
  | answer {c q k} : Leads c (call q k) → ∀ a : A q, Leads c (k a)
  | report {c r k} : Leads c (complete r k) → Leads c k

theorem Leads.trans {c d e : Chain A R T} (h : Leads c d) (h' : Leads d e) : Leads c e := by
  induction h' with
  | refl => exact h
  | answer _ a ih => exact .answer ih a
  | report _ ih => exact .report ih

theorem Leads.of_ended {c d : Chain A R T} (h : Leads c d) (hc : c.ended = true) : d = c := by
  induction h with
  | refl => rfl
  | answer _ _ ih => rw [← ih] at hc; cases hc
  | report _ ih => rw [← ih] at hc; cases hc

theorem Leads.keep {P : Chain A R T → Prop} {c d : Chain A R T} (h : Leads c d)
    (hq : ∀ q k, P (call q k) → ∀ a, P (k a)) (hr : ∀ r k, P (complete r k) → P k) (hc : P c) : P d := by
  induction h with
  | refl => exact hc
  | answer _ a ih => exact hq _ _ ih a
  | report _ ih => exact hr _ _ ih

/-! ## Completions -/

/-- What the completion is given when the outcomes of the successive requests
are `o 0`, `o 1`, and so on. -/
def completions : Chain A R T → (Nat → (q : Q) → A q) → List R
  | done, _ => []
  | trap _, _ => []
  | complete r k, o => r :: k.completions o
  | call q k, o => (k (o 0 q)).completions fun n => o (n + 1)

def trace : Chain A R T → (Nat → (q : Q) → A q) → List (Σ q, A q)
  | done, _ => []
  | trap _, _ => []
  | complete _ k, o => k.trace o
  | call q k, o => ⟨q, o 0 q⟩ :: (k (o 0 q)).trace fun n => o (n + 1)

def OneShot : Chain A R T → Prop
  | done => True
  | trap _ => True
  | complete _ k => k = done
  | call _ k => ∀ a, (k a).OneShot

/-- A completion that comes last comes exactly when no answer ends the chain
before it, and `P` tells which answers do not. -/
theorem OneShot.completions_eq_one {P : (q : Q) → A q → Prop} {c : Chain A R T} (h : c.OneShot)
    (hP : ∀ q k, c.Leads (call q k) → ∀ a, P q a ↔ (k a).ended = false) (o : Nat → (q : Q) → A q) :
    (c.completions o).length = 1 ↔ c.ended = false ∧ ∀ x ∈ c.trace o, P x.1 x.2 := by
  induction c generalizing o with
  | done => simp [completions]
  | trap t => simp [completions]
  | complete r k _ =>
    simp only [OneShot] at h
    subst h
    simp [completions, trace]
  | call q k ih =>
    have hk : ∀ q' k', (k (o 0 q)).Leads (call q' k') → ∀ a, P q' a ↔ (k' a).ended = false :=
      fun q' k' hl => hP q' k' ((Leads.answer (.refl _) _).trans hl)
    rw [completions, trace, ih _ (h _) hk]
    simp [hP q k (.refl _)]

theorem OneShot.leads {c d : Chain A R T} (h : Leads c d) (hc : c.OneShot) : d.OneShot := by
  refine h.keep (fun q k hk a => hk a) (fun r k hk => ?_) hc
  simp only [OneShot] at hk
  subst hk
  trivial

/-! ## A chain alone with its services -/

variable {σ : Type}

/-- `c` runs from `s` to its end in `s'`, is answered as `tr` records and
gives its completion `rs`. -/
inductive Exec (serve : σ → (q : Q) → A q → Option σ) :
    σ → Chain A R T → List (Σ q, A q) → σ → List R → Prop
  | done {s} : Exec serve s done [] s []
  | trap {s t} : Exec serve s (trap t) [] s []
  | complete {s r k tr s' rs} : Exec serve s k tr s' rs → Exec serve s (complete r k) tr s' (r :: rs)
  | call {s q k a s₁ tr s' rs} : serve s q a = some s₁ → Exec serve s₁ (k a) tr s' rs →
      Exec serve s (call q k) (⟨q, a⟩ :: tr) s' rs

section
variable {serve : σ → (q : Q) → A q → Option σ} {s s' : σ} {k : Chain A R T} {tr : List (Σ q, A q)} {rs : List R}

@[simp] theorem exec_done_iff : Exec serve s (done : Chain A R T) tr s' rs ↔ tr = [] ∧ s' = s ∧ rs = [] := by
  constructor
  · intro h; cases h; exact ⟨rfl, rfl, rfl⟩
  · intro hex
    obtain ⟨rfl, rfl, rfl⟩ := hex
    exact .done

@[simp] theorem exec_complete_iff {r : R} :
    Exec serve s (complete r k) tr s' rs ↔ ∃ rs', rs = r :: rs' ∧ Exec serve s k tr s' rs' := by
  constructor
  · intro h; cases h with
    | complete h => exact ⟨_, rfl, h⟩
  · intro hex
    obtain ⟨rs', rfl, h⟩ := hex
    exact .complete h

@[simp] theorem exec_call_iff {q : Q} {f : A q → Chain A R T} :
    Exec serve s (call q f) tr s' rs ↔
      ∃ a s₁ tr', serve s q a = some s₁ ∧ tr = ⟨q, a⟩ :: tr' ∧ Exec serve s₁ (f a) tr' s' rs := by
  constructor
  · intro h; cases h with
    | call hs h => exact ⟨_, _, _, hs, rfl, h⟩
  · intro hex
    obtain ⟨a, s₁, tr', hs, rfl, h⟩ := hex
    exact .call hs h

theorem Exec.keep {P : σ → Prop} {c : Chain A R T} (h : Exec serve s c tr s' rs)
    (hk : ∀ s q a s', P s → serve s q a = some s' → P s') (hs : P s) : P s' := by
  induction h with
  | done => exact hs
  | trap => exact hs
  | complete _ ih => exact ih hs
  | call hq _ ih => exact ih (hk _ _ _ _ hs hq)

end

end Chain

end Async
