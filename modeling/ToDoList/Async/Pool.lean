import Mathlib.Data.List.Basic
import ToDoList.Async.Chain
import ToDoList.Async.System

/-!
# Chains in flight over a shared state

A pool holds every call made so far, in the order of the calls, each with
what is left of its chain. Launches, answers, completions and events of the
environment interleave freely.
-/

namespace Async

variable {Q : Type} {A : Q → Type} {R T σ ι ε : Type}

/-- A call, named by `tag`, and what is left of its chain. -/
structure Task (ι : Type) {Q : Type} (A : Q → Type) (R T : Type) where
  tag : ι
  chain : Chain A R T

structure Pool (σ ι : Type) {Q : Type} (A : Q → Type) (R T : Type) where
  state : σ
  tasks : List (Task ι A R T)

/-- `n` is the number of the call an answer or a completion belongs to. -/
inductive Event (ι : Type) {Q : Type} (A : Q → Type) (R ε : Type) : Type
  | launch (i : ι)
  | serve (n : Nat) (i : ι) (q : Q) (a : A q)
  | deliver (n : Nat) (i : ι) (r : R)
  | env (e : ε)

structure Machine (σ ι : Type) {Q : Type} (A : Q → Type) (R T ε : Type) where
  body : ι → Chain A R T
  launch : σ → ι → σ → Prop
  serve : σ → ι → (q : Q) → A q → σ → Prop
  deliver : σ → ι → R → σ → Prop
  env : σ → ε → σ → Prop

namespace Pool

def Quiet (p : Pool σ ι A R T) : Prop := ∀ t ∈ p.tasks, t.chain.ended = true

theorem quiet_of_all {p : Pool σ ι A R T} (h : (p.tasks.all fun t => t.chain.ended) = true) : p.Quiet :=
  List.all_eq_true.mp h

end Pool

namespace Machine

inductive Step (M : Machine σ ι A R T ε) : Pool σ ι A R T → Event ι A R ε → Pool σ ι A R T → Prop
  | launch {s i s' ts} : M.launch s i s' → Step M ⟨s, ts⟩ (.launch i) ⟨s', ts ++ [⟨i, M.body i⟩]⟩
  | serve {s i q a k s' l r} : M.serve s i q a s' →
      Step M ⟨s, l ++ ⟨i, .call q k⟩ :: r⟩ (.serve l.length i q a) ⟨s', l ++ ⟨i, k a⟩ :: r⟩
  | deliver {s i x k s' l r} : M.deliver s i x s' →
      Step M ⟨s, l ++ ⟨i, .complete x k⟩ :: r⟩ (.deliver l.length i x) ⟨s', l ++ ⟨i, k⟩ :: r⟩
  | env {s e s' ts} : M.env s e s' → Step M ⟨s, ts⟩ (.env e) ⟨s', ts⟩

def system (M : Machine σ ι A R T ε) (init : σ → Prop) : System (Pool σ ι A R T) (Event ι A R ε) where
  init p := init p.state ∧ p.tasks = []
  step := M.Step

variable {M : Machine σ ι A R T ε} {init : σ → Prop}

theorem forall_replace {P P' : Task ι A R T → Prop} {l r : List (Task ι A R T)} {t t' : Task ι A R T}
    (h : ∀ x ∈ l ++ t :: r, P x) (hk : ∀ x, P x → P' x) (ht : P t → P' t') : ∀ x ∈ l ++ t' :: r, P' x := by
  intro x hx
  rcases List.mem_append.mp hx with hl | hr
  · exact hk x (h x (List.mem_append_left _ hl))
  · rcases List.mem_cons.mp hr with rfl | hr
    · exact ht (h t (by simp))
    · exact hk x (h x (List.mem_append_right _ (List.mem_cons_of_mem _ hr)))

/-! ## Calls stay within the code they were made with -/

def Within (M : Machine σ ι A R T ε) (p : Pool σ ι A R T) : Prop :=
  ∀ t ∈ p.tasks, (M.body t.tag).Leads t.chain

theorem within_step {p p' : Pool σ ι A R T} {e : Event ι A R ε} (hp : M.Within p) (hs : M.Step p e p') :
    M.Within p' := by
  cases hs with
  | launch _ =>
    intro t ht
    rcases List.mem_append.mp ht with h | h
    · exact hp t h
    · rw [List.mem_singleton.mp h]; exact .refl _
  | @serve _ _ _ a => exact forall_replace hp (fun _ h => h) fun h => .answer h a
  | deliver _ => exact forall_replace hp (fun _ h => h) fun h => .report h
  | env _ => exact hp

theorem within_invariant : (M.system init).Invariant M.Within where
  init := fun p hp t ht => by rw [hp.2] at ht; cases ht
  step := fun _ _ _ hp hs => within_step hp hs

theorem within {p : Pool σ ι A R T} (h : (M.system init).Reachable p) : M.Within p :=
  within_invariant.holds h

/-! ## Invariants of the shared state and of each call -/

/-- `G` of the shared state and `P` of each call are kept: a step of a call keeps
`G`, keeps `P` of the calls that do not move, and gives `P` to the one that does. -/
structure CallRules (M : Machine σ ι A R T ε) (G : σ → Prop) (P : σ → Task ι A R T → Prop) : Prop where
  launch : ∀ {s i s'}, G s → M.launch s i s' → G s' ∧ (∀ t, P s t → P s' t) ∧ P s' ⟨i, M.body i⟩
  serve : ∀ {s i q a k s'}, G s → P s ⟨i, .call q k⟩ → M.serve s i q a s' →
    G s' ∧ (∀ t, P s t → P s' t) ∧ P s' ⟨i, k a⟩
  deliver : ∀ {s i x k s'}, G s → P s ⟨i, .complete x k⟩ → M.deliver s i x s' →
    G s' ∧ (∀ t, P s t → P s' t) ∧ P s' ⟨i, k⟩

structure Rules (M : Machine σ ι A R T ε) (G : σ → Prop) (P : σ → Task ι A R T → Prop) : Prop
    extends M.CallRules G P where
  env : ∀ {s e s'}, G s → M.env s e s' → G s' ∧ ∀ t, P s t → P s' t

theorem CallRules.step {G : σ → Prop} {P : σ → Task ι A R T → Prop} (h : M.CallRules G P) {p p' : Pool σ ι A R T}
    {e : Event ι A R ε} (hp : G p.state ∧ ∀ t ∈ p.tasks, P p.state t) (hs : M.Step p e p')
    (henv : ∀ x, e = .env x → G p'.state ∧ ∀ t ∈ p'.tasks, P p'.state t) :
    G p'.state ∧ ∀ t ∈ p'.tasks, P p'.state t := by
  obtain ⟨hG, hP⟩ := hp
  cases hs with
  | launch hl =>
    obtain ⟨hG', hk, hn⟩ := h.launch hG hl
    refine ⟨hG', fun t ht => ?_⟩
    rcases List.mem_append.mp ht with ht | ht
    · exact hk t (hP t ht)
    · rw [List.mem_singleton.mp ht]; exact hn
  | serve hs =>
    have hc := hP _ (List.mem_append_right _ List.mem_cons_self)
    obtain ⟨hG', hk, hn⟩ := h.serve hG hc hs
    exact ⟨hG', forall_replace hP hk fun _ => hn⟩
  | deliver hd =>
    have hc := hP _ (List.mem_append_right _ List.mem_cons_self)
    obtain ⟨hG', hk, hn⟩ := h.deliver hG hc hd
    exact ⟨hG', forall_replace hP hk fun _ => hn⟩
  | env _ => exact henv _ rfl

theorem Rules.invariant {G : σ → Prop} {P : σ → Task ι A R T → Prop} (h : M.Rules G P)
    (hi : ∀ s, init s → G s) :
    (M.system init).Invariant fun p => G p.state ∧ ∀ t ∈ p.tasks, P p.state t where
  init := fun p hp => ⟨hi _ hp.1, fun t ht => by rw [hp.2] at ht; cases ht⟩
  step := by
    intro p e p' hboth hs
    refine h.step hboth hs fun x hx => ?_
    subst hx
    cases hs with
    | env he =>
      obtain ⟨hG', hk⟩ := h.env hboth.1 he
      exact ⟨hG', fun t ht => hk t (hboth.2 t ht)⟩

theorem Step.tags {p p' : Pool σ ι A R T} {e : Event ι A R ε} (hs : M.Step p e p') :
    p'.tasks.map (·.tag) = p.tasks.map (·.tag) ++ match e with
      | .launch i => [i]
      | _ => [] := by
  cases hs <;> simp

theorem tags {L : ι → Prop} (hL : ∀ s i s', M.launch s i s' → L i) {p : Pool σ ι A R T}
    (h : (M.system init).Reachable p) : ∀ t ∈ p.tasks, L t.tag := by
  have hr : M.Rules (fun _ => True) fun _ t => L t.tag := {
    launch := fun _ hl => ⟨trivial, fun _ h => h, hL _ _ _ hl⟩
    serve := fun _ hc _ => ⟨trivial, fun _ h => h, hc⟩
    deliver := fun _ hc _ => ⟨trivial, fun _ h => h, hc⟩
    env := fun _ _ => ⟨trivial, fun _ h => h⟩ }
  exact ((hr.invariant fun _ _ => trivial).holds h).2

/-! ## Invariants of numbered calls and of the history -/

def eventNumber : Event ι A R ε → Option Nat
  | .serve n _ _ _ => some n
  | .deliver n _ _ => some n
  | _ => none

theorem getElem?_replace {l r : List (Task ι A R T)} {t t' x : Task ι A R T} {n : Nat}
    (h : (l ++ t' :: r)[n]? = some x) : n = l.length ∧ x = t' ∨ n ≠ l.length ∧ (l ++ t :: r)[n]? = some x := by
  by_cases hn : n = l.length
  · subst hn
    simp only [List.getElem?_append_right (Nat.le_refl _), Nat.sub_self,
      List.getElem?_cons_zero, Option.some.injEq] at h
    exact .inl ⟨rfl, h.symm⟩
  · refine .inr ⟨hn, ?_⟩
    rcases Nat.lt_or_gt_of_ne hn with hlt | hgt
    · rw [List.getElem?_append_left hlt] at h ⊢
      exact h
    · obtain ⟨m, hm⟩ : ∃ m, n - l.length = m + 1 := ⟨n - l.length - 1, by omega⟩
      rw [List.getElem?_append_right (by omega), hm, List.getElem?_cons_succ] at h ⊢
      exact h

/-- What a call keeps, given the events so far and its number: `P` depends on
no event of another call. -/
structure NumberedRules (M : Machine σ ι A R T ε) (P : List (Event ι A R ε) → Nat → Task ι A R T → Prop) :
    Prop where
  other : ∀ {h n t e}, eventNumber e ≠ some n → P h n t → P (e :: h) n t
  launch : ∀ {h : List (Event ι A R ε)} {n i}, (∀ e ∈ h, eventNumber e ≠ some n) → P h n ⟨i, M.body i⟩
  serve : ∀ {h n i q a k}, P h n ⟨i, .call q k⟩ → P (.serve n i q a :: h) n ⟨i, k a⟩
  deliver : ∀ {h n i x k}, P h n ⟨i, .complete x k⟩ → P (.deliver n i x :: h) n ⟨i, k⟩

theorem numbers_lt {x : Pool σ ι A R T × List (Event ι A R ε)} (h : (M.system init).recorded.Reachable x) :
    ∀ e ∈ x.2, ∀ n, eventNumber e = some n → n < x.1.tasks.length := by
  induction h with
  | init h => rw [h.2]; intro e he; cases he
  | @step x e y _ hs ih =>
    obtain ⟨p, h⟩ := x
    obtain ⟨p', h'⟩ := y
    obtain ⟨hs, rfl⟩ := hs
    have hlen : p.tasks.length ≤ p'.tasks.length := by cases hs <;> simp
    intro e' he' n hn
    rcases List.mem_cons.mp he' with rfl | he'
    · cases hs with
      | launch _ => cases hn
      | env _ => cases hn
      | serve _ => cases hn; simp
      | deliver _ => cases hn; simp
    · exact Nat.lt_of_lt_of_le (ih e' he' n hn) hlen

theorem NumberedRules.holds {P : List (Event ι A R ε) → Nat → Task ι A R T → Prop} (hP : M.NumberedRules P)
    {x : Pool σ ι A R T × List (Event ι A R ε)} (h : (M.system init).recorded.Reachable x) :
    ∀ n t, x.1.tasks[n]? = some t → P x.2 n t := by
  induction h with
  | init h =>
    intro n t ht
    rw [h.1.2] at ht
    cases ht
  | @step x e y hr hs ih =>
    obtain ⟨p, h⟩ := x
    obtain ⟨p', h'⟩ := y
    obtain ⟨hs, rfl⟩ := hs
    intro n t ht
    cases hs with
    | @launch _ i _ ts _ =>
      rcases getElem?_replace (t := t) ht with ⟨rfl, rfl⟩ | ⟨hn, ht⟩
      · refine hP.other (by simp [eventNumber]) (hP.launch fun e he hn => ?_)
        exact absurd (numbers_lt hr e he _ hn) (Nat.lt_irrefl _)
      · have hlt : n < ts.length := by
          have := (List.getElem?_eq_some_iff.mp ht).1
          simp at this
          omega
        rw [List.getElem?_append_left hlt] at ht
        exact hP.other (by simp [eventNumber]) (ih n t ht)
    | env _ => exact hP.other (by simp [eventNumber]) (ih n t ht)
    | @serve _ i q a k _ l r _ =>
      rcases getElem?_replace (t := ⟨i, .call q k⟩) ht with ⟨rfl, rfl⟩ | ⟨hn, ht⟩
      · exact hP.serve (ih _ _ (by simp))
      · exact hP.other (by simpa [eventNumber] using Ne.symm hn) (ih n t ht)
    | @deliver _ i x k _ l r _ =>
      rcases getElem?_replace (t := ⟨i, .complete x k⟩) ht with ⟨rfl, rfl⟩ | ⟨hn, ht⟩
      · exact hP.deliver (ih _ _ (by simp))
      · exact hP.other (by simpa [eventNumber] using Ne.symm hn) (ih n t ht)

end Machine

end Async
