import Mathlib.Data.List.Count
import ToDoList.Async.Pool

/-!
# One call at a time

Calls are launched only while a flag of the shared state is down, and a launch
raises it. When completions are the last act of a chain, no second call is ever
in flight; when every chain is heard to its completion, the flag comes down again.
-/

namespace Async

variable {Q : Type} {A : Q → Type} {R T σ ι ε : Type}

def Pool.inFlight (p : Pool σ ι A R T) : Nat := p.tasks.countP fun t => !t.chain.ended

theorem Pool.inFlight_replace (s : σ) (l r : List (Task ι A R T)) (t : Task ι A R T) :
    (Pool.mk s (l ++ t :: r)).inFlight = (Pool.mk s (l ++ r)).inFlight + if t.chain.ended then 0 else 1 := by
  simp only [inFlight, List.countP_append, List.countP_cons]
  cases t.chain.ended with
  | true => simp
  | false => simp; omega

theorem Pool.inFlight_push (s : σ) (l : List (Task ι A R T)) (t : Task ι A R T) :
    (Pool.mk s (l ++ [t])).inFlight = (Pool.mk s l).inFlight + if t.chain.ended then 0 else 1 := by
  rw [inFlight_replace, List.append_nil]

theorem Pool.inFlight_state (s s' : σ) (l : List (Task ι A R T)) :
    (Pool.mk s' l).inFlight = (Pool.mk s l).inFlight := rfl

namespace Machine

variable {M : Machine σ ι A R T ε} {init : σ → Prop} {busy : σ → Prop}

/-- Launches wait for the flag and raise it; only completions move it otherwise. -/
structure Gate (M : Machine σ ι A R T ε) (busy : σ → Prop) : Prop where
  oneShot : ∀ i, (M.body i).OneShot
  launch : ∀ {s i s'}, M.launch s i s' → ¬ busy s ∧ (busy s' ∨ (M.body i).ended = true)
  serve : ∀ {s i q a s'}, M.serve s i q a s' → (busy s' ↔ busy s)
  env : ∀ {s e s'}, M.env s e s' → (busy s' ↔ busy s)

def Exclusive (busy : σ → Prop) (p : Pool σ ι A R T) : Prop :=
  p.inFlight ≤ 1 ∧ (0 < p.inFlight → busy p.state)

theorem Gate.exclusive (hg : M.Gate busy) {p : Pool σ ι A R T} (h : (M.system init).Reachable p) :
    Exclusive busy p := by
  refine System.Invariant.of_reachable (S := M.system init) (I := Exclusive busy) ?_ ?_ h
  · intro p hp
    have h0 : p.inFlight = 0 := by rw [Pool.inFlight, hp.2]; rfl
    exact ⟨by omega, fun h => by omega⟩
  · intro p e p' hr hi hs
    obtain ⟨hle, hbusy⟩ := hi
    cases hs with
    | @launch s i s' ts hl =>
      obtain ⟨hidle, hb⟩ := hg.launch hl
      have h0 : (Pool.mk s ts).inFlight = 0 := Nat.eq_zero_of_not_pos fun h => hidle (hbusy h)
      rw [Exclusive, Pool.inFlight_push, Pool.inFlight_state s s', h0]
      cases he : (M.body i).ended with
      | true => simp
      | false =>
        rw [he] at hb
        simpa using hb
    | @serve s i q a k s' l r hs =>
      rw [Pool.inFlight_replace] at hle hbusy
      rw [Exclusive, Pool.inFlight_replace, Pool.inFlight_state s s', hg.serve hs]
      simp only [Chain.ended_call] at hle hbusy
      refine ⟨?_, fun _ => hbusy (by simp)⟩
      simp only [Bool.false_eq_true, if_false] at hle
      split <;> omega
    | @deliver s i x k s' l r hd =>
      have hdone : (Chain.complete x k).OneShot :=
        (hg.oneShot i).leads (within hr _ (List.mem_append_right l List.mem_cons_self))
      have hk : k = .done := hdone
      subst hk
      rw [Pool.inFlight_replace] at hle
      rw [Exclusive, Pool.inFlight_replace, Pool.inFlight_state s s']
      simp only [Chain.ended_complete, Bool.false_eq_true, if_false] at hle
      simp only [Chain.ended_done, if_true]
      exact ⟨by omega, fun h => by omega⟩
    | @env s e s' ts he =>
      rw [Exclusive, Pool.inFlight_state s s', hg.env he]
      exact ⟨hle, hbusy⟩

theorem inFlight_pos {s : σ} {l r : List (Task ι A R T)} {t : Task ι A R T} (h : t.chain.ended = false) :
    0 < (Pool.mk s (l ++ t :: r)).inFlight := by
  rw [Pool.inFlight_replace, h]
  simp

/-- The steps of a run in which every chain is heard to its completion. -/
structure Heard (M : Machine σ ι A R T ε) (busy : σ → Prop) (ok : Event ι A R ε → Prop) : Prop where
  launch : ∀ {s i s'}, M.launch s i s' → ok (.launch i) → busy s' → (M.body i).ended = false
  serve : ∀ {n i q k} {a : A q}, (M.body i).Leads (.call q k) → ok (.serve n i q a) → (k a).ended = false
  deliver : ∀ {s₀ s₀' s s' i x k}, M.launch s₀ i s₀' → (M.body i).Leads (.complete x k) → M.deliver s i x s' →
    busy s → ¬ busy s'

theorem Gate.idle (hg : M.Gate busy) {ok : Event ι A R ε → Prop} (hh : M.Heard busy ok)
    (hinit : ∀ s, init s → ¬ busy s) {p : Pool σ ι A R T}
    (h : ((M.system init).restrict fun _ e _ => ok e).Reachable p) : busy p.state → 0 < p.inFlight := by
  induction h with
  | init h0 => exact fun hb => absurd hb (hinit _ h0.1)
  | @step p e p' hr hs ih =>
    obtain ⟨hs, hok⟩ := hs
    cases hs with
    | @launch s i s' ts hl =>
      intro hb
      rw [Pool.inFlight_push, hh.launch hl hok hb]
      simp
    | @serve s i q a k s' l r hs =>
      intro _
      have hlead := within hr.unrestrict _ (List.mem_append_right l List.mem_cons_self)
      exact inFlight_pos (hh.serve hlead hok)
    | @deliver s i x k s' l r hd =>
      intro hb
      have hpos : 0 < (Pool.mk s (l ++ ⟨i, .complete x k⟩ :: r)).inFlight := inFlight_pos rfl
      have ht : ⟨i, .complete x k⟩ ∈ l ++ ⟨i, .complete x k⟩ :: r := List.mem_append_right l List.mem_cons_self
      obtain ⟨s₀, s₀', hl⟩ := tags (L := fun i => ∃ s s', M.launch s i s')
        (fun s i s' hl => ⟨s, s', hl⟩) hr.unrestrict _ ht
      exact absurd hb (hh.deliver hl (within hr.unrestrict _ ht) hd ((hg.exclusive hr.unrestrict).2 hpos))
    | @env s e s' ts he =>
      intro hb
      exact ih ((hg.env he).mp hb)

end Machine

end Async
