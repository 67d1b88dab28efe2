import Mathlib.Data.List.Dedup
import Mathlib.Logic.Function.Basic

/-!
# Replaying writes

Writes act on a state. They are absorbing when an earlier run of a write is
lost once the same write has run again: then a log of writes has the effect of
its last occurrences alone, in their order.
-/

namespace Async

variable {ι κ σ : Type}

def replay (act : ι → σ → σ) (log : List ι) (s : σ) : σ := log.foldl (fun s i => act i s) s

structure Absorbing (act : ι → σ → σ) : Prop where
  idem : ∀ i s, act i (act i s) = act i s
  absorb : ∀ i j s, act i (act j (act i s)) = act i (act j s)

section
variable {act : ι → σ → σ}

@[simp] theorem replay_nil (s : σ) : replay act [] s = s := rfl

@[simp] theorem replay_cons (i : ι) (log : List ι) (s : σ) :
    replay act (i :: log) s = replay act log (act i s) := rfl

theorem replay_append (u w : List ι) (s : σ) : replay act (u ++ w) s = replay act w (replay act u s) := by
  simp [replay]

/-- If each write is seen as a log of other writes, so is a log of them. -/
theorem replay_flatMap {τ : Type} {act' : κ → τ → τ} {g : τ → σ} {f : κ → List ι}
    (h : ∀ k t, g (act' k t) = replay act (f k) (g t)) (log : List κ) (t : τ) :
    g (replay act' log t) = replay act (log.flatMap f) (g t) := by
  induction log generalizing t with
  | nil => rfl
  | cons k log ih => rw [replay_cons, ih, h, List.flatMap_cons, replay_append]

theorem replay_filter {p : ι → Bool} (hp : ∀ i s, p i = false → act i s = s) (log : List ι) (s : σ) :
    replay act (log.filter p) s = replay act log s := by
  induction log generalizing s with
  | nil => rfl
  | cons i log ih =>
    rw [List.filter_cons]
    by_cases h : p i = true
    · simp [h, ih]
    · simp only [h, replay_cons]
      rw [hp i s (by simpa using h)]
      simpa using ih s

/-! ## Absorbing writes -/

theorem Absorbing.replay_between (h : Absorbing act) (i : ι) (log : List ι) (s : σ) :
    act i (replay act log (act i s)) = act i (replay act log s) := by
  induction log generalizing s with
  | nil => exact h.idem i s
  | cons j log ih =>
    rw [replay_cons, replay_cons, ← ih (act j (act i s)), h.absorb, ih]

/-- A write that comes again later may be left out. -/
theorem Absorbing.replay_of_mem (h : Absorbing act) {i : ι} {log : List ι} (hi : i ∈ log) (s : σ) :
    replay act log (act i s) = replay act log s := by
  obtain ⟨u, w, rfl⟩ := List.append_of_mem hi
  rw [replay_append, replay_append, replay_cons, replay_cons, h.replay_between]

theorem Absorbing.replay_subset (h : Absorbing act) {u w : List ι} (hu : ∀ i ∈ u, i ∈ w) (s : σ) :
    replay act w (replay act u s) = replay act w s := by
  induction u generalizing s with
  | nil => rfl
  | cons i u ih =>
    rw [replay_cons, ih (fun j hj => hu j (by simp [hj]))]
    exact h.replay_of_mem (hu i (by simp)) s

/-- Only the last occurrence of each write counts. -/
theorem Absorbing.replay_dedup [DecidableEq ι] (h : Absorbing act) (log : List ι) (s : σ) :
    replay act log.dedup s = replay act log s := by
  induction log generalizing s with
  | nil => rfl
  | cons i log ih =>
    by_cases hi : i ∈ log
    · rw [List.dedup_cons_of_mem hi, ih, replay_cons, h.replay_of_mem hi]
    · rw [List.dedup_cons_of_notMem hi, replay_cons, replay_cons, ih]

/-- Whole logs of absorbing writes are absorbing. -/
theorem Absorbing.logs (h : Absorbing act) : Absorbing (replay act) where
  idem := fun u s => h.replay_subset (fun _ hi => hi) s
  absorb := by
    intro u w s
    show replay act u (replay act w (replay act u s)) = replay act u (replay act w s)
    rw [← replay_append w u, ← replay_append w u]
    apply h.replay_subset
    simp +contextual

/-- Some writes may do nothing. -/
theorem Absorbing.option (h : Absorbing act) : Absorbing fun (o : Option ι) => o.elim id act where
  idem := by
    intro o s
    cases o with
    | none => rfl
    | some i => exact h.idem i s
  absorb := by
    intro o p s
    cases o with
    | none => rfl
    | some i =>
      cases p with
      | none => rw [Option.elim_none, Option.elim_some, id, id, h.idem]
      | some j => exact h.absorb i j s

theorem replay_option (f : κ → Option ι) (log : List κ) (s : σ) :
    replay (fun k => (f k).elim id act) log s = replay act (log.filterMap f) s := by
  induction log generalizing s with
  | nil => rfl
  | cons k log ih =>
    rw [replay_cons, ih, List.filterMap_cons]
    cases f k <;> rfl

theorem Absorbing.comp (h : Absorbing act) (f : κ → ι) : Absorbing fun k => act (f k) where
  idem := fun k => h.idem (f k)
  absorb := fun k l => h.absorb (f k) (f l)

end

/-! ## Writes at keys -/

section
variable {K : Type} [DecidableEq K] {act : ι → σ → σ}

def actAt (act : ι → σ → σ) (w : K × ι) (s : K → σ) : K → σ := Function.update s w.1 (act w.2 (s w.1))

theorem actAt_apply (w : K × ι) (s : K → σ) (k : K) : actAt act w s k = if k = w.1 then act w.2 (s k) else s k := by
  unfold actAt
  by_cases h : k = w.1
  · subst h; simp
  · simp [h]

theorem Absorbing.at (h : Absorbing act) : Absorbing (actAt (K := K) act) where
  idem := by
    intro w s
    funext k
    simp only [actAt_apply]
    by_cases hk : k = w.1
    · simp [hk, h.idem]
    · simp [hk]
  absorb := by
    intro w v s
    funext k
    simp only [actAt_apply]
    by_cases hk : k = w.1
    · by_cases hv : k = v.1
      · simp [hk, hv ▸ hk, h.absorb]
      · simp [hk, hk ▸ hv, h.idem]
    · simp [hk]

end

end Async
