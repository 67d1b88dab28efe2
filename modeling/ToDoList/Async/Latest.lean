import ToDoList.Async.System

/-!
# The latest event of a kind

What only events of one kind set is what the latest of them set. Histories
have the latest event first.
-/

namespace Async

variable {σ ℓ α : Type}

def latest (f : ℓ → Option α) (h : List ℓ) : Option α := h.findSome? f

/-- The events after the latest one of the kind, or all of them. -/
def since (f : ℓ → Option α) (h : List ℓ) : List ℓ := h.takeWhile fun e => (f e).isNone

theorem latest_cons (f : ℓ → Option α) (e : ℓ) (h : List ℓ) : latest f (e :: h) = (f e).or (latest f h) := by
  unfold latest
  rw [List.findSome?_cons]
  cases f e <;> rfl

theorem latest_eq_none {f : ℓ → Option α} {h : List ℓ} : latest f h = none ↔ ∀ e ∈ h, f e = none :=
  List.findSome?_eq_none_iff

theorem latest_map {β : Type} (g : α → β) (f : ℓ → Option α) (h : List ℓ) :
    latest (fun e => (f e).map g) h = (latest f h).map g := List.map_findSome?.symm

theorem latest_since {f : ℓ → Option α} {h : List ℓ} {a : α} (ha : latest f h = some a) :
    ∃ e h', h = since f h ++ e :: h' ∧ f e = some a := by
  obtain ⟨l, e, h', hh, he, hl⟩ := List.findSome?_eq_some_iff.mp ha
  have hsince : since f h = l := by
    unfold since
    rw [hh, List.takeWhile_append_of_pos (fun x hx => by rw [hl x hx]; rfl), List.takeWhile_cons, he]
    simp
  exact ⟨e, h', by rw [hsince, hh], he⟩

/-- If each step sets a part of the state to what its event says, or leaves it
where the event says nothing, then a run leaves it at what the latest event said. -/
theorem System.Run.latest {S : System σ ℓ} {f : ℓ → Option α} {g : σ → Option α} {s₀ s : σ} {h : List ℓ}
    (hr : S.Run s₀ h s) (h0 : S.Reachable s₀)
    (hst : ∀ s e s', S.Reachable s → S.step s e s' → g s' = (f e).or (g s)) :
    g s = (Async.latest f h).or (g s₀) := by
  induction hr with
  | nil => rfl
  | @cons h s e s' hr hstep ih => rw [hst s e s' (hr.reachable h0) hstep, ih, latest_cons, Option.or_assoc]

end Async
