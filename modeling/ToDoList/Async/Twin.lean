import ToDoList.Async.Pool

/-!
# A master and its copy, kept in step by pending repairs

One value is stored twice and no step writes both places. Whoever rewrites
the master owes the copy a repair, which is still to read the master or
already carries what it is going to write. `Held` is what survives every
interleaving of such repairs: the two agree, or a repair that would bring
them together is on its way.
-/

namespace Async

inductive Repair (C : Type)
  | fetch
  | carry (c : C)

structure Twin (M C : Type) where
  master : M
  copy : C
  pending : List (Repair C)

namespace Twin

variable {M C : Type} (agree : M → C → Prop)

/-- Written now, the repair would leave the copy in agreement with `m`. -/
def Due (m : M) : Repair C → Prop
  | .fetch => True
  | .carry c => agree m c

def SomeDue (m : M) (l : List (Repair C)) : Prop := ∃ r ∈ l, Due agree m r

def Held (x : Twin M C) : Prop := agree x.master x.copy ∨ SomeDue agree x.master x.pending

variable {agree}

theorem Held.agrees {x : Twin M C} (h : Held agree x) (hp : x.pending = []) : agree x.master x.copy := by
  rcases h with h | ⟨r, hr, _⟩
  · exact h
  · rw [hp] at hr; cases hr

theorem someDue_insert {m : M} {l r : List (Repair C)} {x : Repair C} :
    SomeDue agree m (l ++ x :: r) ↔ Due agree m x ∨ SomeDue agree m (l ++ r) := by
  unfold SomeDue
  constructor
  · intro hex
    obtain ⟨y, hy, hd⟩ := hex
    rcases List.mem_append.mp hy with h | h
    · exact .inr ⟨y, List.mem_append_left _ h, hd⟩
    · rcases List.mem_cons.mp h with rfl | h
      · exact .inl hd
      · exact .inr ⟨y, List.mem_append_right _ h, hd⟩
  · intro hex
    rcases hex with hd | ⟨y, hy, hd⟩
    · exact ⟨x, by simp, hd⟩
    · refine ⟨y, ?_, hd⟩
      rcases List.mem_append.mp hy with h | h
      · exact List.mem_append_left _ h
      · exact List.mem_append_right _ (List.mem_cons_of_mem _ h)

/-! ## Moves -/

inductive Step (agree : M → C → Prop) : Twin M C → Twin M C → Prop
  | stay (x) : Step agree x x
  /-- The master is rewritten and the repair is on its way. -/
  | announce {m m' c l r x} : Due agree m' x → Step agree ⟨m, c, l ++ r⟩ ⟨m', c, l ++ x :: r⟩
  | fetch {m c l r v} : agree m v → Step agree ⟨m, c, l ++ .fetch :: r⟩ ⟨m, c, l ++ .carry v :: r⟩
  | apply {m c l r v} : agree m v ∨ SomeDue agree m (l ++ r) →
      Step agree ⟨m, c, l ++ .carry v :: r⟩ ⟨m, v, l ++ r⟩
  /-- One side is rewritten without a repair. -/
  | rewrite {m m' c c' l} : agree m' c' ∨ SomeDue agree m' l → Step agree ⟨m, c, l⟩ ⟨m', c', l⟩

theorem Step.held {x y : Twin M C} (hs : Step agree x y) (h : Held agree x) : Held agree y := by
  cases hs with
  | stay => exact h
  | announce hd => exact .inr (someDue_insert.mpr (.inl hd))
  | fetch hv => exact .inr (someDue_insert.mpr (.inl hv))
  | apply hok => exact hok
  | rewrite hok => exact hok

/-! ## Repairs owed by calls in flight -/

section
variable {Q : Type} {A : Q → Type} {R T ι σ : Type} (f : Task ι A R T → Option (Repair C))

def owed (ts : List (Task ι A R T)) : List (Repair C) := ts.filterMap f

variable {f} {l r : List (Task ι A R T)} {t : Task ι A R T}

theorem owed_append : owed f (l ++ r) = owed f l ++ owed f r := List.filterMap_append

theorem owed_of_none (h : f t = none) : owed f (l ++ t :: r) = owed f l ++ owed f r := by
  unfold owed
  rw [List.filterMap_append, List.filterMap_cons, h]

theorem owed_of_some {x : Repair C} (h : f t = some x) : owed f (l ++ t :: r) = owed f l ++ x :: owed f r := by
  unfold owed
  rw [List.filterMap_append, List.filterMap_cons, h]

theorem owed_none (h : ∀ t ∈ l, f t = none) : owed f l = [] := List.filterMap_eq_nil_iff.mpr h

def view (m : σ → M) (c : σ → C) (f : Task ι A R T → Option (Repair C)) (p : Pool σ ι A R T) : Twin M C where
  master := m p.state
  copy := c p.state
  pending := owed f p.tasks

variable {m : σ → M} {c : σ → C} {agree : M → C → Prop} {s s' : σ} {t' : Task ι A R T}

theorem view_stay (hm : m s' = m s) (hc : c s' = c s) (ht : f t = none) (ht' : f t' = none) :
    Step agree (view m c f ⟨s, l ++ t :: r⟩) (view m c f ⟨s', l ++ t' :: r⟩) := by
  simp only [view, owed_of_none ht, owed_of_none ht', hm, hc]
  exact .stay _

theorem view_step {ε : Type} {K : Machine σ ι A R T ε} {p p' : Pool σ ι A R T} {e : Event ι A R ε}
    (hs : K.Step p e p')
    (hlaunch : ∀ s i s', K.launch s i s' → m s' = m s ∧ c s' = c s ∧ f ⟨i, K.body i⟩ = none)
    (hdeliver : ∀ s i x s', K.deliver s i x s' → m s' = m s ∧ c s' = c s)
    (henv : ∀ s e s', K.env s e s' → m s' = m s ∧ c s' = c s)
    (hidle : ∀ t, t.chain.awaits = none → f t = none)
    (hreport : ∀ i x k, ⟨i, .complete x k⟩ ∈ p.tasks → k.awaits = none)
    (hserve : ∀ {s i q a k s' l r}, p = ⟨s, l ++ ⟨i, .call q k⟩ :: r⟩ → e = .serve l.length i q a →
      K.serve s i q a s' → Step agree (view m c f p) (view m c f ⟨s', l ++ ⟨i, k a⟩ :: r⟩)) :
    Step agree (view m c f p) (view m c f p') := by
  cases hs with
  | @launch s i s' ts hl =>
    obtain ⟨hm, hc, hf⟩ := hlaunch _ _ _ hl
    have ho : owed f (ts ++ [⟨i, K.body i⟩]) = owed f ts := by
      rw [owed_of_none hf, ← owed_append, List.append_nil]
    simp only [view, ho, hm, hc]
    exact .stay _
  | env he =>
    obtain ⟨hm, hc⟩ := henv _ _ _ he
    simp only [view, hm, hc]
    exact .stay _
  | @deliver s i x k s' l r hd =>
    obtain ⟨hm, hc⟩ := hdeliver _ _ _ _ hd
    exact view_stay hm hc (hidle _ rfl) (hidle _ (hreport i x k (List.mem_append_right l List.mem_cons_self)))
  | serve hs => exact hserve rfl rfl hs

end

end Twin

end Async
