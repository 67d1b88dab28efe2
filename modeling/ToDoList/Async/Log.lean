import Mathlib.Algebra.BigOperators.Group.Finset.Piecewise
import Mathlib.Algebra.Order.BigOperators.Group.Finset
import ToDoList.Async.Pool

/-!
# The log of one call

The answers a call was given and what it reported, in their order, lead from
the code the call was made with to what is left of it. What one call does in
any run is therefore read off its chain alone.
-/

namespace Async

variable {Q : Type} {A : Q → Type} {R T σ ι ε : Type}

inductive Entry {Q : Type} (A : Q → Type) (R : Type) : Type
  | answer (q : Q) (a : A q)
  | report (r : R)

namespace Chain

inductive Path : Chain A R T → List (Entry A R) → Chain A R T → Prop
  | refl (c) : Path c [] c
  | answer {c l q k} : Path c l (call q k) → ∀ a : A q, Path c (l ++ [.answer q a]) (k a)
  | report {c l r k} : Path c l (complete r k) → Path c (l ++ [.report r]) k

/-- No path through the chain is longer than the number. -/
def Depth : Nat → Chain A R T → Prop
  | _, done => True
  | _, trap _ => True
  | 0, complete _ _ => False
  | 0, call _ _ => False
  | n + 1, complete _ k => k.Depth n
  | n + 1, call _ k => ∀ a, (k a).Depth n

theorem Depth.mono {c : Chain A R T} {m n : Nat} (h : c.Depth m) (hmn : m ≤ n) : c.Depth n := by
  induction c generalizing m n with
  | done => cases n <;> trivial
  | trap t => cases n <;> trivial
  | complete r k ih =>
    cases m with
    | zero => exact absurd h (by simp [Depth])
    | succ m =>
      cases n with
      | zero => omega
      | succ n => exact ih h (by omega)
  | call q k ih =>
    cases m with
    | zero => exact absurd h (by simp [Depth])
    | succ m =>
      cases n with
      | zero => omega
      | succ n => exact fun a => ih a (h a) (by omega)

theorem Path.leads {c d : Chain A R T} {l : List (Entry A R)} (h : Path c l d) : Leads c d := by
  induction h with
  | refl => exact .refl _
  | answer _ a ih => exact ih.answer a
  | report _ ih => exact ih.report

theorem Path.depth {c d : Chain A R T} {l : List (Entry A R)} {n : Nat} (h : Path c l d) (hc : c.Depth n) :
    l.length ≤ n ∧ d.Depth (n - l.length) := by
  induction h with
  | refl => exact ⟨Nat.zero_le _, hc⟩
  | @answer l q k _ a ih =>
    obtain ⟨hlen, hd⟩ := ih
    rw [List.length_append, List.length_singleton]
    cases hm : n - l.length with
    | zero => rw [hm] at hd; exact absurd hd (by simp [Depth])
    | succ m =>
      rw [hm] at hd
      have hn : n - (l.length + 1) = m := by omega
      rw [hn]
      exact ⟨by omega, hd a⟩
  | @report l r k _ ih =>
    obtain ⟨hlen, hd⟩ := ih
    rw [List.length_append, List.length_singleton]
    cases hm : n - l.length with
    | zero => rw [hm] at hd; exact absurd hd (by simp [Depth])
    | succ m =>
      rw [hm] at hd
      have hn : n - (l.length + 1) = m := by omega
      rw [hn]
      exact ⟨by omega, hd⟩

theorem Path.cons_answer {q : Q} {k : A q → Chain A R T} {a : A q} {d : Chain A R T} {l : List (Entry A R)}
    (h : Path (k a) l d) : Path (call q k) (.answer q a :: l) d := by
  induction h with
  | refl => exact (Path.refl (call q k)).answer a
  | answer _ b ih => exact ih.answer b
  | report _ ih => exact ih.report

theorem Path.cons_report {r : R} {k d : Chain A R T} {l : List (Entry A R)} (h : Path k l d) :
    Path (complete r k) (.report r :: l) d := by
  induction h with
  | refl => exact (Path.refl (complete r k)).report
  | answer _ b ih => exact ih.answer b
  | report _ ih => exact ih.report

theorem Path.eq_of_nil {c d : Chain A R T} (h : Path c [] d) : d = c := by
  generalize hl : ([] : List (Entry A R)) = l at h
  cases h with
  | refl => rfl
  | answer _ a => simp at hl
  | report _ => simp at hl

/-- How a path that is not empty came by its last entry. -/
theorem Path.last {c d : Chain A R T} {l : List (Entry A R)} {x : Entry A R} (h : Path c (l ++ [x]) d) :
    (∃ q a k, x = .answer q a ∧ Path c l (call q k) ∧ d = k a) ∨ ∃ r, x = .report r ∧ Path c l (complete r d) := by
  generalize hw : l ++ [x] = w at h
  cases h with
  | refl => simp at hw
  | @answer l' q k hp a =>
    rw [List.append_singleton_inj] at hw
    obtain ⟨rfl, rfl⟩ := hw
    exact .inl ⟨q, a, k, rfl, hp, rfl⟩
  | @report l' r k hp =>
    rw [List.append_singleton_inj] at hw
    obtain ⟨rfl, rfl⟩ := hw
    exact .inr ⟨r, rfl, hp⟩

section
variable {c d : Chain A R T} {l : List (Entry A R)}

@[simp] theorem path_done_iff : Path (done : Chain A R T) l d ↔ l = [] ∧ d = done := by
  constructor
  · intro h
    induction h with
    | refl => exact ⟨rfl, rfl⟩
    | answer _ _ ih => cases ih.2
    | report _ ih => cases ih.2
  · rintro ⟨rfl, rfl⟩
    exact .refl _

@[simp] theorem path_trap_iff {t : T} : Path (trap t : Chain A R T) l d ↔ l = [] ∧ d = trap t := by
  constructor
  · intro h
    induction h with
    | refl => exact ⟨rfl, rfl⟩
    | answer _ _ ih => cases ih.2
    | report _ ih => cases ih.2
  · rintro ⟨rfl, rfl⟩
    exact .refl _

@[simp] theorem path_complete_iff {r : R} {k : Chain A R T} :
    Path (complete r k) l d ↔ l = [] ∧ d = complete r k ∨ ∃ l', l = .report r :: l' ∧ Path k l' d := by
  constructor
  · intro h
    induction h with
    | refl => exact .inl ⟨rfl, rfl⟩
    | answer _ a ih =>
      rcases ih with ⟨_, hd⟩ | ⟨l', rfl, hp⟩
      · cases hd
      · exact .inr ⟨l' ++ [_], rfl, hp.answer a⟩
    | report _ ih =>
      rcases ih with ⟨rfl, hd⟩ | ⟨l', rfl, hp⟩
      · cases hd
        exact .inr ⟨[], rfl, .refl _⟩
      · exact .inr ⟨l' ++ [_], rfl, hp.report⟩
  · rintro (⟨rfl, rfl⟩ | ⟨l', rfl, hp⟩)
    · exact .refl _
    · exact hp.cons_report

@[simp] theorem path_call_iff {q : Q} {k : A q → Chain A R T} :
    Path (call q k) l d ↔ l = [] ∧ d = call q k ∨ ∃ a l', l = .answer q a :: l' ∧ Path (k a) l' d := by
  constructor
  · intro h
    induction h with
    | refl => exact .inl ⟨rfl, rfl⟩
    | answer _ a ih =>
      rcases ih with ⟨rfl, hd⟩ | ⟨b, l', rfl, hp⟩
      · cases hd
        exact .inr ⟨a, [], rfl, .refl _⟩
      · exact .inr ⟨b, l' ++ [_], rfl, hp.answer a⟩
    | report _ ih =>
      rcases ih with ⟨_, hd⟩ | ⟨b, l', rfl, hp⟩
      · cases hd
      · exact .inr ⟨b, l' ++ [_], rfl, hp.report⟩
  · rintro (⟨rfl, rfl⟩ | ⟨a, l', rfl, hp⟩)
    · exact .refl _
    · exact hp.cons_answer

end

end Chain

/-! ## The log of a call -/

section
variable (n : Nat)

def Event.entry : Event ι A R ε → Option (Entry A R)
  | .serve m _ q a => if m = n then some (.answer q a) else none
  | .deliver m _ r => if m = n then some (.report r) else none
  | _ => none

/-- The history has the latest event first. -/
def log (h : List (Event ι A R ε)) : List (Entry A R) := h.reverse.filterMap (Event.entry n)

theorem log_cons (e : Event ι A R ε) (h : List (Event ι A R ε)) :
    log n (e :: h) = log n h ++ (e.entry n).toList := by
  unfold log
  rw [List.reverse_cons, List.filterMap_append]
  cases he : e.entry n with
  | none => simp [he]
  | some x => simp [he]

variable {n}

theorem entry_of_number {e : Event ι A R ε} (h : Machine.eventNumber e ≠ some n) : e.entry n = none := by
  cases e with
  | launch i => rfl
  | env e => rfl
  | serve m i q a => simpa [Event.entry, Machine.eventNumber] using h
  | deliver m i r => simpa [Event.entry, Machine.eventNumber] using h

theorem log_cons_of_number {e : Event ι A R ε} (h : Machine.eventNumber e ≠ some n) (hist : List (Event ι A R ε)) :
    log n (e :: hist) = log n hist := by
  rw [log_cons, entry_of_number h]
  simp

theorem log_eq_nil {h : List (Event ι A R ε)} (hn : ∀ e ∈ h, Machine.eventNumber e ≠ some n) : log n h = [] := by
  induction h with
  | nil => rfl
  | cons e h ih =>
    rw [log_cons_of_number (hn e (by simp))]
    exact ih fun e' he' => hn e' (by simp [he'])

end

namespace Machine

variable {M : Machine σ ι A R T ε} {init : σ → Prop}

/-- In every run the log of a call leads from its code to where it stands. -/
theorem path {x : Pool σ ι A R T × List (Event ι A R ε)} (h : (M.system init).recorded.Reachable x) {n : Nat}
    {t : Task ι A R T} (ht : x.1.tasks[n]? = some t) : (M.body t.tag).Path (log n x.2) t.chain := by
  have hrules : M.NumberedRules fun h n t => (M.body t.tag).Path (log n h) t.chain := {
    other := by
      intro h n t e hn hp
      rw [log_cons_of_number hn]
      exact hp
    launch := by
      intro h n i hn
      rw [log_eq_nil hn]
      exact .refl _
    serve := by
      intro h n i q a k hp
      rw [log_cons]
      simpa [Event.entry] using hp.answer a
    deliver := by
      intro h n i r k hp
      rw [log_cons]
      simpa [Event.entry] using hp.report }
  exact hrules.holds h n t ht

/-! ## How much there is to do -/

def numbered (h : List (Event ι A R ε)) : List (Event ι A R ε) := h.filter fun e => (eventNumber e).isSome

theorem numbered_length {x : Pool σ ι A R T × List (Event ι A R ε)} (h : (M.system init).recorded.Reachable x) :
    (numbered x.2).length = ∑ n ∈ Finset.range x.1.tasks.length, (log n x.2).length := by
  induction h with
  | init h => rw [h.2]; simp [numbered, log]
  | @step x e y hr hs ih =>
    obtain ⟨p, h⟩ := x
    obtain ⟨p', h'⟩ := y
    obtain ⟨hs, rfl⟩ := hs
    have hmoved : ∀ m, eventNumber e = some m → m < p.tasks.length → p'.tasks.length = p.tasks.length →
        (numbered (e :: h)).length = ∑ n ∈ Finset.range p'.tasks.length, (log n (e :: h)).length := by
      intro m hm hlt hlen
      have hadd : ∀ n, (log n (e :: h)).length = (log n h).length + if m = n then 1 else 0 := by
        intro n
        by_cases hn : m = n
        · subst hn
          rw [log_cons, if_pos rfl]
          cases e with
          | launch i => cases hm
          | env e => cases hm
          | serve k i q a => simp only [eventNumber, Option.some.injEq] at hm; simp [Event.entry, hm]
          | deliver k i r => simp only [eventNumber, Option.some.injEq] at hm; simp [Event.entry, hm]
        · rw [log_cons_of_number (by rw [hm]; simpa using hn), if_neg hn, Nat.add_zero]
      simp only [hadd, Finset.sum_add_distrib, hlen, Finset.sum_ite_eq, Finset.mem_range, hlt, if_true]
      rw [← ih]
      simp [numbered, hm]
    cases hs with
    | launch _ =>
      simp only [List.length_append, List.length_singleton, Finset.sum_range_succ]
      rw [log_cons_of_number (by simp [eventNumber]),
        log_eq_nil (fun e he hn => absurd (numbers_lt hr e he _ hn) (Nat.lt_irrefl _))]
      simpa [numbered, eventNumber, log_cons, Event.entry] using ih
    | env _ => simpa [numbered, eventNumber, log_cons, Event.entry] using ih
    | serve _ => exact hmoved _ rfl (by simp) (by simp)
    | deliver _ => exact hmoved _ rfl (by simp) (by simp)

/-- Calls of bounded depth are answered and report boundedly often. -/
theorem numbered_le {N : Nat} (hN : ∀ i, (M.body i).Depth N) {x : Pool σ ι A R T × List (Event ι A R ε)}
    (h : (M.system init).recorded.Reachable x) : (numbered x.2).length ≤ x.1.tasks.length * N := by
  rw [numbered_length h]
  calc ∑ n ∈ Finset.range x.1.tasks.length, (log n x.2).length
      ≤ ∑ _n ∈ Finset.range x.1.tasks.length, N := by
        apply Finset.sum_le_sum
        intro n hn
        have hlt := Finset.mem_range.mp hn
        exact ((path h (List.getElem?_eq_getElem hlt)).depth (hN _)).1
    _ = x.1.tasks.length * N := by simp

/-! ## Ending every call -/

/-- The services can always answer, and completions can always be invoked. -/
structure Responsive (M : Machine σ ι A R T ε) : Prop where
  serve : ∀ s i q, ∃ a s', M.serve s i q a s'
  deliver : ∀ s i r, ∃ s', M.deliver s i r s'

def NoLaunch (_ : Pool σ ι A R T) (e : Event ι A R ε) (_ : Pool σ ι A R T) : Prop := (eventNumber e).isSome

theorem end_task (init : σ → Prop) (hM : M.Responsive) {N : Nat} (s : σ) (i : ι) {c : Chain A R T}
    (hc : c.Depth N) (l r : List (Task ι A R T)) :
    ∃ s' c', (M.system init).Steps NoLaunch ⟨s, l ++ ⟨i, c⟩ :: r⟩ ⟨s', l ++ ⟨i, c'⟩ :: r⟩ ∧ c'.ended = true := by
  induction N generalizing s c with
  | zero =>
    cases c with
    | done => exact ⟨s, _, .refl, rfl⟩
    | trap t => exact ⟨s, _, .refl, rfl⟩
    | complete x k => exact absurd hc (by simp [Chain.Depth])
    | call q k => exact absurd hc (by simp [Chain.Depth])
  | succ N ih =>
    cases c with
    | done => exact ⟨s, _, .refl, rfl⟩
    | trap t => exact ⟨s, _, .refl, rfl⟩
    | complete x k =>
      obtain ⟨s₁, h₁⟩ := hM.deliver s i x
      obtain ⟨s', c', hsteps, hend⟩ := ih s₁ hc
      exact ⟨s', c', .head ⟨_, .deliver h₁, rfl⟩ hsteps, hend⟩
    | call q k =>
      obtain ⟨a, s₁, h₁⟩ := hM.serve s i q
      obtain ⟨s', c', hsteps, hend⟩ := ih s₁ (hc a)
      exact ⟨s', c', .head ⟨_, .serve h₁, rfl⟩ hsteps, hend⟩

/-- Answers and completions alone can bring every call to its end. -/
theorem quiets (hM : M.Responsive) {N : Nat} (s : σ) (l r : List (Task ι A R T))
    (hl : ∀ t ∈ l, t.chain.ended = true)
    (hr : ∀ t ∈ r, t.chain.Depth N) : ∃ p, (M.system init).Steps NoLaunch ⟨s, l ++ r⟩ p ∧ p.Quiet := by
  induction r generalizing s l with
  | nil => exact ⟨⟨s, l ++ []⟩, .refl, fun t ht => hl t (by simpa using ht)⟩
  | cons t r ih =>
    obtain ⟨i, c⟩ := t
    obtain ⟨s₁, c₁, hsteps, hend⟩ := end_task init hM s i (hr ⟨i, c⟩ (by simp)) l r
    have hl₁ : ∀ t ∈ l ++ [⟨i, c₁⟩], t.chain.ended = true := by
      intro t ht
      rcases List.mem_append.mp ht with ht | ht
      · exact hl t ht
      · rw [List.mem_singleton.mp ht]
        exact hend
    obtain ⟨p, hsteps', hquiet⟩ := ih s₁ (l ++ [⟨i, c₁⟩]) hl₁ fun t ht => hr t (by simp [ht])
    rw [List.append_assoc, List.singleton_append] at hsteps'
    exact ⟨p, hsteps.trans hsteps', hquiet⟩

end Machine

end Async
