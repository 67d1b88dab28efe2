import Mathlib.Data.List.Dedup
import ToDoList.Async.Replay
import ToDoList.Async.System

/-!
# Delivery with retries

Writes wait in a queue for each user, and a connection sends those of one user.
The receiver commits them in their order, and answers. When the connection is
lost the answers on it are lost, and every write that waits is sent again: it
may be committed many times. A write leaves its queue when its answer arrives,
or when it is rejected.
-/

namespace Async

namespace Delivery

/-- A waiting write has the number of the call that reports it, if there is
one. The number of a call is how many there were before it. -/
structure State (U W E : Type) where
  sender : U
  pending : U → List (Option Nat × W)
  /-- How many of the sender's waiting writes have an answer on the way. -/
  answers : Nat
  reported : List (Nat × Option E)
  written : List (U × W)
  committed : List (Option Nat × W)

inductive Event (U W E : Type)
  | write (w : W)
  | commit
  | acknowledge
  | reject (error : E)
  | reset
  | switch (u : U)

variable {U W E : Type}

def report (call : Option Nat) (status : Option E) : List (Nat × Option E) := call.toList.map fun n => (n, status)

def callsOf [DecidableEq U] (written : List (U × W)) (u : U) : List Nat :=
  (List.range written.length).filter fun n => (written[n]?).map Prod.fst = some u

namespace State

def succeeded (s : State U W E) : List Nat := (s.reported.filter fun r => r.2.isNone).map Prod.fst

def commits (s : State U W E) : List Nat := s.committed.filterMap Prod.fst

variable [DecidableEq U]

def reportedOf (s : State U W E) (u : U) : List Nat :=
  (s.reported.map Prod.fst).filter fun n => (s.written[n]?).map Prod.fst = some u

def setPending (s : State U W E) (waiting : List (Option Nat × W)) : U → List (Option Nat × W) :=
  Function.update s.pending s.sender waiting

end State

section
variable [DecidableEq U]

inductive Step : State U W E → Event U W E → State U W E → Prop
  | write {s} (w : W) : Step s (.write w)
      { s with
        pending := s.setPending (s.pending s.sender ++ [(some s.written.length, w)])
        written := s.written ++ [(s.sender, w)] }
  | commit {s e} : (s.pending s.sender)[s.answers]? = some e →
      Step s .commit { s with answers := s.answers + 1, committed := s.committed ++ [e] }
  | acknowledge {s e rest k} : s.pending s.sender = e :: rest → s.answers = k + 1 → Step s .acknowledge
      { s with pending := s.setPending rest, answers := k, reported := s.reported ++ report e.1 none }
  | reject {s e rest} (error : E) : s.pending s.sender = e :: rest → Step s (.reject error)
      { s with pending := s.setPending rest, answers := 0, reported := s.reported ++ report e.1 (some error) }
  | reset {s} : Step s .reset { s with answers := 0 }
  | switch {s} (u : U) : Step s (.switch u) { s with sender := u, answers := 0 }

def Start (s : State U W E) : Prop :=
  s.written = [] ∧ s.reported = [] ∧ s.committed = [] ∧ s.answers = 0 ∧ ∀ u, ∀ e ∈ s.pending u, e.1 = none

def system (U W E : Type) [DecidableEq U] : System (State U W E) (Event U W E) where
  init := Start
  step := Step

/-! ## The invariant -/

structure Good (s : State U W E) : Prop where
  /-- A user's calls have been reported, or their writes wait, in the order of the calls. -/
  calls : ∀ u, callsOf s.written u = s.reportedOf u ++ (s.pending u).filterMap Prod.fst
  known : ∀ n ∈ s.reported.map Prod.fst, n < s.written.length
  carried : ∀ u, ∀ e ∈ s.pending u, ∀ n ∈ e.1, s.written[n]? = some (u, e.2)
  committed : ∀ e ∈ s.committed, ∀ n ∈ e.1, (s.written[n]?).map Prod.snd = some e.2
  served : ∃ earlier, s.committed = earlier ++ (s.pending s.sender).take s.answers
  bounded : s.answers ≤ (s.pending s.sender).length
  ordered : (s.commits.filter fun n => n ∈ s.succeeded).dedup = s.succeeded

theorem callsOf_append (written : List (U × W)) (u v : U) (w : W) :
    callsOf (written ++ [(u, w)]) v = callsOf written v ++ if u = v then [written.length] else [] := by
  unfold callsOf
  rw [List.length_append, List.length_singleton, List.range_succ, List.filter_append]
  congr 1
  · apply List.filter_congr
    intro n hn
    rw [List.getElem?_append_left (List.mem_range.mp hn)]
  · simp [List.filter_singleton]

theorem callsOf_nodup (written : List (U × W)) (u : U) : (callsOf written u).Nodup := List.nodup_range.filter _

theorem Good.not_reported {s : State U W E} (h : Good s) {u : U} {e : Option Nat × W} (he : e ∈ s.pending u)
    {n : Nat}
    (hn : n ∈ e.1) : n ∉ s.reported.map Prod.fst := by
  intro hr
  have hmem : n ∈ s.reportedOf u := by
    unfold State.reportedOf
    rw [List.mem_filter]
    exact ⟨hr, by simp [h.carried u e he n hn]⟩
  have hnodup := callsOf_nodup s.written u
  rw [h.calls u] at hnodup
  exact (List.nodup_append.mp hnodup).2.2 n hmem n (List.mem_filterMap.mpr ⟨e, he, hn⟩) rfl

omit [DecidableEq U] in
theorem succeeded_subset (s : State U W E) {n : Nat} (hn : n ∈ s.succeeded) : n ∈ s.reported.map Prod.fst := by
  unfold State.succeeded at hn
  obtain ⟨r, hr, rfl⟩ := List.mem_map.mp hn
  exact List.mem_map_of_mem (List.mem_filter.mp hr).1

theorem dedup_concat (l : List Nat) (n : Nat) : (l ++ [n]).dedup = (l.filter (· ≠ n)).dedup ++ [n] := by
  induction l with
  | nil => rfl
  | cons x l ih =>
    rw [List.cons_append]
    by_cases hx : x ∈ l ++ [n]
    · rw [List.dedup_cons_of_mem hx, ih]
      by_cases hn : x = n
      · simp [hn]
      · have hmem : x ∈ l := by simpa [hn] using hx
        rw [List.filter_cons_of_pos (by simpa using hn), List.dedup_cons_of_mem (by simp [hmem, hn])]
    · have hn : x ≠ n := by
        rintro rfl
        simp at hx
      have hmem : x ∉ l.filter (· ≠ n) := by
        intro hmem
        exact hx (List.mem_append_left _ (List.mem_filter.mp hmem).1)
      rw [List.dedup_cons_of_notMem hx, ih, List.filter_cons_of_pos (by simpa using hn),
        List.dedup_cons_of_notMem hmem]
      rfl

/-! ## One step -/

theorem Good.start {s : State U W E} (h : Start s) : Good s := by
  obtain ⟨hwritten, hreported, hcommitted, hanswers, hpending⟩ := h
  have hnone : ∀ u, (s.pending u).filterMap Prod.fst = [] := by
    intro u
    rw [List.filterMap_eq_nil_iff]
    exact hpending u
  constructor
  · intro u
    rw [hnone]
    simp [callsOf, State.reportedOf, hwritten, hreported]
  · simp [hreported]
  · intro u e he n hn
    rw [hpending u e he] at hn
    cases hn
  · simp [hcommitted]
  · exact ⟨[], by simp [hcommitted, hanswers]⟩
  · omega
  · simp [State.commits, State.succeeded, hcommitted, hreported]

theorem Good.write {s : State U W E} (h : Good s) (w : W) : Good
    { s with
      pending := s.setPending (s.pending s.sender ++ [(some s.written.length, w)])
      written := s.written ++ [(s.sender, w)] } := by
  have hkept : ∀ n < s.written.length, (s.written ++ [(s.sender, w)])[n]? = s.written[n]? :=
    fun n hn => List.getElem?_append_left hn
  have hsome : ∀ (n : Nat) (v : U × W), s.written[n]? = some v → (s.written ++ [(s.sender, w)])[n]? = some v := by
    intro n v hn
    rw [hkept n (List.getElem?_eq_some_iff.mp hn).1]
    exact hn
  constructor
  · intro u
    have hreported : State.reportedOf { s with
        pending := s.setPending (s.pending s.sender ++ [(some s.written.length, w)])
        written := s.written ++ [(s.sender, w)] } u = s.reportedOf u := by
      apply List.filter_congr
      intro n hn
      rw [hkept n (h.known n hn)]
    rw [hreported, callsOf_append, h.calls u, List.append_assoc]
    congr 1
    unfold State.setPending
    by_cases hu : s.sender = u
    · subst hu
      simp
    · simp [hu, Function.update_of_ne (Ne.symm hu)]
  · intro n hn
    have := h.known n hn
    simp only [List.length_append]
    omega
  · intro u e he n hn
    have he : e ∈ s.setPending (s.pending s.sender ++ [(some s.written.length, w)]) u := he
    show (s.written ++ [(s.sender, w)])[n]? = some (u, e.2)
    unfold State.setPending at he
    by_cases hu : u = s.sender
    · subst hu
      rw [Function.update_self] at he
      rcases List.mem_append.mp he with he | he
      · exact hsome n _ (h.carried _ e he n hn)
      · rw [List.mem_singleton.mp he] at hn ⊢
        cases hn
        simp
    · rw [Function.update_of_ne hu] at he
      exact hsome n _ (h.carried u e he n hn)
  · intro e he n hn
    obtain ⟨v, hv, hw⟩ := Option.map_eq_some_iff.mp (h.committed e he n hn)
    rw [hsome n v hv, ← hw]
    rfl
  · obtain ⟨earlier, hearlier⟩ := h.served
    refine ⟨earlier, ?_⟩
    simp only [State.setPending, Function.update_self]
    rw [hearlier, List.take_append_of_le_length h.bounded]
  · have := h.bounded
    simp only [State.setPending, Function.update_self, List.length_append]
    omega
  · exact h.ordered

theorem Good.commit {s : State U W E} (h : Good s) {e : Option Nat × W}
    (he : (s.pending s.sender)[s.answers]? = some e) :
    Good { s with answers := s.answers + 1, committed := s.committed ++ [e] } := by
  obtain ⟨hlt, hget⟩ := List.getElem?_eq_some_iff.mp he
  have hmem : e ∈ s.pending s.sender := hget ▸ List.getElem_mem hlt
  constructor
  · exact h.calls
  · exact h.known
  · exact h.carried
  · intro e' he' n hn
    rcases List.mem_append.mp he' with he' | he'
    · exact h.committed e' he' n hn
    · rw [List.mem_singleton.mp he'] at hn ⊢
      rw [h.carried _ e hmem n hn]
      rfl
  · obtain ⟨earlier, hearlier⟩ := h.served
    refine ⟨earlier, ?_⟩
    rw [hearlier, List.take_succ_eq_append_getElem hlt, hget, List.append_assoc]
  · exact hlt
  · have hfresh : ∀ n ∈ e.1, n ∉ s.succeeded := fun n hn hs => h.not_reported hmem hn (succeeded_subset s hs)
    show ((State.commits { s with answers := s.answers + 1, committed := s.committed ++ [e] }).filter fun n =>
      n ∈ s.succeeded).dedup = s.succeeded
    unfold State.commits
    rw [List.filterMap_append, List.filter_append]
    have hnone : (([e].filterMap Prod.fst).filter fun n => n ∈ s.succeeded) = [] := by
      rw [List.filter_eq_nil_iff]
      intro n hn hs
      obtain ⟨e', he', hn⟩ := List.mem_filterMap.mp hn
      rw [List.mem_singleton.mp he'] at hn
      exact hfresh n hn (of_decide_eq_true hs)
    rw [hnone, List.append_nil]
    exact h.ordered

section
variable {s : State U W E} {e : Option Nat × W} {rest : List (Option Nat × W)}

theorem report_calls (call : Option Nat) (status : Option E) : (report call status).map Prod.fst = call.toList := by
  cases call <;> rfl

theorem Good.answered_calls (h : Good s) (he : s.pending s.sender = e :: rest) (status : Option E) (u : U) :
    callsOf s.written u =
      ((s.reported ++ report e.1 status).map Prod.fst).filter (fun n => (s.written[n]?).map Prod.fst = some u) ++
        (s.setPending rest u).filterMap Prod.fst := by
  have hcarried := h.carried s.sender e (by rw [he]; simp)
  rw [h.calls u, List.map_append, report_calls, List.filter_append, State.reportedOf, List.append_assoc]
  congr 1
  unfold State.setPending
  by_cases hu : u = s.sender
  · subst hu
    rw [Function.update_self, he, List.filterMap_cons]
    cases hcall : e.1 with
    | none => simp
    | some n => simp [hcarried n hcall]
  · rw [Function.update_of_ne hu]
    cases hcall : e.1 with
    | none => simp
    | some n => simp [hcarried n hcall, Ne.symm hu]

theorem Good.answered_known (h : Good s) (he : s.pending s.sender = e :: rest) (status : Option E) :
    ∀ n ∈ (s.reported ++ report e.1 status).map Prod.fst, n < s.written.length := by
  intro n hn
  rw [List.map_append, report_calls] at hn
  rcases List.mem_append.mp hn with hn | hn
  · exact h.known n hn
  · have hcarried := h.carried s.sender e (by rw [he]; simp) n (by simpa using hn)
    exact (List.getElem?_eq_some_iff.mp hcarried).1

theorem Good.answered_carried (h : Good s) (he : s.pending s.sender = e :: rest) :
    ∀ u, ∀ e' ∈ s.setPending rest u, ∀ n ∈ e'.1, s.written[n]? = some (u, e'.2) := by
  intro u e' he' n hn
  unfold State.setPending at he'
  by_cases hu : u = s.sender
  · subst hu
    rw [Function.update_self] at he'
    exact h.carried _ e' (by rw [he]; simp [he']) n hn
  · rw [Function.update_of_ne hu] at he'
    exact h.carried u e' he' n hn

theorem Good.reject (h : Good s) (error : E) (he : s.pending s.sender = e :: rest) : Good
    { s with pending := s.setPending rest, answers := 0, reported := s.reported ++ report e.1 (some error) } where
  calls := h.answered_calls he (some error)
  known := h.answered_known he (some error)
  carried := h.answered_carried he
  committed := h.committed
  served := ⟨s.committed, by simp⟩
  bounded := Nat.zero_le _
  ordered := by
    have hsame : State.succeeded
        { s with pending := s.setPending rest, answers := 0, reported := s.reported ++ report e.1 (some error) } =
        s.succeeded := by
      unfold State.succeeded report
      cases e.1 <;> simp
    rw [hsame]
    exact h.ordered

theorem Good.waiting_fresh (h : Good s) (he : s.pending s.sender = e :: rest) {n : Nat} (hn : e.1 = some n)
    {m : Nat}
    (hm : m ∈ rest.filterMap Prod.fst) : m ∉ s.succeeded ∧ m ≠ n := by
  constructor
  · intro hs
    obtain ⟨e', he', hm⟩ := List.mem_filterMap.mp hm
    exact h.not_reported (u := s.sender) (e := e') (by rw [he]; simp [he']) hm (succeeded_subset s hs)
  · have hnodup := callsOf_nodup s.written s.sender
    rw [h.calls, he, List.filterMap_cons_some hn] at hnodup
    have hcons := (List.nodup_append.mp hnodup).2.1
    rintro rfl
    exact (List.nodup_cons.mp hcons).1 hm

/-- The call that is acknowledged was committed last of those that succeeded. -/
theorem Good.acknowledge_ordered (h : Good s) {k n : Nat} (he : s.pending s.sender = e :: rest)
    (hk : s.answers = k + 1)
    (hn : e.1 = some n) : (s.commits.filter fun m => m ∈ s.succeeded ++ [n]).dedup = s.succeeded ++ [n] := by
  obtain ⟨earlier, hearlier⟩ := h.served
  have hordered := h.ordered
  have hfresh : n ∉ s.succeeded := fun hs =>
    h.not_reported (u := s.sender) (e := e) (by rw [he]; simp) hn (succeeded_subset s hs)
  have hcommits : s.commits = earlier.filterMap Prod.fst ++ n :: (rest.take k).filterMap Prod.fst := by
    unfold State.commits
    rw [hearlier, he, hk, List.take_succ_cons, List.filterMap_append, List.filterMap_cons_some hn]
  have hlater : ∀ m ∈ (rest.take k).filterMap Prod.fst, m ∉ s.succeeded ∧ m ≠ n := by
    intro m hm
    apply h.waiting_fresh he hn
    obtain ⟨e', he', hm⟩ := List.mem_filterMap.mp hm
    exact List.mem_filterMap.mpr ⟨e', List.mem_of_mem_take he', hm⟩
  rw [hcommits] at hordered ⊢
  rw [List.filter_append] at hordered ⊢
  have hnone : (n :: (rest.take k).filterMap Prod.fst).filter (fun m => m ∈ s.succeeded) = [] := by
    rw [List.filter_eq_nil_iff]
    intro m hm
    rcases List.mem_cons.mp hm with rfl | hm
    · simpa using hfresh
    · simpa using (hlater m hm).1
  have hone : (n :: (rest.take k).filterMap Prod.fst).filter (fun m => m ∈ s.succeeded ++ [n]) = [n] := by
    rw [List.filter_cons_of_pos (by simp), List.filter_eq_nil_iff.mpr]
    intro m hm
    simpa using hlater m hm
  rw [hnone, List.append_nil] at hordered
  rw [hone, dedup_concat, List.filter_filter]
  congr 1
  rw [← hordered]
  congr 1
  apply List.filter_congr
  intro m _
  rw [hordered]
  by_cases hm : m = n
  · subst hm
    simpa using hfresh
  · simp [hm]

theorem Good.acknowledge (h : Good s) {k : Nat} (he : s.pending s.sender = e :: rest) (hk : s.answers = k + 1) :
    Good
    { s with pending := s.setPending rest, answers := k, reported := s.reported ++ report e.1 none } where
  calls := h.answered_calls he none
  known := h.answered_known he none
  carried := h.answered_carried he
  committed := h.committed
  served := by
    obtain ⟨earlier, hearlier⟩ := h.served
    refine ⟨earlier ++ [e], ?_⟩
    simp [hearlier, State.setPending, he, hk]
  bounded := by
    have := h.bounded
    rw [he, hk, List.length_cons] at this
    simp only [State.setPending, Function.update_self]
    omega
  ordered := by
    show (s.commits.filter fun n => n ∈ State.succeeded { s with
      pending := s.setPending rest, answers := k, reported := s.reported ++ report e.1 none }).dedup =
        State.succeeded { s with
      pending := s.setPending rest, answers := k, reported := s.reported ++ report e.1 none }
    have hsucceeded : State.succeeded { s with
        pending := s.setPending rest, answers := k, reported := s.reported ++ report e.1 none } =
        s.succeeded ++ e.1.toList := by
      unfold State.succeeded report
      cases e.1 <;> simp
    rw [hsucceeded]
    cases hcall : e.1 with
    | none => simpa using h.ordered
    | some n => exact h.acknowledge_ordered he hk hcall

end

theorem Good.step {s s' : State U W E} {ev : Event U W E} (h : Good s) (hst : Step s ev s') : Good s' := by
  cases hst with
  | write w => exact h.write w
  | commit he => exact h.commit he
  | acknowledge he hk => exact h.acknowledge he hk
  | reject error he => exact h.reject error he
  | reset =>
    exact ⟨h.calls, h.known, h.carried, h.committed, ⟨s.committed, by simp⟩, Nat.zero_le _, h.ordered⟩
  | switch u =>
    exact ⟨h.calls, h.known, h.carried, h.committed, ⟨s.committed, by simp⟩, Nat.zero_le _, h.ordered⟩

theorem good_of_reachable {s : State U W E} (hr : (system U W E).Reachable s) : Good s :=
  System.Invariant.holds (I := Good) ⟨fun _ h => .start h, fun _ _ _ h hst => h.step hst⟩ hr

/-! ## What has been delivered -/

section
variable {s : State U W E}

theorem Good.reported_nodup (h : Good s) : (s.reported.map Prod.fst).Nodup := by
  rw [List.nodup_iff_count_le_one]
  intro n
  by_cases hn : n ∈ s.reported.map Prod.fst
  · obtain ⟨w, hw⟩ : ∃ w, s.written[n]? = some w := ⟨_, List.getElem?_eq_getElem (h.known n hn)⟩
    have hnodup := callsOf_nodup s.written w.1
    rw [h.calls w.1] at hnodup
    have hcount := List.nodup_iff_count_le_one.mp (List.nodup_append.mp hnodup).1 n
    unfold State.reportedOf at hcount
    rw [List.count_filter (by simp [hw])] at hcount
    exact hcount
  · rw [List.count_eq_zero_of_not_mem hn]
    exact Nat.zero_le 1

theorem Good.reported_all (h : Good s) {u : U} (hu : s.pending u = []) : s.reportedOf u = callsOf s.written u := by
  rw [h.calls u, hu]
  simp

theorem mem_callsOf {written : List (U × W)} {u : U} {n : Nat} :
    n ∈ callsOf written u ↔ (written[n]?).map Prod.fst = some u := by
  unfold callsOf
  rw [List.mem_filter, List.mem_range, decide_eq_true_eq]
  constructor
  · exact fun h => h.2
  · intro h
    obtain ⟨w, hw, _⟩ := Option.map_eq_some_iff.mp h
    exact ⟨(List.getElem?_eq_some_iff.mp hw).1, h⟩

theorem Good.committed_of_succeeded (h : Good s) {n : Nat} (hn : n ∈ s.succeeded) :
    ∃ e ∈ s.committed, e.1 = some n := by
  rw [← h.ordered, List.mem_dedup, List.mem_filter] at hn
  unfold State.commits at hn
  obtain ⟨e, he, hcall⟩ := List.mem_filterMap.mp hn.1
  exact ⟨e, he, hcall⟩

/-- If no write waits and none was rejected, all that was committed has succeeded. -/
theorem Good.succeeded_of_committed (h : Good s) (hquiet : ∀ w ∈ s.written, s.pending w.1 = [])
    (hok : ∀ r ∈ s.reported, r.2 = none)
    {e : Option Nat × W} (he : e ∈ s.committed) {n : Nat} (hn : e.1 = some n) : n ∈ s.succeeded := by
  obtain ⟨w, hw, _⟩ := Option.map_eq_some_iff.mp (h.committed e he n hn)
  have hcall : n ∈ callsOf s.written w.1 := by
    rw [mem_callsOf, hw]
    rfl
  rw [← h.reported_all (hquiet w (List.mem_of_getElem? hw))] at hcall
  obtain ⟨r, hr, rfl⟩ := List.mem_map.mp (List.mem_filter.mp hcall).1
  unfold State.succeeded
  exact List.mem_map_of_mem (List.mem_filter.mpr ⟨hr, by simp [hok r hr]⟩)

/-- If all that was committed has succeeded, the commits have the effect of
each write once, in the order of the reports. -/
theorem Good.replay {σ : Type} {act : W → σ → σ} (h : Good s) (hact : Absorbing act)
    (hall : ∀ e ∈ s.committed, ∃ n ∈ s.succeeded, e.1 = some n) (x : σ) :
    Async.replay act (s.committed.map Prod.snd) x =
      Async.replay act (s.succeeded.filterMap fun n => (s.written[n]?).map Prod.snd) x := by
  let write : Nat → Option W := fun n => (s.written[n]?).map Prod.snd
  have hmap : s.committed.map Prod.snd = s.commits.filterMap write := by
    have hwrite : ∀ e ∈ s.committed, e.1.bind write = some e.2 := by
      intro e he
      obtain ⟨n, _, hn⟩ := hall e he
      rw [hn]
      exact h.committed e he n hn
    unfold State.commits
    rw [List.filterMap_filterMap, ← List.filterMap_eq_map]
    exact List.filterMap_congr fun e he => (hwrite e he).symm
  have hfilter : s.commits.filter (fun n => n ∈ s.succeeded) = s.commits := by
    rw [List.filter_eq_self]
    intro n hn
    obtain ⟨e, he, hn⟩ := List.mem_filterMap.mp hn
    obtain ⟨m, hm, he⟩ := hall e he
    rw [hn, Option.some.injEq] at he
    simpa [he] using hm
  have hordered := h.ordered
  rw [hfilter] at hordered
  rw [hmap, ← hordered, ← replay_option, ← replay_option]
  exact ((hact.option.comp write).replay_dedup s.commits x).symm

theorem reported_errors (ok : E → Prop)
    (hr : ((system U W E).restrict fun _ ev _ => ∀ error, ev = .reject error → ok error).Reachable s) :
    ∀ r ∈ s.reported, ∀ error ∈ r.2, ok error := by
  induction hr with
  | init h =>
    intro r hr
    rw [h.2.1] at hr
    cases hr
  | step _ hst ih =>
    obtain ⟨hst, hok⟩ := hst
    have hreport : ∀ (call : Option Nat) (status : Option E), (∀ error ∈ status, ok error) →
        ∀ r ∈ report call status, ∀ error ∈ r.2, ok error := by
      intro call status hstatus r hr
      obtain ⟨n, _, rfl⟩ := List.mem_map.mp hr
      exact hstatus
    cases hst with
    | write w => exact ih
    | commit he => exact ih
    | acknowledge he hk =>
      intro r hr
      rcases List.mem_append.mp hr with hr | hr
      · exact ih r hr
      · exact hreport _ none (by simp) r hr
    | reject error he =>
      intro r hr
      rcases List.mem_append.mp hr with hr | hr
      · exact ih r hr
      · exact hreport _ (some error) (by simpa using hok error rfl) r hr
    | reset => exact ih
    | switch u => exact ih

end

end

end Delivery

end Async
