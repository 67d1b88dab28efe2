import ToDoList.Async.Latest
import ToDoList.Accounts

/-!
# The view models of a session

Every `UserViewModel` registers a snapshot listener for the user who is signed
in when it is made. The registration is kept in `userListener` and never
removed, so a listener and the view model it holds stay for good.
-/

namespace ToDoList

open Async

/-- `user` comes with the uid of the document it was decoded from. -/
structure ViewModel where
  userListener : Option Uid
  user : Option (Uid × User)

/-- `session` is that of `SessionStore`, `pending` what its state listeners have
still to be told. `home` and `shared` are the numbers of the view models of
`CategoryView` and of `UserViewModel.shared`. -/
structure App where
  currentUser : Option Uid
  session : Option Uid
  stateListeners : Nat
  pending : List (Option Uid)
  viewModels : List ViewModel
  home : Option Nat
  shared : Option Nat
  /-- `HomeView` has been rebuilt since the last account change. -/
  rebuilt : Bool

inductive AppEvent
  | accountChange (user : Option Uid)
  | listen
  | notify
  | rebuildHome
  | useShared
  | snapshot (n : Nat) (data : Option Document)
  | listenerError (n : Nat)

namespace App

/-! ## Steps -/

def getCurrentUser (s : App) : ViewModel := { userListener := s.currentUser, user := none }

def addViewModel (s : App) : App := { s with viewModels := s.viewModels ++ [s.getCurrentUser] }

def rebuildHome (s : App) : App :=
  if s.session ≠ none then
    { s.addViewModel with home := some s.viewModels.length, rebuilt := true }
  else { s with home := none, rebuilt := true }

def receive (s : App) (n : Nat) (uid : Uid) (data : Document) : App :=
  { s with viewModels := s.viewModels.modify n fun vm => { vm with user := some (uid, User.ofData data) } }

def next (s : App) : AppEvent → Option App
  | .accountChange user =>
    some { s with
      currentUser := user, pending := s.pending ++ List.replicate s.stateListeners user, rebuilt := false }
  | .listen =>
    some { s with stateListeners := s.stateListeners + 1, pending := s.pending ++ [s.currentUser] }
  | .notify =>
    match s.pending with
    | [] => none
    | user :: pending => some { s with session := user, pending := pending }
  | .rebuildHome => some s.rebuildHome
  | .useShared =>
    match s.shared with
    | some _ => some s
    | none => some { s.addViewModel with shared := some s.viewModels.length }
  | .snapshot n data =>
    match s.viewModels[n]?.bind ViewModel.userListener, data with
    | some uid, some data => some (s.receive n uid data)
    | some _, none => some s
    | none, _ => none
  | .listenerError n =>
    match s.viewModels[n]?.bind ViewModel.userListener with
    | some _ => some s
    | none => none

def Started (s : App) : Prop :=
  s.session = s.currentUser ∧ s.stateListeners = 0 ∧ s.pending = [] ∧ s.viewModels = [] ∧ s.home = none ∧
    s.shared = none ∧ s.rebuilt = false

def system : System App AppEvent where
  init := Started
  step s e s' := s.next e = some s'

/-! ## Isolation -/

def Settled (s : App) : Prop := s.pending = [] ∧ s.rebuilt = true

def Live (s : App) (n : Nat) (vm : ViewModel) : Prop :=
  s.viewModels[n]? = some vm ∧ (vm.userListener ≠ none ∨ s.home = some n ∨ s.shared = some n)

def Isolated (s : App) : Prop :=
  ∀ n vm, s.Live n vm →
    (∀ uid, vm.userListener = some uid → s.currentUser = some uid) ∧
    ∀ uid user, vm.user = some (uid, user) → s.currentUser = some uid

/-- The event makes a view model: `HomeView` is built for a user, or
`UserViewModel.shared` is used for the first time. -/
def Makes (s : App) : AppEvent → Prop
  | .rebuildHome => s.session ≠ none
  | .useShared => s.shared = none
  | _ => False

def accountOf : AppEvent → Option (Option Uid)
  | .accountChange user => some user
  | _ => none

def account (start : App) (h : List AppEvent) : Option Uid := (latest accountOf h).getD start.currentUser

def OwnUsers (s : App) : Prop := ∀ vm ∈ s.viewModels, ∀ uid user, vm.user = some (uid, user) →
    vm.userListener = some uid

section
variable {s s' : App} {e : AppEvent} {user : Option Uid}

/-! ## What a step does to the view models -/

theorem mem_receive {n : Nat} {uid : Uid} {data : Document} {vm : ViewModel}
    (h : vm ∈ (s.receive n uid data).viewModels) :
    vm ∈ s.viewModels ∨ ∃ vm₀, s.viewModels[n]? = some vm₀ ∧
      vm = { vm₀ with user := some (uid, User.ofData data) } := by
  obtain ⟨i, hi⟩ := List.mem_iff_getElem?.mp h
  rw [receive, List.getElem?_modify] at hi
  obtain ⟨vm₀, h₀, rfl⟩ := Option.map_eq_some_iff.mp hi
  by_cases hn : n = i
  · subst hn
    rw [if_pos rfl]
    exact .inr ⟨vm₀, h₀, rfl⟩
  · rw [if_neg hn]
    exact .inl (List.mem_of_getElem? h₀)

theorem receive_listeners (n : Nat) (uid : Uid) (data : Document) :
    (s.receive n uid data).viewModels.map ViewModel.userListener = s.viewModels.map ViewModel.userListener := by
  refine List.ext_getElem? fun i => ?_
  rw [List.getElem?_map, List.getElem?_map, receive, List.getElem?_modify]
  cases s.viewModels[i]? with
  | none => rfl
  | some vm =>
    by_cases hn : n = i
    · simp [hn]
    · simp [hn]

theorem next_viewModels (h : s.next e = some s') :
    ¬ s.Makes e ∧ s'.viewModels = s.viewModels ∨
      s.Makes e ∧ s'.viewModels = s.viewModels ++ [s.getCurrentUser] ∨
      ¬ s.Makes e ∧ ∃ n uid data, s.viewModels[n]?.bind ViewModel.userListener = some uid ∧
        s'.viewModels = (s.receive n uid data).viewModels := by
  cases e with
  | accountChange user => cases h; exact .inl ⟨id, rfl⟩
  | listen => cases h; exact .inl ⟨id, rfl⟩
  | notify =>
    simp only [next] at h
    split at h
    · cases h
    · cases h; exact .inl ⟨id, rfl⟩
  | rebuildHome =>
    cases h
    unfold rebuildHome
    by_cases hs : s.session ≠ none
    · rw [if_pos hs]
      exact .inr (.inl ⟨hs, rfl⟩)
    · rw [if_neg hs]
      exact .inl ⟨hs, rfl⟩
  | useShared =>
    simp only [next] at h
    split at h
    · rename_i hs
      cases h
      exact .inl ⟨by simp [Makes, hs], rfl⟩
    · rename_i hs
      cases h
      exact .inr (.inl ⟨hs, rfl⟩)
  | snapshot n data =>
    simp only [next] at h
    split at h
    · rename_i uid data hl
      cases h
      exact .inr (.inr ⟨id, n, uid, data, hl, rfl⟩)
    · cases h; exact .inl ⟨id, rfl⟩
    · cases h
  | listenerError n =>
    simp only [next] at h
    split at h
    · cases h; exact .inl ⟨id, rfl⟩
    · cases h

theorem next_currentUser (h : s.next e = some s') (he : ∀ user, e ≠ .accountChange user) :
    s'.currentUser = s.currentUser := by
  cases e with
  | accountChange user => exact absurd rfl (he user)
  | rebuildHome =>
    cases h
    unfold rebuildHome
    split <;> rfl
  | _ =>
    simp only [next] at h
    repeat' split at h
    all_goals cases h
    all_goals rfl

theorem next_listeners (h : s.next e = some s') :
    ∃ new, s'.viewModels.map ViewModel.userListener = s.viewModels.map ViewModel.userListener ++ new ∧
      ∀ l, l ∈ new ↔ s.Makes e ∧ s.currentUser = l := by
  rcases next_viewModels h with ⟨hm, hvms⟩ | ⟨hm, hvms⟩ | ⟨hm, n, uid, data, _, hvms⟩
  · exact ⟨[], by simp [hvms], by simp [hm]⟩
  · exact ⟨[s.currentUser], by simp [hvms, getCurrentUser], by simp [hm, eq_comm]⟩
  · exact ⟨[], by simp [hvms, receive_listeners], by simp [hm]⟩

theorem next_ownUsers (h : s.next e = some s') (ho : s.OwnUsers) : s'.OwnUsers := by
  intro vm hvm u user hu
  rcases next_viewModels h with ⟨_, hvms⟩ | ⟨_, hvms⟩ | ⟨_, n, uid, data, hl, hvms⟩
  · rw [hvms] at hvm
    exact ho vm hvm u user hu
  · rw [hvms] at hvm
    rcases List.mem_append.mp hvm with hvm | hvm
    · exact ho vm hvm u user hu
    · rw [List.mem_singleton.mp hvm] at hu
      cases hu
  · rw [hvms] at hvm
    rcases mem_receive hvm with hvm | ⟨vm₀, h₀, rfl⟩
    · exact ho vm hvm u user hu
    · rw [h₀] at hl
      cases hu
      exact hl

/-! ## Who each listener is for -/

theorem isolated_iff (ho : s.OwnUsers) :
    s.Isolated ↔ ∀ l ∈ s.viewModels.map ViewModel.userListener, l = none ∨ l = s.currentUser := by
  constructor
  · intro hiso l hl
    obtain ⟨vm, hvm, rfl⟩ := List.mem_map.mp hl
    obtain ⟨n, hn⟩ := List.mem_iff_getElem?.mp hvm
    cases hu : vm.userListener with
    | none => exact .inl rfl
    | some uid => exact .inr ((hiso n vm ⟨hn, .inl (by simp [hu])⟩).1 uid hu).symm
  · intro hl n vm hlive
    have hvm : vm ∈ s.viewModels := List.mem_of_getElem? hlive.1
    have hlisten : ∀ uid, vm.userListener = some uid → s.currentUser = some uid := by
      intro uid hu
      rcases hl _ (List.mem_map_of_mem hvm) with hnone | hcur
      · rw [hu] at hnone
        cases hnone
      · rw [← hcur, hu]
    exact ⟨hlisten, fun uid user hu => hlisten uid (ho vm hvm uid user hu)⟩

theorem next_unique (s : App) (e : AppEvent) (a b : App) (ha : system.step s e a) (hb : system.step s e b) :
    a = b :=
  Option.some.inj (Eq.trans (Eq.symm ha) hb)

theorem listeners_of_run {start : App} {h : List AppEvent} (h0 : start.viewModels = []) (hr : system.Run start h s)
    (l : Option Uid) :
    l ∈ s.viewModels.map ViewModel.userListener ↔
      ∃ h₁ e h₂ t, h = h₁ ++ e :: h₂ ∧ system.Run start h₂ t ∧ t.Makes e ∧ t.currentUser = l := by
  induction hr with
  | nil => simp [h0]
  | @cons h s e s' hr hst ih =>
    obtain ⟨new, hmap, hnew⟩ := next_listeners hst
    rw [hmap, List.mem_append, hnew, ih]
    constructor
    · rintro (⟨h₁, e', h₂, t, rfl, ht, hmakes⟩ | hmakes)
      · exact ⟨e :: h₁, e', h₂, t, rfl, ht, hmakes⟩
      · exact ⟨[], e, h, s, rfl, hr, hmakes⟩
    · rintro ⟨h₁, e', h₂, t, heq, ht, hmakes⟩
      cases h₁ with
      | nil =>
        cases heq
        obtain rfl := ht.unique next_unique hr
        exact .inr hmakes
      | cons e₁ h₁ =>
        cases heq
        exact .inl ⟨h₁, e', h₂, t, rfl, ht, hmakes⟩

theorem currentUser_of_run {start : App} {h : List AppEvent} (h0 : start.Started) (hr : system.Run start h s) :
    s.currentUser = account start h := by
  have hstep : ∀ s e s', system.Reachable s → system.step s e s' →
      some s'.currentUser = (accountOf e).or (some s.currentUser) := by
    intro s e s' _ hst
    cases e with
    | accountChange user => cases hst; rfl
    | _ => rw [next_currentUser hst (by simp)]; rfl
  have hlatest := hr.latest (g := fun s => some s.currentUser) (.init h0) hstep
  unfold account
  cases hl : latest accountOf h with
  | none => rw [hl] at hlatest; exact Option.some.inj hlatest
  | some user => rw [hl] at hlatest; exact Option.some.inj hlatest

theorem ownUsers_of_reachable (h : system.Reachable s) : s.OwnUsers := by
  induction h with
  | init h0 =>
    obtain ⟨_, _, _, hnone, _⟩ := h0
    intro vm hvm
    rw [hnone] at hvm
    cases hvm
  | step _ hs ih => exact next_ownUsers hs ih

end

end App

/-! ## Session isolation -/

/-- In every state of every run, settled or not, all listeners and users are those
of the current account exactly if nobody or that account was signed in whenever
a view model was made. -/
theorem session_isolation {start s : App} (h0 : start.Started) {h : List AppEvent} (hr : App.system.Run start h s) :
    s.Isolated ↔ ∀ h₁ e h₂ t, h = h₁ ++ e :: h₂ → App.system.Run start h₂ t → t.Makes e →
      App.account start h₂ = none ∨ App.account start h₂ = App.account start h := by
  have hempty : start.viewModels = [] := h0.2.2.2.1
  rw [App.isolated_iff (App.ownUsers_of_reachable (hr.reachable (.init h0))), App.currentUser_of_run h0 hr]
  constructor
  · intro hl h₁ e h₂ t hh ht hmakes
    rw [← App.currentUser_of_run h0 ht]
    exact hl _ ((App.listeners_of_run hempty hr _).mpr ⟨h₁, e, h₂, t, hh, ht, hmakes, rfl⟩)
  · intro hmade l hl
    obtain ⟨h₁, e, h₂, t, hh, ht, hmakes, rfl⟩ := (App.listeners_of_run hempty hr l).mp hl
    rw [App.currentUser_of_run h0 ht]
    exact hmade h₁ e h₂ t hh ht hmakes

theorem session_isolation_run : ∃ s : App, s.Isolated ∧ s.currentUser = some ann ∧ s.viewModels.length = 1 := by
  have hstart : App.Started ⟨none, none, 0, [], [], none, none, false⟩ := ⟨rfl, rfl, rfl, rfl, rfl, rfl, rfl⟩
  have h0 : App.system.Run ⟨none, none, 0, [], [], none, none, false⟩ [] _ := .nil
  have h1 := h0.cons (l := AppEvent.listen) rfl
  have h2 := h1.cons (l := AppEvent.notify) rfl
  have h3 := h2.cons (l := AppEvent.accountChange (some ann)) rfl
  have h4 := h3.cons (l := AppEvent.notify) rfl
  have h5 := h4.cons (l := AppEvent.rebuildHome) rfl
  refine ⟨_, (session_isolation hstart h5).mpr ?_, rfl, rfl⟩
  intro h₁ e h₂ t hh ht hmakes
  cases h₁ with
  | nil => cases hh; exact .inr rfl
  | cons e₁ h₁ =>
    rw [List.cons_append, List.cons.injEq] at hh
    have he : e ∈ h₁ ++ e :: h₂ := List.mem_append_right h₁ List.mem_cons_self
    rw [← hh.2] at he
    simp only [List.mem_cons, List.not_mem_nil, or_false] at he
    rcases he with rfl | rfl | rfl | rfl <;> cases hmakes

/-- The listener of `ann` outlives her session. -/
theorem listener_left_behind : ¬ ∀ s, App.system.Reachable s → s.Settled → s.Isolated := by
  have h0 : App.system.Reachable ⟨some ann, some ann, 0, [], [], none, none, false⟩ :=
    .init ⟨rfl, rfl, rfl, rfl, rfl, rfl, rfl⟩
  have h1 := h0.step (l := AppEvent.listen) rfl
  have h2 := h1.step (l := AppEvent.notify) rfl
  have h3 := h2.step (l := AppEvent.rebuildHome) rfl
  have h4 := h3.step (l := AppEvent.accountChange none) rfl
  have h5 := h4.step (l := AppEvent.notify) rfl
  have h6 := h5.step (l := AppEvent.rebuildHome) rfl
  intro h
  have hiso := h _ h6 ⟨rfl, rfl⟩ 0 ⟨some ann, none⟩ ⟨rfl, .inl (Option.some_ne_none ann)⟩
  exact absurd (hiso.1 ann rfl) (Option.some_ne_none ann).symm

end ToDoList
