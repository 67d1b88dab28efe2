import ToDoList.Reports

/-!
# Where passwords go

A run is replayed with other passwords. The state of the services, what the
completions are given and every request but the two that Auth checks a password
in stay as they were.
-/

namespace ToDoList

open Async

variable (π : String → String)

/-! ## Other passwords -/

def Op.withPassword : Op → Op
  | .logUserIn info => .logUserIn { info with password := π info.password }
  | .createUser info => .createUser { info with password := π info.password }
  | op => op

def Call.withPassword (call : Call) : Call := { call with op := call.op.withPassword π }

/-- Answers are as they were. -/
def Happening.withPassword : Happening → Happening
  | .launch call => .launch (call.withPassword π)
  | .serve n call (.signIn email password) a => .serve n (call.withPassword π) (.signIn email (π password)) a
  | .serve n call (.createUser email password) a => .serve n (call.withPassword π)
    (.createUser email (π password)) a
  | .serve n call q a => .serve n (call.withPassword π) q a
  | .deliver n call r => .deliver n (call.withPassword π) r
  | .env e => .env e

/-- Neither a login nor a registration. -/
def Request.Plain (q : Request) : Prop :=
  (∀ email password, q ≠ .signIn email password) ∧ ∀ email password, q ≠ .createUser email password

theorem withPassword_serve {n : Nat} {call : Call} {q : Request} (hq : q.Plain) (a : q.Answer) :
    Happening.withPassword π (.serve n call q a) = .serve n (call.withPassword π) q a := by
  cases q with
  | signIn email password => exact absurd rfl (hq.1 email password)
  | createUser email password => exact absurd rfl (hq.2 email password)
  | _ => rfl

/-! ## Chains that differ in passwords -/

inductive Alike : Callbacks → Callbacks → Prop
  | done : Alike .done .done
  | trap (t) : Alike (.trap t) (.trap t)
  | complete (r) {k k'} : Alike k k' → Alike (.complete r k) (.complete r k')
  | call (q : Request) {k k'} : q.Plain → (∀ a, Alike (k a) (k' a)) → Alike (.call q k) (.call q k')
  | signIn (email password) {k k'} : (∀ a, Alike (k a) (k' a)) →
      Alike (.call (.signIn email password) k) (.call (.signIn email (π password)) k')
  | createUser (email password) {k k'} : (∀ a, Alike (k a) (k' a)) →
      Alike (.call (.createUser email password) k) (.call (.createUser email (π password)) k')

section
variable {π}

theorem Alike.self {c : Callbacks} (h : ∀ q k, c.Leads (.call q k) → q.Plain) : Alike π c c := by
  induction c with
  | done => exact .done
  | trap t => exact .trap t
  | complete r k ih => exact .complete r (ih fun q k' hl => h q k' ((Chain.Leads.report (.refl _)).trans hl))
  | call q k ih =>
    exact .call q (h q k (.refl _)) fun a => ih a fun q' k' hl =>
      h q' k' ((Chain.Leads.answer (.refl _) a).trans hl)

/-- Only a login and a registration ask with a password. -/
theorem At.plain {op : Op} {q : Request} {k : q.Answer → Callbacks} (h : At op (.call q k))
    (hl : ∀ info, op ≠ .logUserIn info) (hr : ∀ info, op ≠ .createUser info) : q.Plain := by
  cases h with
  | signIn info => exact absurd rfl (hl info)
  | register info => exact absurd rfl (hr info)
  | _ => simp [Request.Plain]

theorem alike_created (info : RegistrationInfo) (newUser : Uid) (profileImgUrl : String) :
    Alike π (RegistrationService.createDocument info newUser profileImgUrl)
      (RegistrationService.createDocument { info with password := π info.password } newUser profileImgUrl) := by
  rw [RegistrationService.createDocument_eq, RegistrationService.createDocument_eq]
  exact .call _ (by simp [Request.Plain]) fun error => .complete _ .done

theorem alike_userCreated (info : RegistrationInfo) (a : Except FBError (Option Uid)) :
    Alike π (RegistrationService.userCreated info a)
      (RegistrationService.userCreated { info with password := π info.password } a) := by
  cases a using answer_cases with
  | error e => exact .complete _ .done
  | nil => exact .done
  | value newUser =>
    simp only [RegistrationService.userCreated]
    split
    · exact .done
    · refine .call _ (by simp [Request.Plain]) fun a => ?_
      cases a with
      | error e => exact .complete _ .done
      | ok object =>
        refine .call _ (by simp [Request.Plain]) fun a => ?_
        cases a using answer_cases with
        | error e => exact .complete _ .done
        | nil => exact .done
        | value url => exact alike_created info newUser url

theorem alike_body (op : Op) : Alike π op.body (op.withPassword π).body := by
  cases op with
  | logUserIn info =>
    refine .signIn _ _ fun a => ?_
    cases a with
    | error e => exact .complete _ .done
    | ok user => exact .done
  | createUser info => exact .createUser _ _ (alike_userCreated info)
  | resetPassword info => exact .self fun q k h => (At.of_leads h).plain (by simp) (by simp)
  | updateEmail info => exact .self fun q k h => (At.of_leads h).plain (by simp) (by simp)
  | updateUserInfoWithImage info => exact .self fun q k h => (At.of_leads h).plain (by simp) (by simp)
  | updateUserInfoNoImage info => exact .self fun q k h => (At.of_leads h).plain (by simp) (by simp)

end

/-! ## The services do not keep passwords -/

theorem serve_signIn_password (fb : Firebase) (c : Client) (email password password' : String)
    (a : Except FBError (Option Uid)) :
    fb.serve c (.signIn email password') a = fb.serve c (.signIn email password) a := by
  cases a using answer_cases with
  | error e => rfl
  | nil => rfl
  | value user => rfl

theorem serve_createUser_password (fb : Firebase) (c : Client) (email password password' : String)
    (a : Except FBError (Option Uid)) :
    fb.serve c (.createUser email password') a = fb.serve c (.createUser email password) a := by
  cases a using answer_cases with
  | error e => rfl
  | nil => rfl
  | value user => rfl

/-! ## Runs that differ in passwords -/

def TaskAlike (t t' : CallTask) : Prop := t'.tag = t.tag.withPassword π ∧ Alike π t.chain t'.chain

/-- The same services, and tasks that differ in passwords. -/
structure PoolAlike (p p' : Clients) : Prop where
  state : p'.state = p.state
  tasks : List.Forall₂ (TaskAlike π) p.tasks p'.tasks

section
variable {π}

theorem forall₂_split {α β : Type} {P : α → β → Prop} {l r : List α} {t : α} {w : List β}
    (h : List.Forall₂ P (l ++ t :: r) w) :
    ∃ l' t' r', w = l' ++ t' :: r' ∧ l'.length = l.length ∧ List.Forall₂ P l l' ∧ P t t' ∧ List.Forall₂ P r r' := by
  induction l generalizing w with
  | nil =>
    cases h with
    | cons ht hr => exact ⟨[], _, _, rfl, rfl, .nil, ht, hr⟩
  | cons x l ih =>
    cases h with
    | cons hx h =>
      obtain ⟨l', t', r', rfl, hlen, hl, ht, hr⟩ := ih h
      exact ⟨_ :: l', t', r', rfl, by simp [hlen], .cons hx hl, ht, hr⟩

theorem alike_step {allowed : World → Call → Prop}
    (hallowed : ∀ w call, allowed w call → allowed w (call.withPassword π))
    {p q p' : Clients} {e : Happening} (hs : (accounts allowed).Step p e q) (hp : PoolAlike π p p') :
    ∃ q', (accounts allowed).Step p' (Happening.withPassword π e) q' ∧ PoolAlike π q q' := by
  obtain ⟨s', ts'⟩ := p'
  obtain ⟨rfl, htasks⟩ := hp
  cases hs with
  | @launch s call _ ts h =>
    obtain ⟨hcall, rfl⟩ := h
    refine ⟨_, .launch (M := accounts allowed) ⟨hallowed _ _ hcall, rfl⟩, rfl, ?_⟩
    exact List.rel_append htasks (.cons ⟨rfl, alike_body call.op⟩ .nil)
  | env h => exact ⟨_, .env h, rfl, htasks⟩
  | @deliver s call r k _ l rest h =>
    obtain ⟨l', ⟨call', c'⟩, r', rfl, hlen, hl, ⟨htag, ht⟩, hr⟩ := forall₂_split htasks
    subst htag
    cases ht with
    | @complete _ _ k' hk =>
      have hstep := Machine.Step.deliver (M := accounts allowed) (i := call.withPassword π) (x := r) (k := k')
        (l := l') (r := r') h
      rw [hlen] at hstep
      exact ⟨_, hstep, rfl, List.rel_append hl (.cons ⟨rfl, hk⟩ hr)⟩
  | @serve s call q a k _ l rest h =>
    obtain ⟨fb, hfb, rfl⟩ := h
    obtain ⟨l', ⟨call', c'⟩, r', rfl, hlen, hl, ⟨htag, ht⟩, hr⟩ := forall₂_split htasks
    subst htag
    cases ht with
    | @call _ _ k' hq hk =>
      have hstep := Machine.Step.serve (M := accounts allowed) (i := call.withPassword π) (k := k') (l := l')
        (r := r')
        ⟨fb, hfb, rfl⟩
      rw [hlen, ← withPassword_serve π hq] at hstep
      exact ⟨_, hstep, rfl, List.rel_append hl (.cons ⟨rfl, hk a⟩ hr)⟩
    | @signIn email password _ k' hk =>
      have hserve : s.fb.serve call.client (.signIn email (π password)) a = some fb :=
        (serve_signIn_password _ _ _ _ _ _).trans hfb
      have hstep := Machine.Step.serve (M := accounts allowed) (i := call.withPassword π) (k := k') (l := l')
        (r := r')
        ⟨fb, hserve, rfl⟩
      rw [hlen] at hstep
      exact ⟨_, hstep, rfl, List.rel_append hl (.cons ⟨rfl, hk a⟩ hr)⟩
    | @createUser email password _ k' hk =>
      have hserve : s.fb.serve call.client (.createUser email (π password)) a = some fb :=
        (serve_createUser_password _ _ _ _ _ _).trans hfb
      have hstep := Machine.Step.serve (M := accounts allowed) (i := call.withPassword π) (k := k') (l := l')
        (r := r')
        ⟨fb, hserve, rfl⟩
      rw [hlen] at hstep
      exact ⟨_, hstep, rfl, List.rel_append hl (.cons ⟨rfl, hk a⟩ hr)⟩

end

/-- Whatever the passwords of a run are replaced by, there is a run that differs
from it in them alone: in the calls that are made and in what Auth is asked to
sign in or to create. -/
theorem passwords_reach_auth_alone {allowed : World → Call → Prop} {init : World → Prop}
    (hallowed : ∀ w call, allowed w call → allowed w (call.withPassword π)) {x : Clients × List Happening}
    (hr : ((accounts allowed).system init).recorded.Reachable x) :
    ∃ y, ((accounts allowed).system init).recorded.Reachable y ∧ y.1.state = x.1.state ∧
      y.2 = x.2.map (Happening.withPassword π) := by
  suffices h : ∃ y, ((accounts allowed).system init).recorded.Reachable y ∧ PoolAlike π x.1 y.1 ∧
      y.2 = x.2.map (Happening.withPassword π) by
    obtain ⟨y, hy, hp, hh⟩ := h
    exact ⟨y, hy, hp.state, hh⟩
  induction hr with
  | @init x h =>
    refine ⟨x, .init h, ⟨rfl, ?_⟩, by simp [h.2]⟩
    rw [h.1.2]
    exact .nil
  | @step x e z hx hs ih =>
    obtain ⟨y, hy, hp, hh⟩ := ih
    obtain ⟨hs, hz⟩ := hs
    obtain ⟨q', hstep, hq⟩ := alike_step hallowed hs hp
    exact ⟨(q', Happening.withPassword π e :: y.2), hy.step ⟨hstep, rfl⟩, hq, by rw [hz, hh, List.map_cons]⟩

theorem passwords_reach_auth_alone_ann : ∃ y : Clients × List Happening,
    y.1.state.fb = Firebase.withAnn ∧
      Event.serve 0 ⟨0, .createUser { annInfo with password := "" }⟩ (.createUser "a@x.com" "")
        (.ok (some ann)) ∈ y.2 := by
  have hr : ((accounts fun _ _ => True).system fun w => w = World.start).recorded.Reachable _ :=
    recorded_withAnn trivial rfl
  obtain ⟨y, _, hstate, hh⟩ := passwords_reach_auth_alone (fun _ => "") (fun _ _ _ => trivial) hr
  refine ⟨y, by rw [hstate], ?_⟩
  rw [hh]
  simp [annHistory, Happening.withPassword, Call.withPassword, annCall, Op.withPassword, annInfo]

end ToDoList
