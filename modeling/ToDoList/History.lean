import ToDoList.Accounts

/-!
# What the history of a run tells of a registration

A registration learns the account it makes from the answer to its first
request, and all its later requests are about that account.
-/

namespace ToDoList

open Async

abbrev History := List Happening

/-- Call number `n` is a registration that has made the account `uid`. -/
def Created (h : History) (n : Nat) (uid : Uid) : Prop :=
  ∃ c info email password, Event.serve n ⟨c, .createUser info⟩ (.createUser email password) (.ok (some uid)) ∈ h

def Request.concerns (uid : Uid) : Request → Prop
  | .putData object _ _ => object = FB.image uid.1
  | .downloadURL object => object = FB.image uid.1
  | .setData docRef _ _ => FB.userDocument uid.1 = some docRef
  | _ => False

structure RegistrationKnown (h : History) (n : Nat) (t : CallTask) : Prop where
  code : At t.tag.op t.chain
  unmade : ∀ email password, t.chain.awaits = some (.createUser email password) → ∀ uid, ¬ Created h n uid
  known : ∀ info, t.tag.op = .createUser info → ∀ q, t.chain.awaits = some q → ∀ uid, q.concerns uid →
    Created h n uid
  unique : ∀ u v, Created h n u → Created h n v → u = v

section
variable {h : History} {n : Nat} {uid newUser : Uid} {e : Happening}

theorem created_cons (he : ∀ c info email password,
    e ≠ .serve n ⟨c, .createUser info⟩ (.createUser email password) (.ok (some uid))) :
    Created (e :: h) n uid ↔ Created h n uid := by
  constructor
  · intro hex
    obtain ⟨c, info, email, password, hm⟩ := hex
    rcases List.mem_cons.mp hm with hm | hm
    · exact absurd hm.symm (he c info email password)
    · exact ⟨c, info, email, password, hm⟩
  · intro hex
    obtain ⟨c, info, email, password, hm⟩ := hex
    exact ⟨c, info, email, password, List.mem_cons_of_mem _ hm⟩

theorem created_head {c : Client} {info : RegistrationInfo} {email password : String} :
    Created (.serve n ⟨c, .createUser info⟩ (.createUser email password) (.ok (some newUser)) :: h) n newUser :=
  ⟨c, info, email, password, List.mem_cons_self⟩

theorem created_serve {m : Nat} {call : Call} {q : Request} {a : q.Answer}
    (hq : ∀ email password, q ≠ .createUser email password) :
    Created (.serve m call q a :: h) n uid ↔ Created h n uid := by
  refine created_cons fun c info email password he => ?_
  cases he
  exact hq _ _ rfl

end

theorem next_awaits {op : Op} {q : Request} {k : q.Answer → Callbacks} (h : At op (.call q k)) (a : q.Answer)
    (email password : String) : (k a).awaits ≠ some (.createUser email password) := by
  have hnext := h.answer a
  intro he
  generalize hk : k a = c at hnext he
  cases hnext with
  | register info =>
    cases h with
    | register _ =>
      revert hk
      cases a using answer_cases with
      | error e => simp [RegistrationService.userCreated]
      | nil => simp [RegistrationService.userCreated]
      | value newUser => simp only [RegistrationService.userCreated]; split <;> simp
    | registerImage _ newUser data hd => cases a <;> simp [RegistrationService.imageUploaded] at hk
    | registerUrl _ newUser =>
      revert hk
      cases a using answer_cases with
      | error e => simp [RegistrationService.urlDownloaded]
      | nil => simp [RegistrationService.urlDownloaded]
      | value url => simp [RegistrationService.urlDownloaded, RegistrationService.createDocument_eq]
    | registerWrite _ newUser url => simp [RegistrationService.documentCreated] at hk
  | _ => cases he

theorem next_concerns {info : RegistrationInfo} {q q' : Request} {k : q.Answer → Callbacks} {uid : Uid}
    (h : At (.createUser info) (.call q k)) (hq : ∀ email password, q ≠ .createUser email password) (a : q.Answer)
    (ha : (k a).awaits = some q') (hc : q'.concerns uid) : q.concerns uid := by
  cases h with
  | register _ => exact absurd rfl (hq _ _)
  | registerImage _ newUser data hd =>
    cases a with
    | error e => cases ha
    | ok url => cases ha; exact hc
  | registerUrl _ newUser =>
    cases a using answer_cases with
    | error e => cases ha
    | nil => cases ha
    | value url =>
      simp only [RegistrationService.urlDownloaded, RegistrationService.createDocument_eq] at ha
      cases ha
      have hu : uid = newUser := FB.userDocument_inj (hc.trans (FB.userDocument_uid newUser).symm)
      subst hu
      rfl
  | registerWrite _ newUser url => cases ha

theorem registrationKnown_rules {allowed : World → Call → Prop} :
    (accounts allowed).NumberedRules RegistrationKnown where
  other := by
    intro h n t e he hk
    have hc : ∀ uid, Created (e :: h) n uid ↔ Created h n uid := by
      intro uid
      refine created_cons fun c info email password hev => he ?_
      rw [hev]
      rfl
    refine ⟨hk.code, fun em pw ha uid hu => hk.unmade em pw ha uid ((hc uid).mp hu), ?_, ?_⟩
    · intro info hop q hq uid hcon
      exact (hc uid).mpr (hk.known info hop q hq uid hcon)
    · intro u v hu hv
      exact hk.unique u v ((hc u).mp hu) ((hc v).mp hv)
  launch := by
    intro h n call hnone
    have hno : ∀ uid, ¬ Created h n uid := by
      intro uid hex
      obtain ⟨c, info, email, password, hm⟩ := hex
      exact hnone _ hm rfl
    refine ⟨At.body call.op, fun _ _ _ uid => hno uid, ?_, fun u v hu _ => absurd hu (hno u)⟩
    intro info hop q hq uid hcon
    obtain ⟨c, op⟩ := call
    obtain rfl : op = .createUser info := hop
    cases hq
    cases hcon
  serve := by
    intro h n call q a k hk
    obtain ⟨c, op⟩ := call
    have hat : At op (.call q k) := hk.code
    have hnext := next_awaits hat a
    by_cases hq : ∃ email password, q = .createUser email password
    · obtain ⟨email, password, rfl⟩ := hq
      have hno := hk.unmade _ _ rfl
      have hcreated : ∀ u, Created (.serve n ⟨c, op⟩ (.createUser email password) a :: h) n u →
          a = .ok (some u) := by
        intro u hu
        by_contra hne
        refine hno u ((created_cons ?_).mp hu)
        intro c' info' email' password' he
        cases he
        exact hne rfl
      refine ⟨hat.answer a, fun em pw ha => absurd ha (hnext em pw), ?_, ?_⟩
      · intro info hop q hq uid hcon
        cases hat with
        | register info =>
          cases a using answer_cases with
          | error e => cases hq
          | nil => cases hq
          | value newUser =>
            simp only [RegistrationService.userCreated] at hq
            split at hq
            · cases hq
            · cases hq
              obtain rfl : newUser = uid := FB.image_inj hcon
              exact created_head
      · intro u v hu hv
        have := (hcreated u hu).symm.trans (hcreated v hv)
        simpa using this
    · have hq' : ∀ email password, q ≠ .createUser email password := fun em pw he => hq ⟨em, pw, he⟩
      refine ⟨hat.answer a, fun em pw ha => absurd ha (hnext em pw), ?_, ?_⟩
      · intro info hop q' hq'' uid hcon
        obtain rfl : op = .createUser info := hop
        exact (created_serve hq').mpr (hk.known info rfl q rfl uid (next_concerns hat hq' a hq'' hcon))
      · intro u v hu hv
        exact hk.unique u v ((created_serve hq').mp hu) ((created_serve hq').mp hv)
  deliver := by
    intro h n call x k hk
    have hat : At call.op (.complete x k) := hk.code
    have hdone : k = .done := hat.report
    subst hdone
    have hc : ∀ uid, Created (.deliver n call x :: h) n uid ↔ Created h n uid :=
      fun uid => created_cons fun c info email password he => by cases he
    refine ⟨At.done _, ?_, ?_, ?_⟩
    · intro email password ha; cases ha
    · intro info hop q hq; cases hq
    · intro u v hu hv
      exact hk.unique u v ((hc u).mp hu) ((hc v).mp hv)

end ToDoList
