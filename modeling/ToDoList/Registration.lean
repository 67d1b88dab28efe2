import ToDoList.Accounts

/-!
# Registration: all or nothing

`createUser` makes the Auth account first and the document last. A run of its
own is all or nothing exactly when Auth refuses the account or every step is
answered with a result. Over interleaved calls, an account and its document
are a pair of twins: a registration in flight owes the document.
-/

namespace ToDoList

open Async

/-! ## A registration on its own -/

def RegistrationRun (c : Client) (info : RegistrationInfo) (fb : Firebase) (tr : List (Σ q : Request, q.Answer))
    (fb' : Firebase) (rs : List Completion) : Prop :=
  Chain.Exec (fun fb q a => Firebase.serve fb c q a) fb (RegistrationService.createUser info) tr fb' rs

def Registered (info : RegistrationInfo) (fb fb' : Firebase) (rs : List Completion) : Prop :=
  ∃ newUser data url, info.profileImgUrl.jpegData = some data ∧
    fb.emails newUser = none ∧ fb'.emails newUser = some info.email ∧
    fb'.objects (FB.image newUser.1) = some ⟨data, FB.imageContentType, url⟩ ∧
    fb'.userDocument newUser = some (RegistrationService.newDocument info newUser url) ∧ rs = [.error none]

def NotRegistered (fb fb' : Firebase) (rs : List Completion) : Prop :=
  fb' = fb ∧ ∃ error, rs = [.error (some error)]

def AllOrNothing (info : RegistrationInfo) (fb fb' : Firebase) (rs : List Completion) : Prop :=
  Registered info fb fb' rs ∨ NotRegistered fb fb' rs

/-- Auth refuses the account, or the image has JPEG data and the request has the
result that `createUser` goes on with. -/
def RegistrationAnswerOk (info : RegistrationInfo) : (q : Request) → q.Answer → Prop
  | .createUser _ _, answer =>
    match answer with
    | .error _ => True
    | .ok none => False
    | .ok (some _) => info.profileImgUrl.jpegData ≠ none
  | .putData _ _ _, answer => ∃ url, answer = .ok url
  | .downloadURL _, answer => ∃ url, answer = .ok (some url)
  | .setData _ _ _, error => error = none
  | _, _ => True

def Answered (info : RegistrationInfo) (tr : List (Σ q : Request, q.Answer)) : Prop :=
  ∀ x ∈ tr, RegistrationAnswerOk info x.1 x.2

section
variable {c : Client} {info : RegistrationInfo} {fb fb' : Firebase} {tr : List (Σ q : Request, q.Answer)}
  {rs : List Completion} {newUser : Uid}

/-- Once the account exists, the completion gets nil exactly when every step
that is left has a result, and then the image and the document are there. -/
theorem run_of_account (h : Chain.Exec (fun fb q a => Firebase.serve fb c q a) fb
    (RegistrationService.userCreated info (.ok (some newUser))) tr fb' rs) :
    (rs = [.error none] ↔ info.profileImgUrl.jpegData ≠ none ∧ Answered info tr) ∧ (rs = [.error none] → ∃ data url,
      info.profileImgUrl.jpegData = some data ∧
        fb' = (fb.store (FB.image newUser.1) ⟨data, FB.imageContentType, url⟩).write [FB.userCollection, newUser.1]
          (RegistrationService.newDocument info newUser url)) := by
  cases hd : info.profileImgUrl.jpegData with
  | none =>
    simp only [RegistrationService.userCreated, hd, Chain.exec_done_iff] at h
    obtain ⟨rfl, rfl, rfl⟩ := h
    simp [Answered]
  | some data =>
    simp only [RegistrationService.userCreated, hd, Chain.exec_call_iff] at h
    obtain ⟨a, fb₁, tr₁, hput, rfl, h⟩ := h
    cases a with
    | error e =>
      simp only [RegistrationService.imageUploaded, Chain.exec_complete_iff, Chain.exec_done_iff] at h
      obtain ⟨_, rfl, rfl, rfl, rfl⟩ := h
      simp [Answered, RegistrationAnswerOk]
    | ok url =>
      simp only [RegistrationService.imageUploaded, Chain.exec_call_iff] at h
      obtain ⟨a, fb₂, tr₂, hurl, rfl, h⟩ := h
      cases a using answer_cases with
      | error e =>
        simp only [RegistrationService.urlDownloaded, Chain.exec_complete_iff, Chain.exec_done_iff] at h
        obtain ⟨_, rfl, rfl, rfl, rfl⟩ := h
        simp [Answered, RegistrationAnswerOk]
      | nil =>
        simp only [RegistrationService.urlDownloaded, Chain.exec_done_iff] at h
        obtain ⟨rfl, rfl, rfl⟩ := h
        simp [Answered, RegistrationAnswerOk]
      | value url' =>
        simp only [RegistrationService.urlDownloaded, RegistrationService.createDocument_eq,
          Chain.exec_call_iff] at h
        obtain ⟨error, fb₃, tr₃, hset, rfl, h⟩ := h
        simp only [RegistrationService.documentCreated, Chain.exec_complete_iff, Chain.exec_done_iff] at h
        obtain ⟨_, rfl, rfl, rfl, rfl⟩ := h
        cases error with
        | some e => simp [Answered, RegistrationAnswerOk]
        | none =>
          refine ⟨by simp [Answered, RegistrationAnswerOk, hd], fun _ => ⟨data, url, rfl, ?_⟩⟩
          obtain ⟨_, rfl⟩ := Firebase.serve_putData hput
          obtain ⟨hcur, rfl⟩ := Firebase.serve_downloadURL hurl
          cases hset
          obtain rfl : url = url' := by simpa using hcur
          rfl

theorem run_keeps_account (h : Chain.Exec (fun fb q a => Firebase.serve fb c q a) fb
    (RegistrationService.userCreated info (.ok (some newUser))) tr fb' rs) (hu : fb.emails newUser ≠ none) :
    fb'.emails newUser ≠ none :=
  h.keep (P := fun fb => fb.emails newUser ≠ none) (fun _ _ _ _ hu hs => Firebase.serve_registered hs hu) hu

theorem run_all_or_nothing (h : RegistrationRun c info fb tr fb' rs) :
    AllOrNothing info fb fb' rs ↔ Answered info tr := by
  rw [RegistrationRun, RegistrationService.createUser, Chain.exec_call_iff] at h
  obtain ⟨a, fb₁, tr', hs, rfl, h⟩ := h
  cases a using answer_cases with
  | error e =>
    simp only [RegistrationService.userCreated, Chain.exec_complete_iff, Chain.exec_done_iff] at h
    obtain ⟨_, rfl, rfl, rfl, rfl⟩ := h
    obtain rfl : fb' = fb := (Option.some.inj hs).symm
    exact iff_of_true (.inr ⟨rfl, e, rfl⟩) (by simp [Answered, RegistrationAnswerOk])
  | nil =>
    simp only [RegistrationService.userCreated, Chain.exec_done_iff] at h
    obtain ⟨rfl, rfl, rfl⟩ := h
    simp [AllOrNothing, Registered, NotRegistered, Answered, RegistrationAnswerOk]
  | value newUser =>
    obtain ⟨hnew, rfl⟩ := Firebase.serve_createUser hs
    obtain ⟨hiff, hstored⟩ := run_of_account h
    have hkept : fb'.emails newUser ≠ none := run_keeps_account h (by simp)
    have hanswered : Answered info (⟨.createUser info.email info.password, .ok (some newUser)⟩ :: tr') ↔
        info.profileImgUrl.jpegData ≠ none ∧ Answered info tr' := by simp [Answered, RegistrationAnswerOk]
    rw [hanswered, ← hiff]
    constructor
    · intro hex
      rcases hex with ⟨_, _, _, _, _, _, _, _, hrs⟩ | ⟨rfl, _⟩
      · exact hrs
      · exact absurd hnew hkept
    · intro hrs
      obtain ⟨data, url, hd, rfl⟩ := hstored hrs
      refine .inl ⟨newUser, data, url, hd, hnew, ?_, ?_, ?_, hrs⟩
      · simp
      · simp
      · simp [Firebase.userDocument_write, FB.userDocument_uid]

end

/-! ## Registrations among other calls -/

def Documented (account document : Bool) : Prop := account = true → document = true

def AccountsDocumented (fb : Firebase) : Prop := ∀ uid, fb.emails uid ≠ none → fb.userDocument uid ≠ none

def registrationRepair (uid : Uid) (t : CallTask) : Option (Repair Bool) :=
  match t.tag.op, t.chain.awaits with
  | .createUser _, some (.putData object _ _) => if object = FB.image uid.1 then some .fetch else none
  | .createUser _, some (.downloadURL object) => if object = FB.image uid.1 then some .fetch else none
  | .createUser _, some (.setData docRef _ _) =>
    if FB.userDocument uid.1 = some docRef then some (.carry true) else none
  | _, _ => none

def registrationTwin (uid : Uid) : Clients → Twin Bool Bool :=
  Twin.view (fun w => (w.fb.emails uid).isSome) (fun w => (w.fb.userDocument uid).isSome) (registrationRepair uid)

def RegistrationStepOk (_ : Clients) (e : Happening) (_ : Clients) : Prop :=
  match e with
  | .serve _ call q a =>
    match call.op with
    | .createUser info => RegistrationAnswerOk info q a
    | _ => True
  | _ => True

def anyCalls : Op → Prop := fun _ => True

def registrationSystem : System Clients Happening := (accountsOf anyCalls).system fun w => AccountsDocumented w.fb

section
variable {fb fb' : Firebase} {c : Client} {q : Request} {a : q.Answer}

theorem serve_account (h : fb.serve c q a = some fb') (hq : ∀ email password, q ≠ .createUser email password)
    (uid : Uid) : (fb'.emails uid).isSome = (fb.emails uid).isSome := by
  by_cases hu : ∃ user email, q = .updateEmail user email
  · obtain ⟨user, email, rfl⟩ := hu
    cases a with
    | some e => cases h; rfl
    | none =>
      obtain ⟨hold, rfl⟩ := Firebase.serve_updateEmail h
      by_cases hv : uid = user
      · subst hv
        simp [Option.isSome_iff_ne_none.mpr hold]
      · rw [Firebase.setEmail_emails, Function.update_of_ne hv]
  · rw [Firebase.serve_emails h hq fun user email e => hu ⟨user, email, e⟩]

theorem serve_document (h : fb.serve c q a = some fb') (uid : Uid) :
    (fb'.userDocument uid).isSome = (fb.userDocument uid).isSome ∨ (fb'.userDocument uid).isSome = true := by
  rcases Firebase.serve_write h with hsame | ⟨docRef, data, merge, _, rfl⟩
  · rw [Firebase.userDocument_congr hsame]
    exact .inl rfl
  · rw [Firebase.userDocument_write]
    split
    · exact .inr rfl
    · exact .inl rfl

end

section
variable {uid newUser : Uid} {w : World} {c : Client} {fb : Firebase}
  {l r : List (CallTask)} {t t' : CallTask}

theorem registration_other {q : Request} {a : q.Answer} (hs : w.fb.serve c q a = some fb)
    (hq : ∀ email password, q ≠ .createUser email password)
    (ht : registrationRepair uid t = none) (ht' : registrationRepair uid t' = none) :
    Twin.Step Documented (registrationTwin uid ⟨w, l ++ t :: r⟩)
      (registrationTwin uid ⟨{ w with fb := fb }, l ++ t' :: r⟩) := by
  simp only [registrationTwin, Twin.view, Twin.owed_of_none ht, Twin.owed_of_none ht', serve_account hs hq]
  rcases serve_document hs uid with h | h
  · rw [h]; exact .stay _
  · rw [h]; exact .rewrite (.inl fun _ => rfl)

theorem registrationRepair_of_idle (h : t.chain.awaits = none) : registrationRepair uid t = none := by
  unfold registrationRepair
  rw [h]
  cases t.tag.op <;> rfl

theorem registrationRepair_of_other (h : ∀ info, t.tag.op ≠ .createUser info) :
    registrationRepair uid t = none := by
  unfold registrationRepair
  split
  · rename_i h' _; exact absurd h' (h _)
  · rename_i h' _; exact absurd h' (h _)
  · rename_i h' _; exact absurd h' (h _)
  · rfl

theorem registration_on {q : Request} {a : q.Answer} {x : Repair Bool} (hs : w.fb.serve c q a = some fb)
    (hq : ∀ email password, q ≠ .createUser email password)
    (hd : ∀ docRef data merge, q ≠ .setData docRef data merge)
    (ht : registrationRepair newUser t = some .fetch) (ht' : registrationRepair newUser t' = some x)
    (hx : x = .fetch ∨ x = .carry true) :
    Twin.Step Documented (registrationTwin newUser ⟨w, l ++ t :: r⟩)
      (registrationTwin newUser ⟨{ w with fb := fb }, l ++ t' :: r⟩) := by
  have hdoc : fb.userDocument newUser = w.fb.userDocument newUser :=
    Firebase.userDocument_congr (Firebase.serve_documents hs hd) newUser
  simp only [registrationTwin, Twin.view, Twin.owed_of_some ht, Twin.owed_of_some ht', serve_account hs hq, hdoc]
  rcases hx with rfl | rfl
  · exact .stay _
  · exact .fetch fun _ => rfl

theorem registration_register {info : RegistrationInfo} {answer : Except FBError (Option Uid)}
    (hs : w.fb.serve c (.createUser info.email info.password) answer = some fb)
    (hok : RegistrationAnswerOk info (.createUser info.email info.password) answer)
    (ht : registrationRepair uid t = none) :
    Twin.Step Documented (registrationTwin uid ⟨w, l ++ t :: r⟩)
      (registrationTwin uid ⟨{ w with fb := fb },
        l ++ ⟨⟨c, .createUser info⟩, RegistrationService.userCreated info answer⟩ :: r⟩) := by
  cases answer using answer_cases with
  | error e =>
    cases hs
    exact Twin.view_stay rfl rfl ht (registrationRepair_of_idle rfl)
  | nil => cases hok
  | value newUser =>
    obtain ⟨data, hd⟩ := Option.ne_none_iff_exists'.mp hok
    have haw : (RegistrationService.userCreated info (.ok (some newUser))).awaits =
        some (.putData (FB.image newUser.1) data FB.imageContentType) := by
      simp [RegistrationService.userCreated, hd]
    obtain ⟨_, rfl⟩ := Firebase.serve_createUser hs
    by_cases hu : uid = newUser
    · subst hu
      have ht' : registrationRepair uid ⟨⟨c, .createUser info⟩,
          RegistrationService.userCreated info (.ok (some uid))⟩ = some .fetch := by
        simp [registrationRepair, haw]
      simp only [registrationTwin, Twin.view, Twin.owed_of_none ht, Twin.owed_of_some ht']
      exact .announce trivial
    · have hne : FB.image newUser.1 ≠ FB.image uid.1 := fun h => hu (FB.image_inj h).symm
      have ht' : registrationRepair uid ⟨⟨c, .createUser info⟩,
          RegistrationService.userCreated info (.ok (some newUser))⟩ = none := by
        simp [registrationRepair, haw, hne]
      simp only [registrationTwin, Twin.view, Twin.owed_of_none ht, Twin.owed_of_none ht',
        Firebase.setSession_emails,
        Firebase.setEmail_emails, Function.update_of_ne hu]
      exact .stay _

end

theorem registrationRepair_launch {uid : Uid} {call : Call} : registrationRepair uid ⟨call, call.op.body⟩ =
    none := by
  obtain ⟨c, op⟩ := call
  cases op with
  | createUser info => rfl
  | _ => rfl

theorem registration_step {p p' : Clients} {e : Happening} (hr : registrationSystem.Reachable p)
    (hst : (accountsOf anyCalls).Step p e p') (hok : RegistrationStepOk p e p') (uid : Uid) :
    Twin.Step Documented (registrationTwin uid p) (registrationTwin uid p') := by
  refine view_step hr hst (fun _ _ => registrationRepair_launch) ?_ (fun _ => registrationRepair_of_idle) ?_
  · intro w e w' he
    obtain ⟨hem, hdoc, _⟩ := World.ambient_fb he
    rw [Firebase.userDocument_congr hdoc, hem]
    exact ⟨rfl, rfl⟩
  · intro w c op q a k fb l r _ hat he hp hs
    subst he hp
    have hother : (∀ info, op ≠ .createUser info) → (∀ email password, q ≠ .createUser email password) →
        Twin.Step Documented (registrationTwin uid ⟨w, l ++ ⟨⟨c, op⟩, .call q k⟩ :: r⟩)
          (registrationTwin uid ⟨{ w with fb := fb }, l ++ ⟨⟨c, op⟩, k a⟩ :: r⟩) :=
      fun hop hq => registration_other hs hq (registrationRepair_of_other hop) (registrationRepair_of_other hop)
    cases hat with
    | register info => exact registration_register hs hok rfl
    | registerImage info newUser data hd =>
      obtain ⟨url, rfl⟩ := hok
      by_cases hu : uid = newUser
      · subst hu
        exact registration_on hs (by simp) (by simp) (by simp [registrationRepair])
          (by simp [registrationRepair, RegistrationService.imageUploaded]) (.inl rfl)
      · have hne : FB.image newUser.1 ≠ FB.image uid.1 := fun h => hu (FB.image_inj h).symm
        exact registration_other hs (by simp) (by simp [registrationRepair, hne])
          (by simp [registrationRepair, RegistrationService.imageUploaded, hne])
    | registerUrl info newUser =>
      obtain ⟨url, rfl⟩ := hok
      by_cases hu : uid = newUser
      · subst hu
        refine registration_on hs (by simp) (by simp) (by simp [registrationRepair]) ?_ (.inr rfl)
        simp [registrationRepair, RegistrationService.urlDownloaded, RegistrationService.createDocument_eq,
          FB.userDocument_uid]
      · have hne : FB.image newUser.1 ≠ FB.image uid.1 := fun h => hu (FB.image_inj h).symm
        refine registration_other hs (by simp) (by simp [registrationRepair, hne]) ?_
        simp [registrationRepair, RegistrationService.urlDownloaded, RegistrationService.createDocument_eq,
          FB.userDocument_uid, Subtype.ext_iff.not.mp hu]
    | registerWrite info newUser url =>
      obtain rfl : a = none := hok
      by_cases hu : uid = newUser
      · subst hu
        cases hs
        have ht : ∀ g, registrationRepair uid ⟨⟨c, .createUser info⟩, .call (.setData [FB.userCollection, uid.1]
            (RegistrationService.newDocument info uid url) false) g⟩ = some (.carry true) := by
          intro g
          simp [registrationRepair, FB.userDocument_uid]
        have ht' : registrationRepair uid ⟨⟨c, .createUser info⟩, RegistrationService.documentCreated none⟩ =
          none :=
          registrationRepair_of_idle rfl
        have hdoc : ∀ data, ((w.fb.write [FB.userCollection, uid.1] data).userDocument uid).isSome = true := by
          intro data
          rw [Firebase.userDocument_write, if_pos (FB.userDocument_uid uid)]
          rfl
        simp only [Twin.view, Twin.owed_of_some (ht _), Twin.owed_of_none ht', hdoc]
        exact .apply (.inl fun _ => rfl)
      · refine registration_other hs (by simp) ?_ rfl
        simp [registrationRepair, FB.userDocument_uid, Subtype.ext_iff.not.mp hu]
    | _ => exact hother (by simp) (by simp)

theorem registration_held {p : Clients} (h : (registrationSystem.restrict RegistrationStepOk).Reachable p)
    (uid : Uid) :
    Twin.Held Documented (registrationTwin uid p) := by
  induction h with
  | init hi =>
    exact .inl fun hu => Option.isSome_iff_ne_none.mpr (hi.1 uid (Option.isSome_iff_ne_none.mp hu))
  | step hr hs ih => exact (registration_step hr.unrestrict hs.1 hs.2 uid).held ih

def NoRegistration (p : Clients) : Prop :=
  ∀ t ∈ p.tasks, ∀ info, t.tag.op = .createUser info → t.chain.ended = true

theorem accounts_documented {p : Clients} (h : (registrationSystem.restrict RegistrationStepOk).Reachable p)
    (hn : NoRegistration p) : AccountsDocumented p.state.fb := by
  intro uid hu
  have howed : Twin.owed (registrationRepair uid) p.tasks = [] := by
    refine Twin.owed_none fun t ht => ?_
    by_cases hop : ∃ info, t.tag.op = .createUser info
    · obtain ⟨info, hop⟩ := hop
      exact registrationRepair_of_idle (Chain.awaits_of_ended (hn t ht info hop))
    · exact registrationRepair_of_other fun info e => hop ⟨info, e⟩
  have hdoc := (registration_held h uid).agrees howed (Option.isSome_iff_ne_none.mpr hu)
  exact Option.isSome_iff_ne_none.mp hdoc

/-! ## All or nothing -/

/-- A registration is all or nothing exactly when its steps are answered as
`RegistrationAnswerOk` says; in every run in which all registrations are, every
account has its document whenever no registration is in flight. -/
theorem registration_all_or_nothing (p : Clients) :
    (∀ c info fb tr fb' rs, RegistrationRun c info fb tr fb' rs →
      (AllOrNothing info fb fb' rs ↔ Answered info tr)) ∧
    ((registrationSystem.restrict RegistrationStepOk).Reachable p → NoRegistration p →
      AccountsDocumented p.state.fb) :=
  ⟨fun _ _ _ _ _ _ h => run_all_or_nothing h, fun h hn => accounts_documented h hn⟩

theorem registration_all_or_nothing_run :
    AllOrNothing annInfo Firebase.start Firebase.withAnn [.error none] ∧
      ∃ p : Clients, p.state.fb = Firebase.withAnn ∧ AccountsDocumented p.state.fb := by
  constructor
  · have h : RegistrationRun 0 annInfo Firebase.start
        [⟨.createUser "a@x.com" "secret", .ok (some ann)⟩,
          ⟨.putData (FB.image ann.1) [1] FB.imageContentType, .ok annImage.url⟩,
          ⟨.downloadURL (FB.image ann.1), .ok (some annImage.url)⟩,
          ⟨.setData [FB.userCollection, ann.1] (RegistrationService.newDocument annInfo ann annImage.url) false,
            none⟩]
        Firebase.withAnn [.error none] :=
      .call rfl (.call rfl (.call rfl (.call rfl (.complete .done))))
    refine ((registration_all_or_nothing ⟨World.start, []⟩).1 _ _ _ _ _ _ h).mpr ?_
    simp [Answered, RegistrationAnswerOk, annInfo]
  · have h0 : (registrationSystem.restrict RegistrationStepOk).Reachable ⟨World.start, []⟩ := by
      refine .init ⟨?_, rfl⟩
      intro uid hu
      exact absurd rfl hu
    have h1 := h0.step ⟨.launch (M := accountsOf anyCalls) (i := annCall) ⟨trivial, rfl⟩, trivial⟩
    have h2 := h1.step ⟨.serve (l := []) (r := []) (a := .ok (some ann)) ⟨_, rfl, rfl⟩,
      by show annInfo.profileImgUrl.jpegData ≠ none; decide⟩
    have h3 := h2.step ⟨.serve (l := []) (r := []) (a := .ok annImage.url) ⟨_, rfl, rfl⟩, by exact ⟨_, rfl⟩⟩
    have h4 := h3.step ⟨.serve (l := []) (r := []) (a := .ok (some annImage.url)) ⟨_, rfl, rfl⟩, by exact ⟨_, rfl⟩⟩
    have h5 := h4.step ⟨.serve (l := []) (r := []) (a := none) ⟨_, rfl, rfl⟩, by rfl⟩
    have h6 := h5.step ⟨.deliver (l := []) (r := []) rfl, trivial⟩
    refine ⟨_, rfl, (registration_all_or_nothing _).2 h6 ?_⟩
    intro t ht info _
    rw [List.mem_singleton.mp ht]
    rfl

/-- The account exists, the upload fails, and the document is never written. -/
theorem registration_left_halfway : ¬ ∀ c info fb tr fb' rs, RegistrationRun c info fb tr fb' rs →
    AllOrNothing info fb fb' rs := by
  intro h
  have hrun : RegistrationRun 0 annInfo Firebase.start
      [⟨.createUser "a@x.com" "secret", .ok (some ann)⟩,
        ⟨.putData (FB.image ann.1) [1] FB.imageContentType, .error ⟨"quota exceeded"⟩⟩]
      ((Firebase.start.setEmail ann "a@x.com").setSession 0 (some ann)) [.error (some ⟨"quota exceeded"⟩)] :=
    .call rfl (.call rfl (.complete .done))
  rcases h _ _ _ _ _ _ hrun with ⟨_, _, _, _, _, _, _, _, hrs⟩ | ⟨hfb, _⟩
  · exact absurd hrs (by decide)
  · have hemail : some "a@x.com" = none := congrArg (fun fb => fb.emails ann) hfb
    cases hemail

end ToDoList
