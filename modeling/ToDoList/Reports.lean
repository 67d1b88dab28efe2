import ToDoList.Accounts
import ToDoList.Async.Log

/-!
# What the completions report

A completion is invoked with success after the requests of its own call, its
write among them, have all been answered without an error; and with an error
that the services gave as the answer to the call's last request.
-/

namespace ToDoList

open Async

abbrev CallEntry := Entry Request.Answer Completion

/-- The error of an answer. `signOut` only prints its error. -/
def Request.refused : (q : Request) → q.Answer → Option FBError
  | .signIn _ _, answer => match answer with | .error error => some error | .ok _ => none
  | .createUser _ _, answer => match answer with | .error error => some error | .ok _ => none
  | .sendPasswordReset _, error => error
  | .currentUser, _ => none
  | .updateEmail _ _, error => error
  | .signOut, _ => none
  | .putData _ _ _, answer => match answer with | .error error => some error | .ok _ => none
  | .downloadURL _, answer => match answer with | .error error => some error | .ok _ => none
  | .setData _ _ _, error => error

namespace Op

def success : Op → Completion
  | createUser _ => .error none
  | _ => .result true none

/-- The answers after which the operation has done all its work. A login and a
change of email do not report it. -/
inductive Succeeded : Op → List CallEntry → Prop
  | reset (info) : Succeeded (resetPassword info) [.answer (.sendPasswordReset info.email) none]
  | registered (info newUser data object url) : info.profileImgUrl.jpegData = some data →
    Succeeded (createUser info)
      [.answer (.createUser info.email info.password) (.ok (some newUser)),
        .answer (.putData (FB.image newUser.1) data FB.imageContentType) (.ok object),
        .answer (.downloadURL (FB.image newUser.1)) (.ok (some url)),
        .answer (.setData [FB.userCollection, newUser.1]
          (RegistrationService.newDocument info newUser url) false) none]
  | pictured (info img data object url docRef) : info.newprofileImg = some img → img.jpegData = some data →
      FB.userDocument info.id = some docRef → Succeeded (updateUserInfoWithImage info)
        [.answer (.putData (FB.image info.id) data FB.imageContentType) (.ok object),
          .answer (.downloadURL (FB.image info.id)) (.ok (some url)),
          .answer (.setData docRef
            (UserInfoWithImage.convertUserInfoToDictionary ⟨info.id, info.username, info.fullname, url,
              none⟩) true) none]
  | written (info docRef) : FB.userDocument info.id = some docRef → Succeeded (updateUserInfoNoImage info)
      [.answer (.setData docRef info.convertUserInfoToDictionary true) none]

/-- What the operation reports after these answers. -/
inductive Reports (op : Op) : List CallEntry → Completion → Prop
  | succeeded {l} : op.Succeeded l → Reports op l op.success
  | failed {q : Request} {a : q.Answer} {error} (l) : q.refused a = some error →
      Reports op (l ++ [.answer q a]) (op.failure error)

end Op

/-! ## One call -/

section
variable {op : Op} {q : Request} {k : q.Answer → Callbacks} {l : List CallEntry} {c : Callbacks} {r : Completion}

theorem At.refused (h : At op (.call q k)) {a : q.Answer} {error : FBError} (ha : q.refused a = some error) :
    k a = .complete (op.failure error) .done := by
  cases h with
  | signIn info => cases a <;> cases ha; rfl
  | reset info => cases ha; rfl
  | register info => cases a <;> cases ha; rfl
  | registerImage info newUser data hd => cases a <;> cases ha; rfl
  | registerUrl info newUser => cases a <;> cases ha; rfl
  | registerWrite info newUser url => cases ha; rfl
  | emailWrite info docRef h => cases ha; rfl
  | emailUser info docRef h => cases ha
  | emailUpdate info docRef user h => cases ha; rfl
  | emailSignOut info => cases ha
  | imageUpload info img data h hd => cases a <;> cases ha; rfl
  | imageUrl info => cases a <;> cases ha; rfl
  | imageWrite info docRef url h => cases ha; rfl
  | infoWrite info docRef h => cases ha; rfl

theorem At.reported (h : At op (.call q k)) {a : q.Answer} {next : Callbacks} (ha : k a = .complete r next) :
    (∃ error, q.refused a = some error ∧ r = op.failure error) ∨ q.refused a = none ∧ r = op.success := by
  cases h with
  | signIn info =>
    cases a <;> cases ha
    exact .inl ⟨_, rfl, rfl⟩
  | reset info =>
    cases a <;> cases ha
    · exact .inr ⟨rfl, rfl⟩
    · exact .inl ⟨_, rfl, rfl⟩
  | register info =>
    cases a using answer_cases with
    | error e => cases ha; exact .inl ⟨_, rfl, rfl⟩
    | nil => cases ha
    | value newUser =>
      simp only [RegistrationService.userCreated] at ha
      split at ha <;> cases ha
  | registerImage info newUser data hd =>
    cases a <;> cases ha
    exact .inl ⟨_, rfl, rfl⟩
  | registerUrl info newUser =>
    cases a using answer_cases with
    | error e => cases ha; exact .inl ⟨_, rfl, rfl⟩
    | nil => cases ha
    | value url =>
      simp only [RegistrationService.urlDownloaded, RegistrationService.createDocument_eq] at ha
      cases ha
  | registerWrite info newUser url =>
    cases ha
    cases a with
    | none => exact .inr ⟨rfl, rfl⟩
    | some e => exact .inl ⟨e, rfl, rfl⟩
  | emailWrite info docRef h =>
    cases a <;> cases ha
    exact .inl ⟨_, rfl, rfl⟩
  | emailUser info docRef h => cases a <;> cases ha
  | emailUpdate info docRef user h =>
    cases a <;> cases ha
    exact .inl ⟨_, rfl, rfl⟩
  | emailSignOut info => cases ha
  | imageUpload info img data h hd =>
    cases a <;> cases ha
    exact .inl ⟨_, rfl, rfl⟩
  | imageUrl info =>
    cases a using answer_cases with
    | error e => cases ha; exact .inl ⟨_, rfl, rfl⟩
    | nil => cases ha
    | value url =>
      simp only [UserViewModel.urlDownloaded] at ha
      split at ha <;> cases ha
  | imageWrite info docRef url h =>
    cases a <;> cases ha
    · exact .inr ⟨rfl, rfl⟩
    · exact .inl ⟨_, rfl, rfl⟩
  | infoWrite info docRef h =>
    cases a <;> cases ha
    · exact .inr ⟨rfl, rfl⟩
    · exact .inl ⟨_, rfl, rfl⟩

end

/-! ## The whole call -/

open Chain (path_call_iff path_complete_iff path_done_iff path_trap_iff)

section
variable {l : List CallEntry} {next : Callbacks}

theorem created_succeeded {info : RegistrationInfo}
    (h : (RegistrationService.createUser info).Path l (.complete (.error none) next)) :
      (Op.createUser info).Succeeded l := by
  unfold RegistrationService.createUser at h
  rw [path_call_iff] at h
  rcases h with ⟨_, hd⟩ | ⟨a, l, rfl, h⟩
  · cases hd
  cases a using answer_cases with
  | error e => simp [RegistrationService.userCreated] at h
  | nil => simp [RegistrationService.userCreated] at h
  | value newUser =>
    simp only [RegistrationService.userCreated] at h
    split at h
    · simp at h
    rename_i data hdata
    rw [path_call_iff] at h
    rcases h with ⟨_, hd⟩ | ⟨a, l, rfl, h⟩
    · cases hd
    cases a with
    | error e => simp [RegistrationService.imageUploaded] at h
    | ok object =>
      simp only [RegistrationService.imageUploaded] at h
      rw [path_call_iff] at h
      rcases h with ⟨_, hd⟩ | ⟨a, l, rfl, h⟩
      · cases hd
      cases a using answer_cases with
      | error e => simp [RegistrationService.urlDownloaded] at h
      | nil => simp [RegistrationService.urlDownloaded] at h
      | value url =>
        simp only [RegistrationService.urlDownloaded, RegistrationService.createDocument_eq] at h
        rw [path_call_iff] at h
        rcases h with ⟨_, hd⟩ | ⟨a, l, rfl, h⟩
        · cases hd
        cases a with
        | some e => simp [RegistrationService.documentCreated] at h
        | none =>
          obtain ⟨rfl, _⟩ : l = [] ∧ _ := by simpa [RegistrationService.documentCreated] using h
          exact .registered info newUser data object url hdata

theorem pictured_succeeded {info : UserInfoWithImage}
    (h : (UserViewModel.updateUserInfoWithImage info).Path l (.complete (.result true none) next)) :
    (Op.updateUserInfoWithImage info).Succeeded l := by
  unfold UserViewModel.updateUserInfoWithImage at h
  split at h
  · simp at h
  rename_i img himg
  split at h
  · simp at h
  rename_i data hdata
  rw [path_call_iff] at h
  rcases h with ⟨_, hd⟩ | ⟨a, l, rfl, h⟩
  · cases hd
  cases a with
  | error e => simp [UserViewModel.imageUploaded] at h
  | ok object =>
    simp only [UserViewModel.imageUploaded] at h
    rw [path_call_iff] at h
    rcases h with ⟨_, hd⟩ | ⟨a, l, rfl, h⟩
    · cases hd
    cases a using answer_cases with
    | error e => simp [UserViewModel.urlDownloaded] at h
    | nil => simp [UserViewModel.urlDownloaded] at h
    | value url =>
      simp only [UserViewModel.urlDownloaded] at h
      split at h
      · simp at h
      rename_i docRef hdoc
      rw [path_call_iff] at h
      rcases h with ⟨_, hd⟩ | ⟨a, l, rfl, h⟩
      · cases hd
      cases a with
      | some e => simp [UserViewModel.infoWritten] at h
      | none =>
        obtain ⟨rfl, _⟩ : l = [] ∧ _ := by simpa [UserViewModel.infoWritten] using h
        exact .pictured info img data object url docRef himg hdata hdoc

theorem written_succeeded {info : UserInfoNoImage}
    (h : (UserViewModel.updateUserInfoNoImage info).Path l (.complete (.result true none) next)) :
    (Op.updateUserInfoNoImage info).Succeeded l := by
  unfold UserViewModel.updateUserInfoNoImage at h
  simp only at h
  split at h
  · simp at h
  rename_i docRef hdoc
  rw [path_call_iff] at h
  rcases h with ⟨_, hd⟩ | ⟨a, l, rfl, h⟩
  · cases hd
  cases a with
  | some e => simp [UserViewModel.infoWritten] at h
  | none =>
    obtain ⟨rfl, _⟩ : l = [] ∧ _ := by simpa [UserViewModel.infoWritten] using h
    exact .written info docRef hdoc

theorem reset_succeeded {info : ResetPasswordInfo}
    (h : (ResetPasswordService.resetPassword info).Path l (.complete (.result true none) next)) :
    (Op.resetPassword info).Succeeded l := by
  unfold ResetPasswordService.resetPassword at h
  rw [path_call_iff] at h
  rcases h with ⟨_, hd⟩ | ⟨a, l, rfl, h⟩
  · cases hd
  cases a with
  | some e => simp [ResetPasswordService.resetSent] at h
  | none =>
    obtain ⟨rfl, _⟩ : l = [] ∧ _ := by simpa [ResetPasswordService.resetSent] using h
    exact .reset info

theorem silent_fails {op : Op} (hop : (∃ info, op = .logUserIn info) ∨ ∃ info, op = .updateEmail info)
    {r : Completion}
    (h : At op (.complete r next)) : ∃ error, r = op.failure error := by
  rcases hop with ⟨info, rfl⟩ | ⟨info, rfl⟩
  · cases h
    exact ⟨_, rfl⟩
  · cases h
    exact ⟨_, rfl⟩

theorem succeeded_of_path {op : Op} (h : op.body.Path l (.complete op.success next)) : op.Succeeded l := by
  cases op with
  | createUser info => exact created_succeeded h
  | updateUserInfoWithImage info => exact pictured_succeeded h
  | updateUserInfoNoImage info => exact written_succeeded h
  | resetPassword info => exact reset_succeeded h
  | logUserIn info =>
    obtain ⟨e, he⟩ := silent_fails (.inl ⟨info, rfl⟩) (At.of_leads h.leads)
    cases he
  | updateEmail info =>
    obtain ⟨e, he⟩ := silent_fails (.inr ⟨info, rfl⟩) (At.of_leads h.leads)
    cases he

theorem path_of_succeeded {op : Op} {c : Callbacks} (hs : op.Succeeded l) (h : op.body.Path l c) :
    c = .complete op.success .done := by
  cases hs with
  | reset info => simpa [Op.body, Op.success, ResetPasswordService.resetPassword,
    ResetPasswordService.resetSent] using h
  | registered info newUser data object url hdata =>
    simpa [Op.body, Op.success, RegistrationService.createUser, RegistrationService.userCreated, hdata,
      RegistrationService.imageUploaded, RegistrationService.urlDownloaded, RegistrationService.createDocument_eq,
      RegistrationService.documentCreated] using h
  | pictured info img data object url docRef himg hdata hdoc =>
    simpa [Op.body, Op.success, UserViewModel.updateUserInfoWithImage, himg, hdata, UserViewModel.imageUploaded,
      UserViewModel.urlDownloaded, hdoc, UserViewModel.infoWritten] using h
  | written info docRef hdoc =>
    simpa [Op.body, Op.success, UserViewModel.updateUserInfoNoImage, hdoc, UserViewModel.infoWritten] using h

theorem body_ne_complete (op : Op) (r : Completion) : op.body ≠ .complete r next := by
  intro h
  cases op with
  | logUserIn info => cases h
  | resetPassword info => cases h
  | createUser info => cases h
  | updateEmail info =>
    simp only [Op.body, UserViewModel.updateEmail] at h
    split at h <;> cases h
  | updateUserInfoWithImage info =>
    simp only [Op.body, UserViewModel.updateUserInfoWithImage] at h
    split at h
    · cases h
    · split at h <;> cases h
  | updateUserInfoNoImage info =>
    simp only [Op.body, UserViewModel.updateUserInfoNoImage] at h
    split at h <;> cases h

theorem reports_iff {op : Op} {c : Callbacks} (h : op.body.Path l c) (r : Completion) :
    op.Reports l r ↔ c = .complete r .done := by
  constructor
  · intro hr
    cases hr with
    | succeeded hs => exact path_of_succeeded hs h
    | @failed q a error l hq =>
      rcases h.last with ⟨q', a', k, hx, hk, rfl⟩ | ⟨r, hx, _⟩
      · cases hx
        exact (At.of_leads hk.leads).refused hq
      · cases hx
  · rintro rfl
    rcases List.eq_nil_or_concat l with rfl | ⟨pre, x, rfl⟩
    · exact absurd h.eq_of_nil.symm (body_ne_complete op r)
    · rw [List.concat_eq_append] at h ⊢
      rcases h.last with ⟨q, a, k, rfl, hk, ha⟩ | ⟨r', rfl, hk⟩
      · rcases (At.of_leads hk.leads).reported ha.symm with ⟨error, hq, rfl⟩ | ⟨_, rfl⟩
        · exact .failed pre hq
        · exact .succeeded (succeeded_of_path h)
      · exact absurd (At.of_leads hk.leads).report (by simp)

end

/-! ## Runs -/

variable {allowed : World → Call → Prop} {init : World → Prop} {x : Clients × List Happening}

/-- In every run a completion is invoked with what the answers to its own call
so far say, and a call whose answers say something is about to report it. -/
theorem completions_reported (hr : ((accounts allowed).system init).recorded.Reachable x) :
    (∀ h₁ n call r h₂, x.2 = h₁ ++ .deliver n call r :: h₂ → call.op.Reports (log n h₂) r) ∧
    ∀ n (t : CallTask), x.1.tasks[n]? = some t → ∀ r, t.tag.op.Reports (log n x.2) r ↔
      t.chain = .complete r .done := by
  constructor
  · intro h₁ n call r h₂ hx
    obtain ⟨p, p', hp, hs⟩ := hr.event hx
    cases hs with
    | @deliver s i _ k _ l rest _ =>
      have ht : (l ++ ⟨call, .complete r k⟩ :: rest)[l.length]? = some (⟨call, .complete r k⟩ : CallTask) := by simp
      have hpath := Machine.path hp ht
      have hk := (At.of_leads hpath.leads).report
      subst hk
      exact (reports_iff hpath r).mpr rfl
  · intro n t ht r
    exact reports_iff (Machine.path hr ht) r

def annHistory : List Happening :=
  [.deliver 0 annCall (.error none),
    .serve 0 annCall (.setData [FB.userCollection, ann.1]
      (RegistrationService.newDocument annInfo ann annImage.url) false)
      none,
    .serve 0 annCall (.downloadURL (FB.image ann.1)) (.ok (some annImage.url)),
    .serve 0 annCall (.putData (FB.image ann.1) annImage.data FB.imageContentType) (.ok annImage.url),
    .serve 0 annCall (.createUser annInfo.email annInfo.password) (.ok (some ann)),
    .launch annCall]

theorem recorded_withAnn (h : allowed World.start annCall) (hi : init World.start) :
    ((accounts allowed).system init).recorded.Reachable (⟨⟨Firebase.withAnn, []⟩, [⟨annCall, .done⟩]⟩,
      annHistory) := by
  have h0 : ((accounts allowed).system init).recorded.Reachable (⟨World.start, []⟩, []) := .init ⟨⟨hi, rfl⟩, rfl⟩
  have h1 := h0.record (.launch (M := accounts allowed) (i := annCall) ⟨h, rfl⟩)
  have h2 := h1.record (.serve (l := []) (r := []) (a := .ok (some ann)) ⟨_, rfl, rfl⟩)
  have h3 := h2.record (.serve (l := []) (r := []) (a := .ok annImage.url) ⟨_, rfl, rfl⟩)
  have h4 := h3.record (.serve (l := []) (r := []) (a := .ok (some annImage.url)) ⟨_, rfl, rfl⟩)
  have h5 := h4.record (.serve (l := []) (r := []) (a := none) ⟨_, rfl, rfl⟩)
  exact h5.record (.deliver (l := []) (r := []) rfl)

theorem completions_reported_ann : annCall.op.Reports (log 0 annHistory.tail) (.error none) := by
  have hr : ((accounts fun _ _ => True).system fun w => w = World.start).recorded.Reachable _ :=
    recorded_withAnn trivial rfl
  exact (completions_reported hr).1 [] 0 annCall (.error none) annHistory.tail rfl

/-! ## The work of a call -/

theorem body_depth (op : Op) : op.body.Depth 5 := by
  cases op with
  | logUserIn info =>
    intro a
    cases a <;> simp [LoginService.signedIn, Chain.Depth]
  | resetPassword info =>
    intro a
    cases a <;> simp [ResetPasswordService.resetSent, Chain.Depth]
  | createUser info =>
    intro a
    cases a using answer_cases with
    | error e => simp [RegistrationService.userCreated, Chain.Depth]
    | nil => simp [RegistrationService.userCreated, Chain.Depth]
    | value newUser =>
      simp only [RegistrationService.userCreated]
      split
      · simp [Chain.Depth]
      · intro a
        cases a with
        | error e => simp [RegistrationService.imageUploaded, Chain.Depth]
        | ok object =>
          intro a
          cases a using answer_cases with
          | error e => simp [RegistrationService.urlDownloaded, Chain.Depth]
          | nil => simp [RegistrationService.urlDownloaded, Chain.Depth]
          | value url =>
            simp only [RegistrationService.urlDownloaded, RegistrationService.createDocument_eq]
            intro a
            simp [RegistrationService.documentCreated, Chain.Depth]
  | updateEmail info =>
    simp only [Op.body, UserViewModel.updateEmail]
    split
    · trivial
    intro a
    cases a with
    | some e => simp [UserViewModel.emailWritten, Chain.Depth]
    | none =>
      intro a
      cases a with
      | none => simp [UserViewModel.currentUserRead, Chain.Depth]
      | some user =>
        intro a
        cases a with
        | some e => simp [UserViewModel.emailUpdated, Chain.Depth]
        | none => intro a; trivial
  | updateUserInfoWithImage info =>
    simp only [Op.body, UserViewModel.updateUserInfoWithImage]
    split
    · trivial
    split
    · trivial
    intro a
    cases a with
    | error e => simp [UserViewModel.imageUploaded, Chain.Depth]
    | ok object =>
      intro a
      cases a using answer_cases with
      | error e => simp [UserViewModel.urlDownloaded, Chain.Depth]
      | nil => simp [UserViewModel.urlDownloaded, Chain.Depth]
      | value url =>
        simp only [UserViewModel.urlDownloaded]
        split
        · trivial
        · intro a
          cases a <;> simp [UserViewModel.infoWritten, Chain.Depth]
  | updateUserInfoNoImage info =>
    simp only [Op.body, UserViewModel.updateUserInfoNoImage]
    split
    · trivial
    · intro a
      cases a <;> simp [UserViewModel.infoWritten, Chain.Depth]

theorem accounts_responsive : (accounts allowed).Responsive where
  deliver := fun s _ _ => ⟨s, rfl⟩
  serve := by
    intro w call q
    cases q with
    | signIn email password => exact ⟨.ok none, w, w.fb, rfl, rfl⟩
    | createUser email password => exact ⟨.ok none, w, w.fb, rfl, rfl⟩
    | sendPasswordReset email => exact ⟨none, w, w.fb, rfl, rfl⟩
    | currentUser => exact ⟨w.fb.session call.client, w, w.fb, by simp [Firebase.serve], rfl⟩
    | updateEmail user email => exact ⟨some ⟨""⟩, w, w.fb, rfl, rfl⟩
    | signOut => exact ⟨some ⟨""⟩, w, w.fb, rfl, rfl⟩
    | putData object data contentType => exact ⟨.error ⟨""⟩, w, w.fb, rfl, rfl⟩
    | downloadURL object => exact ⟨.ok none, w, w.fb, rfl, rfl⟩
    | setData document data merge => exact ⟨some ⟨""⟩, w, w.fb, rfl, rfl⟩

/-- The steps of a run other than launches and the environment's are at most
five for each call made, and from any point of a run such steps alone can bring
every call to its end. -/
theorem calls_end (hr : ((accounts allowed).system init).recorded.Reachable x) :
    (Machine.numbered x.2).length ≤ x.1.tasks.length * 5 ∧
      ∃ p, ((accounts allowed).system init).Steps Machine.NoLaunch x.1 p ∧ p.Quiet := by
  refine ⟨Machine.numbered_le (fun call => body_depth call.op) hr, ?_⟩
  have hdepth : ∀ t ∈ x.1.tasks, t.chain.Depth 5 := by
    intro t ht
    obtain ⟨n, hn, hget⟩ := List.mem_iff_getElem.mp ht
    have hpath := Machine.path hr (List.getElem?_eq_some_iff.mpr ⟨hn, hget⟩)
    obtain ⟨_, hd⟩ := hpath.depth (body_depth t.tag.op)
    exact hd.mono (Nat.sub_le _ _)
  exact Machine.quiets accounts_responsive x.1.state [] x.1.tasks (by simp) hdepth

theorem calls_end_ann : (Machine.numbered annHistory).length ≤ 1 * 5 := by
  have hr : ((accounts fun _ _ => True).system fun w => w = World.start).recorded.Reachable _ :=
    recorded_withAnn trivial rfl
  exact (calls_end hr).1

end ToDoList
