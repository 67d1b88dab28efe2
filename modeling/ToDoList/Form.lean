import ToDoList.Async.Gate
import ToDoList.Views

/-!
# One submission at a time

A form is a view with its submit action and its completion closures; its runs
let answers come with any outcome and at any time. All flags are moved by
toggling, so that every law below starts from flags that are known.
-/

namespace ToDoList

open Async

structure Form (V ε : Type) where
  alerts : V → AlertState
  accepts : V → Bool
  submit : V → V × Submitted
  completed : Op → Completion → V → Except Trap V
  event : V → ε → Option V

def loginForm : Form LoginView LoginView.Event where
  alerts := LoginView.toAlertState
  accepts v := v.accepts
  submit := LoginView.login
  completed _ completion v :=
    match completion with
    | .error error => .ok (v.loggedIn error)
    | .result _ _ => .ok v
  event := LoginView.event

def registrationForm (lowercased : String → String) : Form RegistrationView RegistrationView.Event where
  alerts := RegistrationView.toAlertState
  accepts := RegistrationView.formAccepts
  submit := RegistrationView.register lowercased
  completed _ completion v :=
    match completion with
    | .error error => .ok (v.registered error)
    | .result _ _ => .ok v
  event := RegistrationView.event

def resetPasswordForm : Form ResetPasswordView ResetPasswordView.Event where
  alerts := ResetPasswordView.toAlertState
  accepts v := v.accepts
  submit := ResetPasswordView.reset
  completed _ completion v :=
    match completion with
    | .error _ => .ok v
    | .result result error => v.resetDone result error
  event := ResetPasswordView.event

def profileForm : Form UserProfileView UserProfileView.Event where
  alerts := UserProfileView.toAlertState
  accepts := UserProfileView.formAccepts
  submit := UserProfileView.update
  completed op completion v :=
    match op, completion with
    | .updateEmail _, .error error => .ok (v.emailUpdated error)
    | .updateUserInfoWithImage _, .result result error => .ok (v.infoUpdated result error)
    | .updateUserInfoNoImage _, .result result error => .ok (v.infoUpdated result error)
    | _, _ => .ok v
  event := UserProfileView.event

/-! ## Runs of a form -/

def Submitted.body : Submitted → Callbacks
  | rejected => .done
  | request op => op.body
  | trap t => .trap t

namespace Form

variable {V ε : Type}

def machine (F : Form V ε) : Machine V Submitted Request.Answer Completion Trap ε where
  body := Submitted.body
  launch v i v' := F.accepts v = true ∧ F.submit v = (v', i)
  serve v _ _ _ v' := v' = v
  deliver v i completion v' := ∃ op, i = .request op ∧ F.completed op completion v = .ok v'
  env v e v' := F.event v e = some v'

abbrev Run (V : Type) := Pool V Submitted Request.Answer Completion Trap

def system (F : Form V ε) : System (Run V) (Event Submitted Request.Answer Completion ε) :=
  F.machine.system fun v => F.accepts v = true

def Busy (F : Form V ε) (v : V) : Prop := (F.alerts v).showActivityIndicator = true

/-- The form submits the operations in `owns`, asks for what is missing with
`required` and tells of errors with `problem`. -/
structure Lawful (F : Form V ε) (owns : Op → Prop) (required : String) (problem : FBError → String) : Prop where
  accepts : ∀ {v}, F.accepts v = true → (F.alerts v).accepts = true
  request : ∀ {v v' op}, F.submit v = (v', .request op) → owns op ∧ F.alerts v' = (F.alerts v).toggleIndicator
  rejected : ∀ {v v'}, F.submit v = (v', .rejected) →
    F.alerts v' = (F.alerts v).toggleIndicator.report "Error!" required
  trap : ∀ {v v' t}, F.submit v = (v', .trap t) → F.alerts v' = (F.alerts v).toggleIndicator
  failed : ∀ {v v' op error}, owns op → F.completed op (op.failure error) v = .ok v' →
    F.alerts v' = (F.alerts v).report "Error!" (problem error)
  completed : ∀ {v v' op completion}, owns op → At op (.complete completion .done) →
    F.completed op completion v = .ok v' →
      F.alerts v' = (F.alerts v).toggleIndicator ∨ ∃ title body, F.alerts v' = (F.alerts v).report title body
  event : ∀ {v e v'}, F.event v e = some v' →
    (F.alerts v').showActivityIndicator = (F.alerts v).showActivityIndicator ∧
      (F.Busy v → (F.alerts v').showAlert = true → (F.alerts v).showAlert = true)

end Form

theorem At.oneShot {op : Op} {c : Callbacks} (h : At op c) : c.OneShot := by
  induction c with
  | done => trivial
  | trap t => trivial
  | complete r k ih => exact h.report
  | call q k ih => exact fun a => ih a (h.answer a)

theorem Submitted.oneShot (i : Submitted) : i.body.OneShot := by
  cases i with
  | rejected => trivial
  | request op => exact (At.body op).oneShot
  | trap t => trivial

namespace Form

variable {V ε : Type} {F : Form V ε} {owns : Op → Prop} {required : String} {problem : FBError → String}

theorem Lawful.gate (h : F.Lawful owns required problem) : F.machine.Gate F.Busy where
  oneShot := Submitted.oneShot
  launch := by
    intro v i v' hex
    obtain ⟨ha, hs⟩ := hex
    obtain ⟨hi, _⟩ := AlertState.accepts_iff.mp (h.accepts ha)
    refine ⟨by simp [Busy, hi], ?_⟩
    cases i with
    | rejected => exact .inr rfl
    | request op => exact .inl (by rw [Busy, (h.request hs).2, AlertState.toggleIndicator, hi]; rfl)
    | trap t => exact .inr rfl
  serve := by
    intro v i q a v' heq
    subst heq
    exact Iff.rfl
  env := by
    intro v e v' he
    rw [Busy, Busy, (h.event he).1]

theorem Lawful.submits (h : F.Lawful owns required problem) {init : V → Prop} {p : Run V}
    (hr : (F.machine.system init).Reachable p)
    {op : Op} {c : Callbacks} (ht : ⟨.request op, c⟩ ∈ p.tasks) : owns op := by
  refine Machine.tags (L := fun i => ∀ op, i = .request op → owns op) ?_ hr _ ht op rfl
  intro v i v' hex op heq
  obtain ⟨_, hs⟩ := hex
  subst heq
  exact (h.request hs).1

theorem at_request {init : V → Prop} {p : Run V} (hr : (F.machine.system init).Reachable p) {op : Op}
    {c : Callbacks}
    (ht : ⟨.request op, c⟩ ∈ p.tasks) : At op c :=
  At.of_leads (Machine.within hr _ ht)

theorem Lawful.not_busy (h : F.Lawful owns required problem) {v v' : V} {op : Op} {completion : Completion}
    (hop : owns op) (hat : At op (.complete completion .done)) (hb : F.Busy v)
    (hc : F.completed op completion v = .ok v') : ¬ F.Busy v' := by
  rw [Busy] at hb
  rcases h.completed hop hat hc with hv | ⟨title, body, hv⟩
  · simp [Busy, hv, AlertState.toggleIndicator, hb]
  · simp [Busy, hv, AlertState.report, hb]

theorem Lawful.not_alerting (h : F.Lawful owns required problem) {p : Run V} (hr : F.system.Reachable p) :
    F.Busy p.state → (F.alerts p.state).showAlert = false := by
  refine System.Invariant.of_reachable (S := F.system)
    (I := fun p => F.Busy p.state → (F.alerts p.state).showAlert = false) ?_ ?_ hr
  · intro p hp _
    exact (AlertState.accepts_iff.mp (h.accepts hp.1)).2
  · intro p e p' hr hi hs
    cases hs with
    | @launch v i v' ts hl =>
      obtain ⟨ha, hs⟩ := hl
      have hacc := h.accepts ha
      obtain ⟨_, hal⟩ := AlertState.accepts_iff.mp hacc
      intro hb
      cases i with
      | rejected =>
        have htells := AlertState.tells_rejected hacc "Error!" required
        rw [← h.rejected hs] at htells
        exact absurd hb (by simp [Busy, htells.1])
      | request op => rw [(h.request hs).2]; exact hal
      | trap t => rw [h.trap hs]; exact hal
    | @serve v i q a k v' l r hs =>
      cases hs
      exact hi
    | @deliver v i x k v' l r hd =>
      obtain ⟨op, rfl, hc⟩ := hd
      have ht : ⟨.request op, .complete x k⟩ ∈ l ++ ⟨.request op, .complete x k⟩ :: r :=
        List.mem_append_right l List.mem_cons_self
      have hat := at_request hr ht
      have hk := hat.report
      subst hk
      have hb : F.Busy v := (h.gate.exclusive hr).2 (Machine.inFlight_pos rfl)
      exact fun hb' => absurd hb' (h.not_busy (h.submits hr ht) hat hb hc)
    | @env v e v' ts he =>
      obtain ⟨hbusy, halert⟩ := h.event he
      intro hb
      have hb : F.Busy v := by rw [Busy, ← hbusy]; exact hb
      by_contra hne
      exact absurd (halert hb (by simpa using hne)) (by simp [hi hb])

/-- At most one request is in flight, under the overlay and with no alert, and
what goes wrong is told at once. -/
def OneSubmission (F : Form V ε) (required : String) (problem : FBError → String) : Prop :=
  ∀ p, F.system.Reachable p →
    p.inFlight ≤ 1 ∧
    (0 < p.inFlight → (F.alerts p.state).showActivityIndicator = true ∧ (F.alerts p.state).showAlert = false) ∧
    ∀ e p', F.system.step p e p' →
      (e = .launch .rejected → (F.alerts p'.state).Tells required) ∧
      ∀ n op error, e = .deliver n (.request op) (op.failure error) → (F.alerts p'.state).Tells (problem error)

theorem Lawful.oneSubmission (h : F.Lawful owns required problem) : F.OneSubmission required problem := by
  intro p hr
  obtain ⟨hle, hbusy⟩ := h.gate.exclusive hr
  refine ⟨hle, fun hpos => ⟨hbusy hpos, h.not_alerting hr (hbusy hpos)⟩, fun e p' hs => ⟨?_, ?_⟩⟩
  · intro heq
    subst heq
    cases hs with
    | launch hl =>
      obtain ⟨ha, hs⟩ := hl
      rw [h.rejected hs]
      exact AlertState.tells_rejected (h.accepts ha) _ _
  · intro n op error heq
    subst heq
    cases hs with
    | @deliver v i x k v' l r hd =>
      obtain ⟨op', hop, hc⟩ := hd
      cases hop
      have ht : ⟨.request op, .complete (op.failure error) k⟩ ∈ l ++
        ⟨.request op, .complete (op.failure error) k⟩ :: r :=
        List.mem_append_right l List.mem_cons_self
      have hb : F.Busy v := (h.gate.exclusive hr).2 (Machine.inFlight_pos rfl)
      rw [h.failed (h.submits hr ht) hc]
      exact AlertState.tells_failed hb (h.not_alerting hr hb) _ _

end Form

/-! ## The four forms -/

def loginOps : Op → Prop
  | .logUserIn _ => True
  | _ => False

def registrationOps : Op → Prop
  | .createUser _ => True
  | _ => False

def resetPasswordOps : Op → Prop
  | .resetPassword _ => True
  | _ => False

def profileOps : Op → Prop
  | .updateEmail _ | .updateUserInfoWithImage _ | .updateUserInfoNoImage _ => True
  | _ => False

theorem loginForm_lawful : loginForm.Lawful loginOps LoginView.required FBError.localizedDescription where
  accepts := fun ha => ha
  request := by
    intro v v' op hs
    simp only [loginForm, LoginView.login] at hs
    split at hs
    · cases hs; exact ⟨trivial, rfl⟩
    · cases hs
  rejected := by
    intro v v' hs
    simp only [loginForm, LoginView.login] at hs
    split at hs
    · cases hs
    · cases hs; rfl
  trap := by
    intro v v' t hs
    simp only [loginForm, LoginView.login] at hs
    split at hs <;> cases hs
  failed := by
    intro v v' op error hop hc
    cases op with
    | logUserIn info => cases hc; rfl
    | _ => cases hop
  completed := by
    intro v v' op completion hop hat hc
    cases hat with
    | fail _ e =>
      cases op with
      | logUserIn info => cases hc; exact .inr ⟨_, _, rfl⟩
      | _ => cases hop
    | _ => cases hop
  event := by
    intro v e v' he
    cases e with
    | closeAlert =>
      simp only [loginForm, LoginView.event] at he
      split at he
      · cases he; exact ⟨rfl, by simp [loginForm, AlertState.closeAlert]⟩
      · cases he
    | _ =>
      simp only [loginForm, LoginView.event] at he
      split at he
      · cases he; exact ⟨rfl, fun _ h => h⟩
      · cases he

theorem registrationForm_lawful (lowercased : String → String) :
    (registrationForm lowercased).Lawful registrationOps RegistrationView.required RegistrationView.problem where
  accepts := by
    intro v ha
    simp only [registrationForm, RegistrationView.formAccepts, Bool.and_eq_true] at ha
    exact ha.1
  request := by
    intro v v' op hs
    simp only [registrationForm, RegistrationView.register] at hs
    split at hs
    · split at hs <;> cases hs
      exact ⟨trivial, rfl⟩
    · cases hs
  rejected := by
    intro v v' hs
    simp only [registrationForm, RegistrationView.register] at hs
    split at hs
    · rename_i hguard
      split at hs
      · rename_i hnone
        exact absurd hnone hguard.2.2.2
      · cases hs
    · cases hs; rfl
  trap := by
    intro v v' t hs
    simp only [registrationForm, RegistrationView.register] at hs
    split at hs
    · split at hs <;> cases hs
    · cases hs
  failed := by
    intro v v' op error hop hc
    cases op with
    | createUser info => cases hc; rfl
    | _ => cases hop
  completed := by
    intro v v' op completion hop hat hc
    cases hat with
    | fail _ e =>
      cases op with
      | createUser info => cases hc; exact .inr ⟨_, _, rfl⟩
      | _ => cases hop
    | registerDone info => cases hc; exact .inl rfl
    | _ => cases hop
  event := by
    intro v e v' he
    cases e with
    | closeAlert =>
      simp only [registrationForm, RegistrationView.event] at he
      split at he
      · cases he; exact ⟨rfl, by simp [registrationForm, AlertState.closeAlert]⟩
      · cases he
    | _ =>
      simp only [registrationForm, RegistrationView.event] at he
      split at he
      · cases he; exact ⟨rfl, fun _ h => h⟩
      · cases he

theorem resetPasswordForm_lawful :
    resetPasswordForm.Lawful resetPasswordOps ResetPasswordView.required FBError.localizedDescription where
  accepts := fun ha => ha
  request := by
    intro v v' op hs
    simp only [resetPasswordForm, ResetPasswordView.reset] at hs
    split at hs
    · cases hs; exact ⟨trivial, rfl⟩
    · cases hs
  rejected := by
    intro v v' hs
    simp only [resetPasswordForm, ResetPasswordView.reset] at hs
    split at hs
    · cases hs
    · cases hs; rfl
  trap := by
    intro v v' t hs
    simp only [resetPasswordForm, ResetPasswordView.reset] at hs
    split at hs <;> cases hs
  failed := by
    intro v v' op error hop hc
    cases op with
    | resetPassword info => cases hc; rfl
    | _ => cases hop
  completed := by
    intro v v' op completion hop hat hc
    cases hat with
    | fail _ e =>
      cases op with
      | resetPassword info => cases hc; exact .inr ⟨_, _, rfl⟩
      | _ => cases hop
    | resetDone info => cases hc; exact .inr ⟨_, _, rfl⟩
    | _ => cases hop
  event := by
    intro v e v' he
    cases e with
    | closeAlert =>
      simp only [resetPasswordForm, ResetPasswordView.event] at he
      split at he
      · cases he; exact ⟨rfl, by simp [resetPasswordForm, AlertState.closeAlert]⟩
      · cases he
    | email text =>
      simp only [resetPasswordForm, ResetPasswordView.event] at he
      split at he
      · cases he; exact ⟨rfl, fun _ h => h⟩
      · cases he

/-! ## The profile form -/

theorem update_cases {v v' : UserProfileView} {i : Submitted} (h : v.update = (v', i)) :
    (i = .rejected ∧ ¬ (v.username ≠ "" ∧ v.fullname ≠ "" ∧ v.email ≠ "") ∧
      v'.toAlertState = v.toggleIndicator.report "Error!" UserProfileView.required) ∨
    (v.username ≠ "" ∧ v.fullname ≠ "" ∧ v.email ≠ "" ∧ v'.toAlertState = v.toggleIndicator ∧
      ((i = .trap .nilUnwrap ∧ v.passedUser = none) ∨ ∃ user, v.passedUser = some user ∧
        (i = .request (.updateEmail ⟨user.id, v.email⟩) ∨
          (v.image ≠ none ∧ i = .request (.updateUserInfoWithImage
            ⟨user.id, v.username, v.fullname, user.profileImgUrl, v.fbImage⟩)) ∨
          i = .request (.updateUserInfoNoImage ⟨user.id, v.username, v.fullname⟩)))) := by
  simp only [UserProfileView.update] at h
  split at h
  · rename_i hguard
    obtain ⟨hu, hf, he⟩ := hguard
    refine .inr ⟨hu, hf, he, ?_⟩
    cases hp : v.passedUser with
    | none =>
      simp only [hp, Submitted.unwrap] at h
      split at h
      · cases h; exact ⟨rfl, .inl ⟨rfl, rfl⟩⟩
      · split at h <;> cases h <;> exact ⟨rfl, .inl ⟨rfl, rfl⟩⟩
    | some user =>
      simp only [hp, Submitted.unwrap] at h
      split at h
      · cases h; exact ⟨rfl, .inr ⟨user, rfl, .inl rfl⟩⟩
      · split at h
        · rename_i himg
          cases h; exact ⟨rfl, .inr ⟨user, rfl, .inr (.inl ⟨himg, rfl⟩)⟩⟩
        · cases h; exact ⟨rfl, .inr ⟨user, rfl, .inr (.inr rfl)⟩⟩
  · rename_i hguard
    cases h; exact .inl ⟨rfl, hguard, rfl⟩

theorem update_frame {v v' : UserProfileView} {i : Submitted} (h : v.update = (v', i)) :
    v'.toPickerState = v.toPickerState ∧ v'.passedUser = v.passedUser := by
  simp only [UserProfileView.update] at h
  repeat' split at h
  all_goals cases h
  all_goals exact ⟨rfl, rfl⟩

theorem completed_frame {v v' : UserProfileView} {op : Op} {completion : Completion}
    (h : profileForm.completed op completion v = .ok v') :
    v'.toPickerState = v.toPickerState ∧ v'.passedUser = v.passedUser := by
  simp only [profileForm, UserProfileView.emailUpdated, UserProfileView.infoUpdated] at h
  repeat' split at h
  all_goals cases h
  all_goals exact ⟨rfl, rfl⟩

theorem tapChangeEmail_frame (v : UserProfileView) :
    v.tapChangeEmail.showActivityIndicator = v.showActivityIndicator ∧
      v.tapChangeEmail.toPickerState = v.toPickerState ∧ v.tapChangeEmail.passedUser = v.passedUser := by
  unfold UserProfileView.tapChangeEmail
  cases v.updateEmail <;> exact ⟨rfl, rfl, rfl⟩

theorem changeEmail_frame (v : UserProfileView) (flipBefore tap flipAfter : Bool) :
    (v.changeEmail flipBefore tap flipAfter).showActivityIndicator = v.showActivityIndicator ∧
      (v.changeEmail flipBefore tap flipAfter).toPickerState = v.toPickerState ∧
      (v.changeEmail flipBefore tap flipAfter).passedUser = v.passedUser := by
  cases tap with
  | true => exact tapChangeEmail_frame (v.flipEmail flipBefore)
  | false => exact ⟨rfl, rfl, rfl⟩

theorem profileForm_lawful :
    profileForm.Lawful profileOps UserProfileView.required FBError.localizedDescription where
  accepts := by
    intro v ha
    simp only [profileForm, UserProfileView.formAccepts, Bool.and_eq_true] at ha
    exact ha.1
  request := by
    intro v v' op hs
    rcases update_cases hs with ⟨hi, _, _⟩ | ⟨_, _, _, hal, ⟨hi, _⟩ | ⟨user, _, hi | ⟨_, hi⟩ | hi⟩⟩
    · cases hi
    · cases hi
    · cases hi; exact ⟨trivial, hal⟩
    · cases hi; exact ⟨trivial, hal⟩
    · cases hi; exact ⟨trivial, hal⟩
  rejected := by
    intro v v' hs
    rcases update_cases hs with ⟨_, _, hal⟩ | ⟨_, _, _, _, ⟨hi, _⟩ | ⟨user, _, hi | ⟨_, hi⟩ | hi⟩⟩
    · exact hal
    all_goals cases hi
  trap := by
    intro v v' t hs
    rcases update_cases hs with ⟨hi, _, _⟩ | ⟨_, _, _, hal, _⟩
    · cases hi
    · exact hal
  failed := by
    intro v v' op error hop hc
    cases op with
    | updateEmail info => cases hc; rfl
    | updateUserInfoWithImage info => cases hc; rfl
    | updateUserInfoNoImage info => cases hc; rfl
    | _ => cases hop
  completed := by
    intro v v' op completion hop hat hc
    cases hat with
    | fail _ e =>
      cases op with
      | updateEmail info => cases hc; exact .inr ⟨_, _, rfl⟩
      | updateUserInfoWithImage info => cases hc; exact .inr ⟨_, _, rfl⟩
      | updateUserInfoNoImage info => cases hc; exact .inr ⟨_, _, rfl⟩
      | _ => cases hop
    | imageDone info => cases hc; exact .inr ⟨_, _, rfl⟩
    | infoDone info => cases hc; exact .inr ⟨_, _, rfl⟩
    | _ => cases hop
  event := by
    intro v e v' he
    cases e with
    | closeAlert =>
      simp only [profileForm, UserProfileView.event] at he
      split at he
      · cases he; exact ⟨rfl, by simp [profileForm, AlertState.closeAlert]⟩
      · cases he
    | changeEmail flipBefore tap flipAfter =>
      simp only [profileForm, UserProfileView.event] at he
      split at he
      · rename_i hacc
        cases he
        refine ⟨(changeEmail_frame v flipBefore tap flipAfter).1, fun hb => ?_⟩
        simp only [UserProfileView.formAccepts, Bool.and_eq_true] at hacc
        have hi : v.showActivityIndicator = false := (AlertState.accepts_iff.mp hacc.1).1
        exact absurd hb (by simp [Form.Busy, profileForm, hi])
      · cases he
    | snapshot data => cases data <;> cases he <;> exact ⟨rfl, fun _ h => h⟩
    | rebuilt => cases he; exact ⟨rfl, fun _ h => h⟩
    | fullnameAppears => cases he; exact ⟨rfl, fun _ h => h⟩
    | emailAppears => cases he; exact ⟨rfl, fun _ h => h⟩
    | usernameAppears => cases he; exact ⟨rfl, fun _ h => h⟩
    | _ =>
      simp only [profileForm, UserProfileView.event] at he
      split at he
      · cases he; exact ⟨rfl, fun _ h => h⟩
      · cases he

/-- Every form has one submission at a time and tells of every failure. -/
theorem one_submission_at_a_time (lowercased : String → String) :
    loginForm.OneSubmission LoginView.required FBError.localizedDescription ∧
    (registrationForm lowercased).OneSubmission RegistrationView.required RegistrationView.problem ∧
    resetPasswordForm.OneSubmission ResetPasswordView.required FBError.localizedDescription ∧
    profileForm.OneSubmission UserProfileView.required FBError.localizedDescription :=
  ⟨loginForm_lawful.oneSubmission, (registrationForm_lawful lowercased).oneSubmission,
    resetPasswordForm_lawful.oneSubmission, profileForm_lawful.oneSubmission⟩

end ToDoList
