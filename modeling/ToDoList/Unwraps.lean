import ToDoList.Form

/-!
# Forced unwraps in the forms

The submit action of the profile form unwraps the user of its view model, the
update with an image unwraps the picked image, and the completion of a password
reset unwraps the error of a false result.
-/

namespace ToDoList

open Async

namespace Form

variable {V ε : Type}

/-- No call has unwrapped nil, and no completion to come is going to. -/
def NoUnwrap (F : Form V ε) (p : Run V) : Prop :=
  (∀ t ∈ p.tasks, t.chain.trapped ≠ some .nilUnwrap) ∧
    ∀ op completion k, ⟨.request op, .complete completion k⟩ ∈ p.tasks →
      ∀ t, F.completed op completion p.state ≠ .error t

end Form

def profileRuns : System (Form.Run UserProfileView)
    (Event Submitted Request.Answer Completion UserProfileView.Event) :=
  profileForm.machine.system fun v => ∃ passedUser, v = { passedUser := passedUser }

def registrationRuns (lowercased : String → String) :
    System (Form.Run RegistrationView) (Event Submitted Request.Answer Completion RegistrationView.Event) :=
  (registrationForm lowercased).machine.system fun v => v = {}

def resetPasswordRuns :
    System (Form.Run ResetPasswordView) (Event Submitted Request.Answer Completion ResetPasswordView.Event) :=
  resetPasswordForm.machine.system fun v => v = {}

/-- A submission gets past its guard only when the view model has a user. -/
def UserLoaded (p : Form.Run UserProfileView) :
    Event Submitted Request.Answer Completion UserProfileView.Event → Prop
  | .launch _ => p.state.username ≠ "" ∧ p.state.fullname ≠ "" ∧ p.state.email ≠ "" → p.state.passedUser ≠ none
  | _ => True

/-! ## The picked image -/

def ImagesPicked (v : PickerState) : Prop := v.image ≠ none → v.fbImage ≠ none

theorem ImagesPicked.didFinishPicking {v : PickerState} (h : ImagesPicked v) (editedImage : Option UIImage) :
    ImagesPicked (v.didFinishPicking editedImage) := by
  cases editedImage with
  | none => exact h
  | some uiImage => exact fun _ => by simp [PickerState.didFinishPicking]

def ImageGiven (i : Submitted) : Prop :=
  ∀ info, i = .request (.updateUserInfoWithImage info) → info.newprofileImg ≠ none

theorem picked_event {v v' : UserProfileView} {e : UserProfileView.Event} (hv : ImagesPicked v.toPickerState)
    (he : v.event e = some v') : ImagesPicked v'.toPickerState := by
  cases e with
  | tapImage =>
    simp only [UserProfileView.event] at he
    split at he
    · cases he; exact hv
    · cases he
  | didFinishPicking editedImage =>
    simp only [UserProfileView.event] at he
    split at he
    · cases he; exact hv.didFinishPicking editedImage
    · cases he
  | didCancel =>
    simp only [UserProfileView.event] at he
    split at he
    · cases he; exact hv
    · cases he
  | changeEmail flipBefore tap flipAfter =>
    simp only [UserProfileView.event] at he
    split at he
    · cases he
      rw [(changeEmail_frame v flipBefore tap flipAfter).2.1]
      exact hv
    · cases he
  | snapshot data => cases data <;> cases he <;> exact hv
  | rebuilt => cases he; exact hv
  | fullnameAppears => cases he; exact hv
  | emailAppears => cases he; exact hv
  | usernameAppears => cases he; exact hv
  | _ =>
    simp only [UserProfileView.event] at he
    split at he
    · cases he; exact hv
    · cases he

theorem picked_rules : profileForm.machine.Rules (fun v => ImagesPicked v.toPickerState) fun _ t =>
    ImageGiven t.tag where
  launch := by
    intro v i v' hv hex
    obtain ⟨_, hs⟩ := hex
    refine ⟨by rw [(update_frame hs).1]; exact hv, fun _ h => h, ?_⟩
    intro info heq
    subst heq
    rcases update_cases hs with ⟨hi, _, _⟩ | ⟨_, _, _, _, ⟨hi, _⟩ | ⟨user, _, hi | ⟨himg, hi⟩ | hi⟩⟩
    · cases hi
    · cases hi
    · cases hi
    · cases hi; exact hv himg
    · cases hi
  serve := by
    intro v i q a k v' hv hi heq
    subst heq
    exact ⟨hv, fun _ h => h, hi⟩
  deliver := by
    intro v i x k v' hv hi hex
    obtain ⟨op, rfl, hc⟩ := hex
    exact ⟨by rw [(completed_frame hc).1]; exact hv, fun _ h => h, hi⟩
  env := by
    intro v e v' hv he
    exact ⟨picked_event hv he, fun _ h => h⟩

/-! ## The user of the view model -/

theorem profile_completes (op : Op) (completion : Completion) (v : UserProfileView) (t : Trap) :
    profileForm.completed op completion v ≠ .error t := by
  simp only [profileForm]
  split <;> simp

/-- In the profile form, the only nil that is unwrapped is the user. -/
theorem profile_noUnwrap_iff {p : Form.Run UserProfileView} (hr : profileRuns.Reachable p) :
    profileForm.NoUnwrap p ↔ .trap .nilUnwrap ∉ p.tasks.map (·.tag) := by
  have hgiven : ∀ t ∈ p.tasks, ImageGiven t.tag := by
    have hinv : profileRuns.Invariant _ := picked_rules.invariant (by
      intro v hex h
      obtain ⟨passedUser, rfl⟩ := hex
      exact h)
    exact (hinv.holds hr).2
  constructor
  · intro hn hmem
    obtain ⟨t, ht, htag⟩ := List.mem_map.mp hmem
    obtain ⟨i, c⟩ := t
    obtain rfl : i = .trap .nilUnwrap := htag
    have hlead : (Submitted.trap .nilUnwrap).body.Leads c := Machine.within hr _ ht
    obtain rfl := hlead.of_ended rfl
    exact hn.1 _ ht rfl
  · intro hn
    refine ⟨fun t ht htrap => ?_, fun op completion k _ t => profile_completes op completion p.state t⟩
    obtain ⟨i, c⟩ := t
    have hlead : i.body.Leads c := Machine.within hr _ ht
    cases i with
    | rejected =>
      obtain rfl := hlead.of_ended rfl
      cases htrap
    | trap t =>
      obtain rfl := hlead.of_ended rfl
      obtain rfl : t = .nilUnwrap := Option.some.inj htrap
      exact hn (List.mem_map.mpr ⟨_, ht, rfl⟩)
    | request op =>
      have hat : At op c := At.of_leads hlead
      cases hat with
      | noImage info hnone => exact hgiven _ ht info rfl hnone
      | _ => cases htrap

theorem profile_step {p p' : Form.Run UserProfileView}
    {e : Event Submitted Request.Answer Completion UserProfileView.Event} (hr : profileRuns.Reachable p)
    (hs : profileRuns.step p e p') (hn : profileForm.NoUnwrap p) :
    profileForm.NoUnwrap p' ↔ UserLoaded p e := by
  have htags := Machine.Step.tags hs
  rw [profile_noUnwrap_iff hr] at hn
  rw [profile_noUnwrap_iff (hr.step hs), htags, List.mem_append, not_or]
  cases hs with
  | @launch v i v' ts hl =>
    obtain ⟨_, hs⟩ := hl
    simp only [List.mem_singleton, UserLoaded]
    constructor
    · intro h hguard hnone
      obtain ⟨_, hi⟩ := h
      rcases update_cases hs with ⟨_, hno, _⟩ | ⟨_, _, _, _, ⟨hi', _⟩ | ⟨user, huser, _⟩⟩
      · exact hno hguard
      · exact hi hi'.symm
      · rw [hnone] at huser
        cases huser
    · intro hloaded
      refine ⟨hn, ?_⟩
      intro heq
      subst heq
      rcases update_cases hs with ⟨hi, _⟩ | ⟨hu, hf, he, _, ⟨_, hnone⟩ | ⟨user, _, hi | ⟨_, hi⟩ | hi⟩⟩
      · cases hi
      · exact hloaded ⟨hu, hf, he⟩ hnone
      all_goals cases hi
  | serve _ => exact iff_of_true ⟨hn, by simp⟩ trivial
  | deliver _ => exact iff_of_true ⟨hn, by simp⟩ trivial
  | env _ => exact iff_of_true ⟨hn, by simp⟩ trivial

theorem profile_noUnwrap {p : Form.Run UserProfileView}
    (hr : (profileRuns.restrict fun p e _ => UserLoaded p e).Reachable p) : profileForm.NoUnwrap p := by
  induction hr with
  | init h0 => rw [profile_noUnwrap_iff (.init h0), h0.2]; simp
  | step hr hs ih => exact (profile_step hr.unrestrict hs.1 ih).mpr hs.2

/-! ## The other two forms -/

theorem noTrap_tasks {V ε : Type} {F : Form V ε} {owns : Op → Prop} {required : String} {problem : FBError → String}
    (h : F.Lawful owns required problem) (himage : ∀ info, ¬ owns (.updateUserInfoWithImage info))
    (hsubmit : ∀ v v' t, F.submit v ≠ (v', .trap t)) {init : V → Prop} {p : Form.Run V}
    (hr : (F.machine.system init).Reachable p) : ∀ t ∈ p.tasks, t.chain.trapped ≠ some .nilUnwrap := by
  intro t ht htrap
  obtain ⟨i, c⟩ := t
  have hlead : i.body.Leads c := Machine.within hr _ ht
  cases i with
  | rejected =>
    obtain rfl := hlead.of_ended rfl
    cases htrap
  | trap t =>
    refine Machine.tags (L := fun i => ∀ t, i ≠ .trap t) ?_ hr _ ht t rfl
    intro v i v' hex t heq
    obtain ⟨_, hs⟩ := hex
    subst heq
    exact hsubmit v v' t hs
  | request op =>
    have hat : At op c := At.of_leads hlead
    cases hat with
    | noImage info hnone => exact himage info (h.submits hr ht)
    | _ => cases htrap

theorem registration_noUnwrap {lowercased : String → String} {p : Form.Run RegistrationView}
    (hr : (registrationRuns lowercased).Reachable p) : (registrationForm lowercased).NoUnwrap p := by
  refine ⟨noTrap_tasks (registrationForm_lawful lowercased) (fun _ h => h) ?_ hr, ?_⟩
  · intro v v' t hs
    simp only [registrationForm, RegistrationView.register] at hs
    repeat' split at hs
    all_goals cases hs
  · intro op completion k _ t
    simp only [registrationForm]
    split <;> simp

theorem resetPassword_noUnwrap {p : Form.Run ResetPasswordView} (hr : resetPasswordRuns.Reachable p) :
    resetPasswordForm.NoUnwrap p := by
  refine ⟨noTrap_tasks resetPasswordForm_lawful (fun _ h => h) ?_ hr, ?_⟩
  · intro v v' t hs
    simp only [resetPasswordForm, ResetPasswordView.reset] at hs
    repeat' split at hs
    all_goals cases hs
  · intro op completion k ht t
    have hop := resetPasswordForm_lawful.submits hr ht
    have hat : At op (.complete completion k) := Form.at_request hr ht
    cases hat with
    | fail _ e =>
      cases op with
      | resetPassword info => simp [Op.failure, resetPasswordForm, ResetPasswordView.resetDone]
      | _ => cases hop
    | resetDone info => simp [resetPasswordForm, ResetPasswordView.resetDone]
    | _ => cases hop

/-! ## No forced unwrap of nil -/

/-- A step of the profile form unwraps nil exactly when it is not `UserLoaded`,
and the other two forms never do. -/
theorem unwraps (lowercased : String → String) :
    (∀ p e p', profileRuns.Reachable p → profileRuns.step p e p' → profileForm.NoUnwrap p →
      (profileForm.NoUnwrap p' ↔ UserLoaded p e)) ∧
    (∀ p, (profileRuns.restrict fun p e _ => UserLoaded p e).Reachable p → profileForm.NoUnwrap p) ∧
    (∀ p, (registrationRuns lowercased).Reachable p → (registrationForm lowercased).NoUnwrap p) ∧
    ∀ p, resetPasswordRuns.Reachable p → resetPasswordForm.NoUnwrap p :=
  ⟨fun _ _ _ hr hs hn => profile_step hr hs hn, fun _ hr => profile_noUnwrap hr,
    fun _ hr => registration_noUnwrap hr, fun _ hr => resetPassword_noUnwrap hr⟩

theorem unwraps_run : ∃ p : Form.Run UserProfileView, p.inFlight = 1 ∧ profileForm.NoUnwrap p := by
  have h0 : (profileRuns.restrict fun p e _ => UserLoaded p e).Reachable ⟨{}, []⟩ := .init ⟨⟨none, rfl⟩, rfl⟩
  have h1 := h0.step ⟨.env (M := profileForm.machine) (e := .snapshot (some (User.convertModelToDictionary
    ⟨"u1", "ann", "Ann", "a@x.com", "https://img/1"⟩))) rfl, trivial⟩
  have h2 := h1.step ⟨.env (M := profileForm.machine) (e := .fullnameAppears) rfl, trivial⟩
  have h3 := h2.step ⟨.env (M := profileForm.machine) (e := .emailAppears) rfl, trivial⟩
  have h4 := h3.step ⟨.env (M := profileForm.machine) (e := .usernameAppears) rfl, trivial⟩
  have h5 := h4.step ⟨.launch (M := profileForm.machine)
    (i := .request (.updateUserInfoNoImage ⟨"u1", "ann", "Ann"⟩)) ⟨rfl, rfl⟩, fun _ => by simp⟩
  exact ⟨_, rfl, (unwraps id).2.1 _ h5⟩

/-- All fields have been typed in before the first snapshot. -/
theorem unloaded_user_unwrapped : ¬ ∀ p, profileRuns.Reachable p → profileForm.NoUnwrap p := by
  have h0 : profileRuns.Reachable ⟨{}, []⟩ := .init ⟨⟨none, rfl⟩, rfl⟩
  have h1 := h0.step (.env (M := profileForm.machine) (e := .fullname "Ann") rfl)
  have h2 := h1.step (.env (M := profileForm.machine) (e := .email "a@x.com") rfl)
  have h3 := h2.step (.env (M := profileForm.machine) (e := .username "ann") rfl)
  have h4 := h3.step (.launch (M := profileForm.machine) (i := .trap .nilUnwrap) ⟨rfl, rfl⟩)
  intro h
  exact (h _ h4).1 _ (List.mem_singleton.mpr rfl) rfl

end ToDoList
