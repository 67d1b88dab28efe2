import ToDoList.Accounts
import ToDoList.Form

/-!
# Which outcomes reach the completion

A chain invokes the completion once exactly when no outcome ends it before.
The overlay of a form goes away with the completion, so it stays for good when
the completion is never invoked.
-/

namespace ToDoList

open Async

namespace Op

/-- The operation gets to its first request: the document path is valid and
there is image data. -/
def Starts : Op → Prop
  | updateEmail info => FB.userDocument info.id ≠ none
  | updateUserInfoWithImage info => info.newprofileImg.bind UIImage.jpegData ≠ none
  | updateUserInfoNoImage info => FB.userDocument info.id ≠ none
  | _ => True

/-- The outcomes after which a completion is still to come. -/
def Continues : Op → (q : Request) → q.Answer → Prop
  | logUserIn _, .signIn _ _, answer => ∃ error, answer = .error error
  | createUser info, .createUser _ _, answer =>
    match answer with
    | .error _ => True
    | .ok none => False
    | .ok (some _) => info.profileImgUrl.jpegData ≠ none
  | createUser _, .downloadURL _, answer => answer ≠ .ok none
  | updateEmail _, .currentUser, user => user ≠ none
  | updateEmail _, .signOut, _ => False -- asked once Auth has changed the email
  | updateUserInfoWithImage info, .downloadURL _, answer =>
    match answer with
    | .error _ => True
    | .ok none => False
    | .ok (some _) => FB.userDocument info.id ≠ none
  | _, _, _ => True

theorem starts_iff (op : Op) : op.Starts ↔ op.body.ended = false := by
  cases op with
  | logUserIn info => exact iff_of_true trivial rfl
  | resetPassword info => exact iff_of_true trivial rfl
  | createUser info => exact iff_of_true trivial rfl
  | updateEmail info =>
    simp only [Starts, body, UserViewModel.updateEmail]
    split
    · rename_i h; simp [h]
    · rename_i docRef h; simp [h]
  | updateUserInfoWithImage info =>
    simp only [Starts, body, UserViewModel.updateUserInfoWithImage]
    split
    · rename_i h; simp [h]
    · rename_i img h
      split
      · rename_i hd; simp [h, hd]
      · rename_i data hd; simp [h, hd]
  | updateUserInfoNoImage info =>
    simp only [Starts, body, UserViewModel.updateUserInfoNoImage]
    split
    · rename_i h; simp [h]
    · rename_i docRef h; simp [h]

theorem continues_iff {op : Op} {q : Request} {k : q.Answer → Callbacks} (h : At op (.call q k)) (a : q.Answer) :
    op.Continues q a ↔ (k a).ended = false := by
  cases h with
  | signIn info => cases a <;> simp [Continues, LoginService.signedIn]
  | reset info => cases a <;> simp [Continues, ResetPasswordService.resetSent]
  | register info =>
    cases a using answer_cases with
    | error e => simp [Continues, RegistrationService.userCreated]
    | nil => simp [Continues, RegistrationService.userCreated]
    | value newUser =>
      simp only [Continues, RegistrationService.userCreated]
      split
      · rename_i h; simp [h]
      · rename_i data h; simp [h]
  | registerImage info newUser data hd => cases a <;> simp [Continues, RegistrationService.imageUploaded]
  | registerUrl info newUser =>
    cases a using answer_cases with
    | error e => simp [Continues, RegistrationService.urlDownloaded]
    | nil => simp [Continues, RegistrationService.urlDownloaded]
    | value url =>
      simp [Continues, RegistrationService.urlDownloaded, RegistrationService.createDocument_eq]
  | registerWrite info newUser url => simp [Continues, RegistrationService.documentCreated]
  | emailWrite info docRef hd => cases a <;> simp [Continues, UserViewModel.emailWritten]
  | emailUser info docRef hd => cases a <;> simp [Continues, UserViewModel.currentUserRead]
  | emailUpdate info docRef user hd => cases a <;> simp [Continues, UserViewModel.emailUpdated]
  | emailSignOut info => simp [Continues]
  | imageUpload info img data hi hd => cases a <;> simp [Continues, UserViewModel.imageUploaded]
  | imageUrl info =>
    cases a using answer_cases with
    | error e => simp [Continues, UserViewModel.urlDownloaded]
    | nil => simp [Continues, UserViewModel.urlDownloaded]
    | value url =>
      simp only [Continues, UserViewModel.urlDownloaded]
      split
      · rename_i h; simp [h]
      · rename_i docRef h; simp [h]
  | imageWrite info docRef url hd => cases a <;> simp [Continues, UserViewModel.infoWritten]
  | infoWrite info docRef hd => cases a <;> simp [Continues, UserViewModel.infoWritten]

def Answered (op : Op) (o : Nat → (q : Request) → q.Answer) : Prop := (op.body.completions o).length = 1

def Unbroken (op : Op) (o : Nat → (q : Request) → q.Answer) : Prop :=
  op.Starts ∧ ∀ x ∈ op.body.trace o, op.Continues x.1 x.2

theorem answered_iff (op : Op) (o : Nat → (q : Request) → q.Answer) : op.Answered o ↔ op.Unbroken o := by
  rw [Answered, Unbroken, starts_iff]
  exact (At.body op).oneShot.completions_eq_one (fun q k hl a => continues_iff (At.of_leads hl) a) o

end Op

/-! ## The overlay -/

namespace Form

variable {V ε : Type} {F : Form V ε} {owns : Op → Prop} {required : String} {problem : FBError → String}

/-- Requests start, go on after every answer, and no submission traps. -/
def Attended : Event Submitted Request.Answer Completion ε → Prop
  | .launch (.request op) => op.Starts
  | .launch (.trap _) => False
  | .serve _ (.request op) q a => op.Continues q a
  | _ => True

theorem Lawful.heard (h : F.Lawful owns required problem) : F.machine.Heard F.Busy Attended where
  launch := by
    intro v i v' hl hok hb
    cases i with
    | rejected =>
      have htells := AlertState.tells_rejected (h.accepts hl.1) "Error!" required
      rw [← h.rejected hl.2] at htells
      exact absurd hb (by simp [Busy, htells.1])
    | request op => exact (Op.starts_iff op).mp hok
    | trap t => cases hok
  serve := by
    intro n i q k a hl hok
    cases i with
    | rejected => cases hl.of_ended rfl
    | request op => exact (Op.continues_iff (At.of_leads hl) a).mp hok
    | trap t => cases hl.of_ended rfl
  deliver := by
    intro v₀ v₀' v v' i x k hex hl hex₁ hb
    obtain ⟨_, hs⟩ := hex
    obtain ⟨op, rfl, hc⟩ := hex₁
    have hat : At op (.complete x k) := At.of_leads hl
    have hk := hat.report
    subst hk
    exact h.not_busy (h.request hs).1 hat hb hc

def Unblocked (F : Form V ε) : Prop :=
  ∀ p, (F.system.restrict fun _ e _ => Attended e).Reachable p → p.inFlight = 0 →
    (F.alerts p.state).showActivityIndicator = false

theorem Lawful.unblocked (h : F.Lawful owns required problem) : F.Unblocked := by
  intro p hr hidle
  have hinit : ∀ v, F.accepts v = true → ¬ F.Busy v := by
    intro v ha
    simp [Busy, (AlertState.accepts_iff.mp (h.accepts ha)).1]
  by_contra hb
  have hbusy : F.Busy p.state := by rw [Busy]; simpa using hb
  have hpos := h.gate.idle h.heard hinit hr hbusy
  omega

end Form

/-- An operation invokes its completion once exactly when every outcome lets it
go on; where all do, the overlay of a form does not outlive its request. -/
theorem answered_once (lowercased : String → String) :
    (∀ (op : Op) o, op.Answered o ↔ op.Unbroken o) ∧
    loginForm.Unblocked ∧ (registrationForm lowercased).Unblocked ∧ resetPasswordForm.Unblocked ∧
    profileForm.Unblocked :=
  ⟨Op.answered_iff, loginForm_lawful.unblocked, (registrationForm_lawful lowercased).unblocked,
    resetPasswordForm_lawful.unblocked, profileForm_lawful.unblocked⟩

def allSucceed (_ : Nat) : (q : Request) → q.Answer
  | .signIn _ _ => .ok (some ann)
  | .createUser _ _ => .ok (some ann)
  | .sendPasswordReset _ => none
  | .currentUser => some ann
  | .updateEmail _ _ => none
  | .signOut => none
  | .putData _ _ _ => .ok annImage.url
  | .downloadURL _ => .ok (some annImage.url)
  | .setData _ _ _ => none

def annLogin : LoginInfo := ⟨"a@x.com", "secret"⟩

theorem answered_once_run : (Op.createUser annInfo).Answered allSucceed ∧
    ∃ p : Form.Run LoginView, p.inFlight = 0 ∧ p.state.showActivityIndicator = false ∧
      p.state.messageBody = "wrong password" := by
  constructor
  · refine ((answered_once id).1 _ _).mpr ⟨trivial, ?_⟩
    have htrace : (Op.createUser annInfo).body.trace allSucceed = [
        ⟨.createUser "a@x.com" "secret", .ok (some ann)⟩,
        ⟨.putData (FB.image ann.1) [1] FB.imageContentType, .ok annImage.url⟩,
        ⟨.downloadURL (FB.image ann.1), .ok (some annImage.url)⟩,
        ⟨.setData [FB.userCollection, ann.1] (RegistrationService.newDocument annInfo ann annImage.url) false,
          none⟩] :=
      rfl
    rw [htrace]
    simp [Op.Continues, annInfo]
  · have h0 : (loginForm.system.restrict fun _ e _ => Form.Attended e).Reachable
        ⟨{ email := "a@x.com", password := "secret" }, []⟩ := .init ⟨rfl, rfl⟩
    have h1 :=
      h0.step ⟨.launch (M := loginForm.machine) (i := .request (.logUserIn annLogin)) ⟨rfl, rfl⟩, by trivial⟩
    have h2 := h1.step ⟨.serve (l := []) (r := []) (a := .error ⟨"wrong password"⟩) rfl, by exact ⟨_, rfl⟩⟩
    have h3 := h2.step ⟨.deliver (l := []) (r := []) ⟨_, rfl, rfl⟩, by trivial⟩
    exact ⟨_, rfl, (answered_once id).2.1 _ h3 rfl, rfl⟩

/-- A login that succeeds leaves the completion out. -/
theorem login_unanswered : ¬ ∀ (op : Op) o, op.Answered o := by
  intro h
  have hlogin : ((Op.logUserIn annLogin).body.completions allSucceed).length = 1 := h _ _
  exact absurd hlogin (by decide)

end ToDoList
