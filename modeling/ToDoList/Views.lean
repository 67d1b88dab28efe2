import ToDoList.Operation

/-!
# The forms

The state of the four forms, their submit actions, the closures they pass as
completions, and what else a user does to them. A form takes input only while
its loading overlay is off and no alert or image picker is presented.
-/

namespace ToDoList

/-! ## Alerts, the loading overlay and the image picker -/

structure AlertState where
  showAlert : Bool := false
  messageTitle : String := ""
  messageBody : String := ""
  showActivityIndicator : Bool := false
  deriving DecidableEq

namespace AlertState

def toggleIndicator (v : AlertState) : AlertState := { v with showActivityIndicator := !v.showActivityIndicator }

-- the end of a rejected, failed or successful submission
def report (v : AlertState) (title body : String) : AlertState where
  showActivityIndicator := !v.showActivityIndicator
  messageTitle := title
  messageBody := body
  showAlert := !v.showAlert

def closeAlert (v : AlertState) : AlertState := { v with showAlert := false }

/-- `LoadingView` disables its content while it is showing. -/
def accepts (v : AlertState) : Bool := !v.showActivityIndicator && !v.showAlert

def Tells (v : AlertState) (body : String) : Prop :=
  v.showActivityIndicator = false ∧ v.showAlert = true ∧ v.messageBody = body

theorem accepts_iff {v : AlertState} : v.accepts = true ↔ v.showActivityIndicator = false ∧
    v.showAlert = false := by
  simp [accepts]

theorem tells_rejected {v : AlertState} (h : v.accepts = true) (title body : String) :
    (v.toggleIndicator.report title body).Tells body := by
  obtain ⟨hi, hal⟩ := accepts_iff.mp h
  simp [Tells, report, toggleIndicator, hi, hal]

theorem tells_failed {v : AlertState} (hi : v.showActivityIndicator = true) (hal : v.showAlert = false)
    (title body : String) : (v.report title body).Tells body := by
  simp [Tells, report, hi, hal]

end AlertState

structure PickerState where
  showImagePicker : Bool := false
  image : Option UIImage := none
  fbImage : Option UIImage := none
  deriving DecidableEq

namespace PickerState

def tapImage (v : PickerState) : PickerState := { v with showImagePicker := !v.showImagePicker }

def didFinishPicking (v : PickerState) : Option UIImage → PickerState
  | none => v
  | some uiImage => { fbImage := some uiImage, image := some uiImage, showImagePicker := !v.showImagePicker }

def didCancel (v : PickerState) : PickerState := { v with showImagePicker := !v.showImagePicker }

end PickerState

inductive Submitted
  | rejected
  | request (op : Op)
  | trap (t : Trap)
  deriving DecidableEq

/-- `request user!`. -/
def Submitted.unwrap (user : Option User) (request : User → Op) : Submitted :=
  match user with
  | none => .trap .nilUnwrap
  | some user => .request (request user)

/-! ## Views/Login/LoginView.swift -/

structure LoginView extends AlertState where
  email : String := ""
  password : String := ""
  deriving DecidableEq

inductive LoginView.Event
  | email (text : String)
  | password (text : String)
  | closeAlert

namespace LoginView

def required : String := "Both email and password are required!"

def login (v : LoginView) : LoginView × Submitted :=
  let v := { v with toAlertState := v.toggleIndicator }
  if v.email ≠ "" ∧ v.password ≠ "" then (v, .request (.logUserIn { email := v.email, password := v.password }))
  else ({ v with toAlertState := v.report "Error!" required }, .rejected)

def loggedIn (v : LoginView) : Option FBError → LoginView
  | some error => { v with toAlertState := v.report "Error!" error.localizedDescription }
  | none => { v with toAlertState := v.toggleIndicator }

def event (v : LoginView) : Event → Option LoginView
  | .email text => if v.accepts then some { v with email := text } else none
  | .password text => if v.accepts then some { v with password := text } else none
  | .closeAlert => if v.showAlert then some { v with toAlertState := v.closeAlert } else none

end LoginView

/-! ## Views/Login/RegistrationView.swift -/

structure RegistrationView extends AlertState, PickerState where
  fullname : String := ""
  email : String := ""
  username : String := ""
  password : String := ""
  deriving DecidableEq

inductive RegistrationView.Event
  | fullname (text : String)
  | email (text : String)
  | username (text : String)
  | password (text : String)
  | tapImage
  | didFinishPicking (editedImage : Option UIImage)
  | didCancel
  | closeAlert

namespace RegistrationView

def required : String := "All fields are required including profile pic!"

def problem (error : FBError) : String := "Registration problem: " ++ error.localizedDescription

def formAccepts (v : RegistrationView) : Bool := v.accepts && !v.showImagePicker

def register (lowercased : String → String) (v : RegistrationView) : RegistrationView × Submitted :=
  let v := { v with toAlertState := v.toggleIndicator }
  if v.username ≠ "" ∧ v.fullname ≠ "" ∧ v.email ≠ "" ∧ v.fbImage ≠ none then
    match v.fbImage with
    | none => (v, .rejected) -- a second guard, never taken
    | some profileImage => (v, .request (.createUser {
        username := lowercased v.username, fullname := v.fullname, email := lowercased v.email,
        password := v.password, profileImgUrl := profileImage }))
  else ({ v with toAlertState := v.report "Error!" required }, .rejected)

def registered (v : RegistrationView) : Option FBError → RegistrationView
  | some error => { v with toAlertState := v.report "Error!" (problem error) }
  | none => { v with toAlertState := v.toggleIndicator }

def event (v : RegistrationView) : Event → Option RegistrationView
  | .fullname text => if v.formAccepts then some { v with fullname := text } else none
  | .email text => if v.formAccepts then some { v with email := text } else none
  | .username text => if v.formAccepts then some { v with username := text } else none
  | .password text => if v.formAccepts then some { v with password := text } else none
  | .tapImage => if v.formAccepts then some { v with toPickerState := v.toPickerState.tapImage } else none
  | .didFinishPicking editedImage =>
    if v.showImagePicker then some { v with toPickerState := v.toPickerState.didFinishPicking editedImage }
      else none
  | .didCancel => if v.showImagePicker then some { v with toPickerState := v.toPickerState.didCancel } else none
  | .closeAlert => if v.showAlert then some { v with toAlertState := v.closeAlert } else none

end RegistrationView

/-! ## Views/Login/ResetPasswordView.swift -/

structure ResetPasswordView extends AlertState where
  email : String := ""
  deriving DecidableEq

inductive ResetPasswordView.Event
  | email (text : String)
  | closeAlert

namespace ResetPasswordView

def required : String := "You must enter a valid email!"

def reset (v : ResetPasswordView) : ResetPasswordView × Submitted :=
  let v := { v with toAlertState := v.toggleIndicator }
  if v.email ≠ "" then (v, .request (.resetPassword { email := v.email }))
  else ({ v with toAlertState := v.report "Error!" required }, .rejected)

-- `email` is cleared before the message is put together
def resetDone (v : ResetPasswordView) (result : Bool) (error : Option FBError) : Except Trap ResetPasswordView :=
  if result then
    let v := { v with email := "" }
    let message := "Please check your email (" ++ v.email ++ " and follow password reset directions."
    .ok { v with toAlertState := v.report "Success!" message }
  else
    match error with
    | none => .error .nilUnwrap
    | some error => .ok { v with toAlertState := v.report "Error!" error.localizedDescription }

def event (v : ResetPasswordView) : Event → Option ResetPasswordView
  | .email text => if v.accepts then some { v with email := text } else none
  | .closeAlert => if v.showAlert then some { v with toAlertState := v.closeAlert } else none

end ResetPasswordView

/-! ## Views/UserProfileView.swift -/

structure UserProfileView extends AlertState, PickerState where
  /-- `passedUser.user`. -/
  passedUser : Option User := none
  fullname : String := ""
  email : String := ""
  username : String := ""
  updateEmail : Bool := false
  deriving DecidableEq

/-- A touch on the switch flips it, before or after the tap gesture runs; a
drag flips it without a tap. `rebuilt` is a new `CategoryView` with a view
model of its own, `snapshot` what the listener of the view model is given. -/
inductive UserProfileView.Event
  | fullname (text : String)
  | email (text : String)
  | username (text : String)
  | fullnameAppears
  | emailAppears
  | usernameAppears
  | tapImage
  | didFinishPicking (editedImage : Option UIImage)
  | didCancel
  | changeEmail (flipBefore tap flipAfter : Bool)
  | closeAlert
  | snapshot (data : Option Document)
  | rebuilt

/-- The tap gesture of `ChangeEmail`. -/
def ChangeEmail.notice : String :=
  "⦿ If you are changing your email, this operation must be done seperately since it is tied to your login. \n\n⦿ If you have not logged in recently, you may recieve an error indicating to logout and back in before performing the operation.\n\n⦿ Once you hit the Update Info button, we will attempt to reset your email and you will be logged out of the system and will re-authenticate with your new email and password."

namespace UserProfileView

def required : String := "All fields are required!"

def formAccepts (v : UserProfileView) : Bool := v.accepts && !v.showImagePicker

def update (v : UserProfileView) : UserProfileView × Submitted :=
  let v := { v with toAlertState := v.toggleIndicator }
  if v.username ≠ "" ∧ v.fullname ≠ "" ∧ v.email ≠ "" then
    if v.updateEmail then
      (v, .unwrap v.passedUser fun user => .updateEmail { id := user.id, email := v.email })
    else if v.image ≠ none then
      (v, .unwrap v.passedUser fun user => .updateUserInfoWithImage {
        id := user.id, username := v.username, fullname := v.fullname, profileImgUrl := user.profileImgUrl,
        newprofileImg := v.fbImage })
    else
      (v, .unwrap v.passedUser fun user => .updateUserInfoNoImage {
        id := user.id, username := v.username, fullname := v.fullname })
  else ({ v with toAlertState := v.report "Error!" required }, .rejected)

def emailUpdated (v : UserProfileView) : Option FBError → UserProfileView
  | some error => { v with toAlertState := v.report "Error!" error.localizedDescription }
  | none => v

def infoUpdated (v : UserProfileView) (result : Bool) (error : Option FBError) : UserProfileView :=
  if result then { v with toAlertState := v.report "Success!" "Profile updated successfully!" }
  else
    match error with
    | some error => { v with toAlertState := v.report "Error!" error.localizedDescription }
    | none => v

def tapChangeEmail (v : UserProfileView) : UserProfileView :=
  if !v.updateEmail then
    { v with messageTitle := "Alert!", messageBody := ChangeEmail.notice, showAlert := !v.showAlert }
  else v

def flipEmail (v : UserProfileView) (flip : Bool) : UserProfileView :=
  { v with updateEmail := v.updateEmail ^^ flip }

def changeEmail (v : UserProfileView) (flipBefore tap flipAfter : Bool) : UserProfileView :=
  let v := v.flipEmail flipBefore
  (if tap then v.tapChangeEmail else v).flipEmail flipAfter

def event (v : UserProfileView) : Event → Option UserProfileView
  | .fullname text => if v.formAccepts then some { v with fullname := text } else none
  | .email text => if v.formAccepts then some { v with email := text } else none
  | .username text => if v.formAccepts then some { v with username := text } else none
  | .fullnameAppears => some { v with fullname := (v.passedUser.map User.fullname).getD "" }
  | .emailAppears => some { v with email := (v.passedUser.map User.email).getD "" }
  | .usernameAppears => some { v with username := (v.passedUser.map User.username).getD "" }
  | .tapImage => if v.formAccepts then some { v with toPickerState := v.toPickerState.tapImage } else none
  | .didFinishPicking editedImage =>
    if v.showImagePicker then some { v with toPickerState := v.toPickerState.didFinishPicking editedImage }
      else none
  | .didCancel => if v.showImagePicker then some { v with toPickerState := v.toPickerState.didCancel } else none
  | .changeEmail flipBefore tap flipAfter =>
    if v.formAccepts then some (v.changeEmail flipBefore tap flipAfter) else none
  | .closeAlert => if v.showAlert then some { v with toAlertState := v.closeAlert } else none
  | .snapshot none => some v
  | .snapshot (some data) => some { v with passedUser := some (User.ofData data) }
  | .rebuilt => some { v with passedUser := none }

end UserProfileView

end ToDoList
