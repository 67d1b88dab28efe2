import ToDoList.UserViewModel

/-!
# The operations and the points their chains get to

`At op c` lists every point `c` of the code of `op`: the requests it waits
for with what their closures have captured, and its ways to end.
-/

namespace ToDoList

open Async

inductive Op
  | logUserIn (info : LoginInfo)
  | resetPassword (info : ResetPasswordInfo)
  | createUser (info : RegistrationInfo)
  | updateEmail (info : UserEmailUpdate)
  | updateUserInfoWithImage (info : UserInfoWithImage)
  | updateUserInfoNoImage (info : UserInfoNoImage)
  deriving DecidableEq

namespace Op

def body : Op → Callbacks
  | logUserIn info => LoginService.logUserIn info
  | resetPassword info => ResetPasswordService.resetPassword info
  | createUser info => RegistrationService.createUser info
  | updateEmail info => UserViewModel.updateEmail info
  | updateUserInfoWithImage info => UserViewModel.updateUserInfoWithImage info
  | updateUserInfoNoImage info => UserViewModel.updateUserInfoNoImage info

/-- How the operation reports an error. -/
def failure : Op → FBError → Completion
  | logUserIn _, error => .error (some error)
  | resetPassword _, error => .result false (some error)
  | createUser _, error => .error (some error)
  | updateEmail _, error => .error (some error)
  | updateUserInfoWithImage _, error => .result false (some error)
  | updateUserInfoNoImage _, error => .result false (some error)

def infoId : Op → Option String
  | updateEmail info => some info.id
  | updateUserInfoWithImage info => some info.id
  | updateUserInfoNoImage info => some info.id
  | _ => none

end Op

inductive At : Op → Callbacks → Prop
  | done (op) : At op .done
  | badPath (op id) : op.infoId = some id → FB.userDocument id = none → At op (.trap .invalidDocumentPath)
  | noImage (info) : info.newprofileImg = none → At (.updateUserInfoWithImage info) (.trap .nilUnwrap)
  | fail (op e) : At op (.complete (op.failure e) .done)
  | signIn (info) : At (.logUserIn info) (.call (.signIn info.email info.password) LoginService.signedIn)
  | reset (info) : At (.resetPassword info) (.call (.sendPasswordReset info.email) ResetPasswordService.resetSent)
  | resetDone (info) : At (.resetPassword info) (.complete (.result true none) .done)
  | register (info) : At (.createUser info)
      (.call (.createUser info.email info.password) (RegistrationService.userCreated info))
  | registerImage (info newUser data) : info.profileImgUrl.jpegData = some data → At (.createUser info)
      (.call (.putData (FB.image newUser.1) data FB.imageContentType)
      (RegistrationService.imageUploaded info newUser))
  | registerUrl (info newUser) : At (.createUser info)
      (.call (.downloadURL (FB.image newUser.1)) (RegistrationService.urlDownloaded info newUser))
  | registerWrite (info newUser url) : At (.createUser info)
      (.call (.setData [FB.userCollection, newUser.1] (RegistrationService.newDocument info newUser url) false)
        RegistrationService.documentCreated)
  | registerDone (info) : At (.createUser info) (.complete (.error none) .done)
  | emailWrite (info docRef) : FB.userDocument info.id = some docRef → At (.updateEmail info)
      (.call (.setData docRef info.convertEmailUpdateToDictionary true) (UserViewModel.emailWritten info))
  | emailUser (info docRef) : FB.userDocument info.id = some docRef → At (.updateEmail info)
      (.call .currentUser (UserViewModel.currentUserRead info))
  | emailUpdate (info docRef user) : FB.userDocument info.id = some docRef → At (.updateEmail info)
      (.call (.updateEmail user info.email) UserViewModel.emailUpdated)
  | emailSignOut (info) : At (.updateEmail info) (.call .signOut fun _ => .done)
  | imageUpload (info img data) : info.newprofileImg = some img → img.jpegData = some data →
      At (.updateUserInfoWithImage info)
        (.call (.putData (FB.image info.id) data FB.imageContentType) (UserViewModel.imageUploaded info))
  | imageUrl (info) : At (.updateUserInfoWithImage info)
      (.call (.downloadURL (FB.image info.id)) (UserViewModel.urlDownloaded info))
  | imageWrite (info docRef url) : FB.userDocument info.id = some docRef → At (.updateUserInfoWithImage info)
      (.call (.setData docRef
        (UserInfoWithImage.convertUserInfoToDictionary ⟨info.id, info.username, info.fullname, url, none⟩) true)
        UserViewModel.infoWritten)
  | imageDone (info) : At (.updateUserInfoWithImage info) (.complete (.result true none) .done)
  | infoWrite (info docRef) : FB.userDocument info.id = some docRef → At (.updateUserInfoNoImage info)
      (.call (.setData docRef info.convertUserInfoToDictionary true) UserViewModel.infoWritten)
  | infoDone (info) : At (.updateUserInfoNoImage info) (.complete (.result true none) .done)

namespace At

theorem body (op : Op) : At op op.body := by
  cases op with
  | logUserIn info => exact signIn info
  | resetPassword info => exact reset info
  | createUser info => exact register info
  | updateEmail info =>
    simp only [Op.body, UserViewModel.updateEmail]
    split
    · rename_i h; exact badPath _ info.id rfl h
    · rename_i docRef h; exact emailWrite info docRef h
  | updateUserInfoWithImage info =>
    simp only [Op.body, UserViewModel.updateUserInfoWithImage]
    split
    · rename_i h; exact noImage info h
    · rename_i img h
      split
      · exact done _
      · rename_i data hd; exact imageUpload info img data h hd
  | updateUserInfoNoImage info =>
    simp only [Op.body, UserViewModel.updateUserInfoNoImage]
    split
    · rename_i h; exact badPath _ info.id rfl h
    · rename_i docRef h; exact infoWrite info docRef h

theorem answer {op : Op} {q : Request} {k : q.Answer → Callbacks} (h : At op (.call q k)) (a : q.Answer) :
    At op (k a) := by
  cases h with
  | signIn info =>
    cases a with
    | error e => exact fail _ e
    | ok user => exact done _
  | reset info =>
    cases a with
    | some e => exact fail _ e
    | none => exact resetDone info
  | register info =>
    cases a using answer_cases with
    | error e => exact fail _ e
    | nil => exact done _
    | value newUser =>
      simp only [RegistrationService.userCreated]
      split
      · exact done _
      · rename_i data hd; exact registerImage info newUser data hd
  | registerImage info newUser data hd =>
    cases a with
    | error e => exact fail _ e
    | ok url => exact registerUrl info newUser
  | registerUrl info newUser =>
    cases a using answer_cases with
    | error e => exact fail _ e
    | nil => exact done _
    | value url =>
      simp only [RegistrationService.urlDownloaded, RegistrationService.createDocument_eq]
      exact registerWrite info newUser url
  | registerWrite info newUser url =>
    cases a with
    | some e => exact fail (.createUser info) e
    | none => exact registerDone info
  | emailWrite info docRef h =>
    cases a with
    | some e => exact fail _ e
    | none => exact emailUser info docRef h
  | emailUser info docRef h =>
    cases a with
    | none => exact done _
    | some user => exact emailUpdate info docRef user h
  | emailUpdate info docRef user h =>
    cases a with
    | some e => exact fail _ e
    | none => exact emailSignOut info
  | emailSignOut info => exact done _
  | imageUpload info img data h hd =>
    cases a with
    | error e => exact fail _ e
    | ok url => exact imageUrl info
  | imageUrl info =>
    cases a using answer_cases with
    | error e => exact fail _ e
    | nil => exact done _
    | value url =>
      simp only [UserViewModel.urlDownloaded]
      split
      · rename_i h; exact badPath _ info.id rfl h
      · rename_i docRef h; exact imageWrite info docRef url h
  | imageWrite info docRef url h =>
    cases a with
    | some e => exact fail _ e
    | none => exact imageDone info
  | infoWrite info docRef h =>
    cases a with
    | some e => exact fail _ e
    | none => exact infoDone info

theorem report {op : Op} {r : Completion} {k : Callbacks} (h : At op (.complete r k)) : k = .done := by
  cases h <;> rfl

theorem of_leads {op : Op} {c : Callbacks} (h : op.body.Leads c) : At op c :=
  h.keep (fun _ _ hk a => hk.answer a) (fun _ _ hk => by rw [hk.report]; exact done op) (body op)

end At

end ToDoList
