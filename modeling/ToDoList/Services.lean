import ToDoList.Async.Chain
import ToDoList.User

/-!
# Login, password reset and registration

Each closure of the source is a definition of its own, named after the
request it answers. A bare `return` is `.done`: the chain ends and the
completion is not invoked.
-/

namespace ToDoList

/-- What the completion of a caller is given: `(Error?)` or `(Bool, Error?)`. -/
inductive Completion
  | error (error : Option FBError)
  | result (result : Bool) (error : Option FBError)
  deriving DecidableEq

inductive Trap
  | nilUnwrap
  | invalidDocumentPath
  deriving DecidableEq

abbrev Callbacks := Async.Chain Request.Answer Completion Trap

/-! ## Service/LoginService.swift -/

structure LoginInfo where
  email : String
  password : String
  deriving DecidableEq

namespace LoginService

def signedIn : Except FBError (Option Uid) → Callbacks
  | .error error => .complete (.error (some error)) .done
  | .ok _ => .done

def logUserIn (info : LoginInfo) : Callbacks :=
  .call (.signIn info.email info.password) signedIn

end LoginService

/-! ## Service/ResetPasswordService.swift -/

structure ResetPasswordInfo where
  email : String
  deriving DecidableEq

namespace ResetPasswordService

def resetSent : Option FBError → Callbacks
  | some error => .complete (.result false (some error)) .done
  | none => .complete (.result true none) .done

def resetPassword (info : ResetPasswordInfo) : Callbacks :=
  .call (.sendPasswordReset info.email) resetSent

end ResetPasswordService

/-! ## Service/RegistrationService.swift -/

structure RegistrationInfo where
  username : String
  fullname : String
  email : String
  password : String
  profileImgUrl : UIImage
  deriving DecidableEq

namespace RegistrationService

/-- `setData(data, completion: completion)` hands the error on as it is. -/
def documentCreated (error : Option FBError) : Callbacks := .complete (.error error) .done

-- #4 CREATE USER DOCUMENT WITH INFO
def createDocument (info : RegistrationInfo) (newUser : Uid) (profileImgUrl : String) : Callbacks :=
  let user : User := {
    id := newUser.1, username := info.username, fullname := info.fullname, email := info.email,
    profileImgUrl := profileImgUrl }
  match FB.userDocument user.id with
  | none => .trap .invalidDocumentPath
  | some docRef => .call (.setData docRef user.convertModelToDictionary false) documentCreated

def urlDownloaded (info : RegistrationInfo) (newUser : Uid) : Except FBError (Option String) → Callbacks
  | .error error => .complete (.error (some error)) .done
  | .ok none => .done
  | .ok (some profileImgUrl) => createDocument info newUser profileImgUrl

-- #3 DOWNLOAD THE PROFILE IMG URL STRING
def imageUploaded (info : RegistrationInfo) (newUser : Uid) : Except FBError String → Callbacks
  | .error error => .complete (.error (some error)) .done
  | .ok _ => .call (.downloadURL (FB.image newUser.1)) (urlDownloaded info newUser)

-- #2 UPLOAD PROFILE IMAGE
def userCreated (info : RegistrationInfo) : Except FBError (Option Uid) → Callbacks
  | .error error => .complete (.error (some error)) .done
  | .ok none => .done
  | .ok (some newUser) =>
    match info.profileImgUrl.jpegData with
    | none => .done
    | some imageData =>
      .call (.putData (FB.image newUser.1) imageData FB.imageContentType) (imageUploaded info newUser)

-- #1 REGISTER USER
def createUser (info : RegistrationInfo) : Callbacks :=
  .call (.createUser info.email info.password) (userCreated info)

def newDocument (info : RegistrationInfo) (newUser : Uid) (profileImgUrl : String) : Document :=
  User.convertModelToDictionary {
    id := newUser.1, username := info.username, fullname := info.fullname, email := info.email,
    profileImgUrl := profileImgUrl }

theorem createDocument_eq (info : RegistrationInfo) (newUser : Uid) (profileImgUrl : String) :
    createDocument info newUser profileImgUrl =
      .call (.setData [FB.userCollection, newUser.1] (newDocument info newUser profileImgUrl) false)
        documentCreated := by
  unfold createDocument
  simp only [FB.userDocument_uid]
  rfl

end RegistrationService

end ToDoList
