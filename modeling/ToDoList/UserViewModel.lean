import ToDoList.Services

/-!
# View Models/UserViewModel.swift: the update operations
-/

namespace ToDoList

namespace UserViewModel

/-! ## updateEmail -/

/-- `signOut` may throw; the error is printed. -/
def emailUpdated : Option FBError → Callbacks
  | some error => .complete (.error (some error)) .done
  | none => .call .signOut fun _ => .done

-- `currentUser?.updateEmail` does nothing when nobody is signed in
def currentUserRead (info : UserEmailUpdate) : Option Uid → Callbacks
  | none => .done
  | some currentUser => .call (.updateEmail currentUser info.email) emailUpdated

def emailWritten (info : UserEmailUpdate) : Option FBError → Callbacks
  | some error => .complete (.error (some error)) .done
  | none => .call .currentUser (currentUserRead info)

def updateEmail (info : UserEmailUpdate) : Callbacks :=
  let user : UserEmailUpdate := { id := info.id, email := info.email }
  match FB.userDocument user.id with
  | none => .trap .invalidDocumentPath
  | some docRef => .call (.setData docRef user.convertEmailUpdateToDictionary true) (emailWritten info)

/-! ## updateUserInfoWithImage -/

def infoWritten : Option FBError → Callbacks
  | some error => .complete (.result false (some error)) .done
  | none => .complete (.result true none) .done

-- #3 UPDATE USER DOCUMENT
def urlDownloaded (info : UserInfoWithImage) : Except FBError (Option String) → Callbacks
  | .error error => .complete (.result false (some error)) .done
  | .ok none => .done
  | .ok (some profileImgUrl) =>
    let user : UserInfoWithImage := {
      id := info.id, username := info.username, fullname := info.fullname, profileImgUrl := profileImgUrl,
      newprofileImg := none }
    match FB.userDocument info.id with
    | none => .trap .invalidDocumentPath
    | some docRef => .call (.setData docRef user.convertUserInfoToDictionary true) infoWritten

-- #2 DOWNLOAD IMAGE URL STRING
def imageUploaded (info : UserInfoWithImage) : Except FBError String → Callbacks
  | .error error => .complete (.result false (some error)) .done
  | .ok _ => .call (.downloadURL (FB.image info.id)) (urlDownloaded info)

-- #1 UPLOAD IMAGE
def updateUserInfoWithImage (info : UserInfoWithImage) : Callbacks :=
  match info.newprofileImg with
  | none => .trap .nilUnwrap
  | some newprofileImg =>
    match newprofileImg.jpegData with
    | none => .done
    | some imageData => .call (.putData (FB.image info.id) imageData FB.imageContentType) (imageUploaded info)

/-! ## updateUserInfoNoImage -/

def updateUserInfoNoImage (info : UserInfoNoImage) : Callbacks :=
  let user : UserInfoNoImage := { id := info.id, username := info.username, fullname := info.fullname }
  match FB.userDocument info.id with
  | none => .trap .invalidDocumentPath
  | some docRef => .call (.setData docRef user.convertUserInfoToDictionary true) infoWritten

end UserViewModel

end ToDoList
