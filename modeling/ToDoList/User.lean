import ToDoList.Firebase

/-!
# Users, their documents, and the encoders of the update operations

`FB` is the key table shared by the decoder `User.ofData` (the source's
`User.init(data:)`) and the four encoders.
-/

namespace ToDoList

namespace FB

def imageFolder : String := "/profile_images/"
def imageContentType : String := "image/jpg"
def userCollection : String := "users"
def userId : String := "id"
def userUsername : String := "username"
def userFullname : String := "fullname"
def userEmail : String := "email"
def userProfileImgUrl : String := "profileImageUrl"

/-- `USER_COLLECTION_FULL_PATH.document(id)`. -/
def userDocument (id : String) : Option Segments := Firestore.document userCollection id

/-- `IMAGE_PATH.child("\(IMAGE_FOLDER)\(id).jpg")`. -/
def image (id : String) : Segments := Path.segments (imageFolder ++ id ++ ".jpg")

theorem userDocument_uid (uid : Uid) : userDocument uid.1 = some [userCollection, uid.1] :=
  Firestore.document_segment (by decide) uid.2

theorem image_uid (uid : Uid) : image uid.1 = ["profile_images", uid.1 ++ ".jpg"] := by
  have h : imageFolder ++ uid.1 ++ ".jpg" = "/profile_images" ++ "/" ++ (uid.1 ++ ".jpg") := by
    rw [← String.append_assoc]; rfl
  have hs : Path.segments "/profile_images" = ["profile_images"] := by decide
  unfold image
  rw [h, Path.segments_append_slash, hs, Path.segments_of_segment (uid.2.append (by decide))]
  rfl

theorem userDocument_inj {u v : Uid} (h : userDocument u.1 = userDocument v.1) : u = v := by
  rw [userDocument_uid, userDocument_uid] at h
  simpa [Subtype.ext_iff] using h

theorem image_inj {u v : Uid} (h : image u.1 = image v.1) : u = v := by
  rw [image_uid, image_uid] at h
  simpa [Subtype.ext_iff] using h

end FB

/-! ## Models/User.swift -/

structure User where
  id : String
  username : String
  fullname : String
  email : String
  profileImgUrl : String
  deriving DecidableEq

namespace User

def ofData (data : Document) : User where
  id := data.string FB.userId
  username := data.string FB.userUsername
  fullname := data.string FB.userFullname
  email := data.string FB.userEmail
  profileImgUrl := data.string FB.userProfileImgUrl

def convertModelToDictionary (user : User) : Document :=
  Dict.ofList [
    (FB.userId, .string user.id),
    (FB.userUsername, .string user.username),
    (FB.userFullname, .string user.fullname),
    (FB.userEmail, .string user.email),
    (FB.userProfileImgUrl, .string user.profileImgUrl)]

end User

/-! ## What the update operations are given -/

structure UserInfoWithImage where
  id : String
  username : String
  fullname : String
  profileImgUrl : String
  newprofileImg : Option UIImage
  deriving DecidableEq

def UserInfoWithImage.convertUserInfoToDictionary (user : UserInfoWithImage) : Document :=
  Dict.ofList [
    (FB.userId, .string user.id),
    (FB.userUsername, .string user.username),
    (FB.userFullname, .string user.fullname),
    (FB.userProfileImgUrl, .string user.profileImgUrl)]

structure UserInfoNoImage where
  id : String
  username : String
  fullname : String
  deriving DecidableEq

def UserInfoNoImage.convertUserInfoToDictionary (user : UserInfoNoImage) : Document :=
  Dict.ofList [
    (FB.userId, .string user.id),
    (FB.userUsername, .string user.username),
    (FB.userFullname, .string user.fullname)]

structure UserEmailUpdate where
  id : String
  email : String
  deriving DecidableEq

def UserEmailUpdate.convertEmailUpdateToDictionary (user : UserEmailUpdate) : Document :=
  Dict.ofList [
    (FB.userId, .string user.id),
    (FB.userEmail, .string user.email)]

/-! ## Service/QueryService.swift -/

abbrev Query := Segments → Document → Bool

namespace Firestore

def queryUser (id : String) : Option Segments := document FB.userCollection id

def collection (name : String) : Query := fun path _ => path.length = 2 && path.head? = some name

def whereField (query : Query) (field value : String) : Query :=
  fun path data => query path data && data field = some (.string value)

/-- `none` where `collection("")` raises an exception. -/
def queryUsers (type id : String) : Option Query :=
  if type = "AllUsers" then some (collection FB.userCollection)
  else if type = "CurrentUser" then some (whereField (collection FB.userCollection) FB.userId id)
  else none

end Firestore

def Firebase.userDocument (fb : Firebase) (uid : Uid) : Option Document :=
  (FB.userDocument uid.1).bind fb.documents

theorem Firebase.userDocument_eq (fb : Firebase) (uid : Uid) :
    fb.userDocument uid = fb.documents [FB.userCollection, uid.1] := by
  rw [userDocument, FB.userDocument_uid]; rfl

theorem Firebase.userDocument_congr {fb fb' : Firebase} (h : fb'.documents = fb.documents) (uid : Uid) :
    fb'.userDocument uid = fb.userDocument uid := by
  unfold userDocument
  rw [h]

theorem Firebase.userDocument_write {fb : Firebase} {uid : Uid} {docRef : Segments} {data : Document} :
    (fb.write docRef data).userDocument uid =
      if FB.userDocument uid.1 = some docRef then some data else fb.userDocument uid := by
  rw [userDocument_eq, userDocument_eq, FB.userDocument_uid]
  simp only [write_documents, Option.some.injEq]
  by_cases h : [FB.userCollection, uid.1] = docRef
  · subst h; simp
  · rw [Function.update_of_ne h, if_neg h]

def Firebase.selected (fb : Firebase) (query : Query) (path : Segments) : Prop :=
  ∃ data, fb.documents path = some data ∧ query path data = true

end ToDoList
