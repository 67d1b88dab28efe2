import Mathlib.Logic.Function.Basic
import ToDoList.Dict
import ToDoList.Path

/-!
# The services behind the program

Auth, Firestore and Storage as the program uses them: the requests it makes,
what their callbacks are given, and what each answer says about the state of
the services. Every request takes effect at once when it succeeds and changes
nothing when it reports an error.
-/

namespace ToDoList

abbrev Uid := { uid : String // Path.Segment uid }

abbrev Client := Nat

structure FBError where
  localizedDescription : String
  deriving DecidableEq, Repr

/-- `Any`, as far as `as? String` tells its values apart. -/
inductive Value
  | string (s : String)
  | other (tag : Nat)
  deriving DecidableEq, Repr

abbrev Document := Dict String Value

/-- `data[key] as? String ?? ""`. -/
def Document.string (data : Document) (key : String) : String :=
  match data key with
  | some (.string s) => s
  | _ => ""

abbrev ImageData := List UInt8

/-- An image, by what `jpegData(compressionQuality: 0.3)` makes of it. -/
structure UIImage where
  jpegData : Option ImageData
  deriving DecidableEq

abbrev Segments := List String

/-! ## References -/

namespace Firestore

/-- `collection(name).document(id)`, where the SDK does not raise an exception:
no segment between two slashes is empty, and documents have an even number of
segments. Slashes around the path are dropped. -/
def document (collection id : String) : Option Segments :=
  let path := Path.segments collection ++ Path.segments id
  if Path.DoubleSlash id ∨ path.length % 2 ≠ 0 then none else some path

theorem document_segment {collection id : String} (hc : Path.Segment collection) (hi : Path.Segment id) :
    document collection id = some [collection, id] := by
  simp [document, Path.segments_of_segment hc, Path.segments_of_segment hi, Path.not_doubleSlash hi.2]

end Firestore

/-! ## Requests and what their callbacks are given -/

inductive Request
  | signIn (email password : String)
  | createUser (email password : String)
  | sendPasswordReset (email : String)
  | currentUser
  | updateEmail (user : Uid) (email : String)
  | signOut
  | putData (object : Segments) (data : ImageData) (contentType : String)
  | downloadURL (object : Segments)
  | setData (document : Segments) (data : Document) (merge : Bool)

/-- `.ok` is a result, possibly nil, with a nil error. `putData` names the
download URL that the object it stored is given. -/
@[reducible] def Request.Answer : Request → Type
  | .signIn _ _ => Except FBError (Option Uid)
  | .createUser _ _ => Except FBError (Option Uid)
  | .sendPasswordReset _ => Option FBError
  | .currentUser => Option Uid
  | .updateEmail _ _ => Option FBError
  | .signOut => Option FBError
  | .putData _ _ _ => Except FBError String
  | .downloadURL _ => Except FBError (Option String)
  | .setData _ _ _ => Option FBError

@[elab_as_elim]
theorem answer_cases {α : Type} {motive : Except FBError (Option α) → Prop} (error : ∀ e, motive (.error e))
    (nil : motive (.ok none)) (value : ∀ x, motive (.ok (some x))) (a : Except FBError (Option α)) : motive a := by
  cases a with
  | error e => exact error e
  | ok x =>
    cases x with
    | none => exact nil
    | some x => exact value x

/-! ## The state of the services -/

structure StoredObject where
  data : ImageData
  contentType : String
  url : String
  deriving DecidableEq

structure Firebase where
  emails : Uid → Option String
  session : Client → Option Uid
  documents : Segments → Option Document
  objects : Segments → Option StoredObject
  /-- The download URLs given out so far. -/
  issued : List String

namespace Firebase

def start : Firebase where
  emails := fun _ => none
  session := fun _ => none
  documents := fun _ => none
  objects := fun _ => none
  issued := []

def setEmail (fb : Firebase) (user : Uid) (email : String) : Firebase :=
  { fb with emails := Function.update fb.emails user (some email) }

def setSession (fb : Firebase) (c : Client) (user : Option Uid) : Firebase :=
  { fb with session := Function.update fb.session c user }

def store (fb : Firebase) (object : Segments) (o : StoredObject) : Firebase :=
  { fb with objects := Function.update fb.objects object (some o), issued := o.url :: fb.issued }

def write (fb : Firebase) (document : Segments) (data : Document) : Firebase :=
  { fb with documents := Function.update fb.documents document (some data) }

def written (fb : Firebase) (document : Segments) (data : Document) (merge : Bool) : Document :=
  if merge then ((fb.documents document).getD Dict.empty).merge data else data

section
variable (fb : Firebase) (user : Uid) (email : String) (c : Client) (cur : Option Uid) (p : Segments)
  (o : StoredObject) (data : Document)

@[simp] theorem setEmail_emails :
    (fb.setEmail user email).emails = Function.update fb.emails user (some email) := rfl
@[simp] theorem setEmail_session : (fb.setEmail user email).session = fb.session := rfl
@[simp] theorem setEmail_documents : (fb.setEmail user email).documents = fb.documents := rfl
@[simp] theorem setSession_emails : (fb.setSession c cur).emails = fb.emails := rfl
@[simp] theorem setSession_session : (fb.setSession c cur).session = Function.update fb.session c cur := rfl
@[simp] theorem setSession_documents : (fb.setSession c cur).documents = fb.documents := rfl
@[simp] theorem store_emails : (fb.store p o).emails = fb.emails := rfl
@[simp] theorem store_objects : (fb.store p o).objects = Function.update fb.objects p (some o) := rfl
@[simp] theorem written_replace : fb.written p data false = data := rfl
@[simp] theorem written_merge : fb.written p data true = ((fb.documents p).getD Dict.empty).merge data := rfl
@[simp] theorem write_emails : (fb.write p data).emails = fb.emails := rfl
@[simp] theorem write_documents : (fb.write p data).documents = Function.update fb.documents p (some data) := rfl
@[simp] theorem write_objects : (fb.write p data).objects = fb.objects := rfl

end

/-- The services answer request `q` of client `c` with the given answer, if
the state allows that answer: a new account has a new uid, an object a new
download URL, and a read tells what is there. -/
def serve (fb : Firebase) (c : Client) : (q : Request) → q.Answer → Option Firebase
  | .signIn _ _, answer =>
    match answer with
    | .ok (some user) => if fb.emails user = none then none else some (fb.setSession c (some user))
    | _ => some fb
  | .createUser email _, answer =>
    match answer with
    | .ok (some user) => if fb.emails user = none then some ((fb.setEmail user email).setSession c (some user))
      else none
    | _ => some fb
  | .sendPasswordReset _, _ => some fb
  | .currentUser, user => if user = fb.session c then some fb else none
  | .updateEmail user email, error =>
    match error with
    | none => if fb.emails user = none then none else some (fb.setEmail user email)
    | some _ => some fb
  | .signOut, error =>
    match error with
    | none => some (fb.setSession c none)
    | some _ => some fb
  | .putData object data contentType, answer =>
    match answer with
    | .ok url => if url ∈ fb.issued then none else some (fb.store object ⟨data, contentType, url⟩)
    | .error _ => some fb
  | .downloadURL object, answer =>
    match answer with
    | .ok (some url) => if (fb.objects object).map (·.url) = some url then some fb else none
    | _ => some fb
  | .setData document data merge, error =>
    match error with
    | none => some (fb.write document (fb.written document data merge))
    | some _ => some fb

attribute [local grind =] serve

/-! ## What an answer says -/

variable {fb fb' : Firebase} {c : Client} {q : Request} {a : q.Answer}

theorem serve_createUser {email password : String} {user : Uid}
    (h : fb.serve c (.createUser email password) (.ok (some user)) = some fb') :
    fb.emails user = none ∧ fb' = (fb.setEmail user email).setSession c (some user) := by
  simp only [serve] at h
  split at h
  · rename_i hnew; exact ⟨hnew, (Option.some.inj h).symm⟩
  · cases h

theorem serve_currentUser {user : Option Uid} (h : fb.serve c .currentUser user = some fb') :
    user = fb.session c ∧ fb' = fb := by
  simp only [serve] at h
  split at h
  · rename_i hu; exact ⟨hu, (Option.some.inj h).symm⟩
  · cases h

theorem serve_updateEmail {user : Uid} {email : String} (h : fb.serve c (.updateEmail user email) none = some fb') :
    fb.emails user ≠ none ∧ fb' = fb.setEmail user email := by
  simp only [serve] at h
  split at h
  · cases h
  · rename_i hold; exact ⟨hold, (Option.some.inj h).symm⟩

theorem serve_putData {object : Segments} {data : ImageData} {contentType url : String}
    (h : fb.serve c (.putData object data contentType) (.ok url) = some fb') :
    url ∉ fb.issued ∧ fb' = fb.store object ⟨data, contentType, url⟩ := by
  simp only [serve] at h
  split at h
  · cases h
  · rename_i hurl; exact ⟨hurl, (Option.some.inj h).symm⟩

theorem serve_downloadURL {object : Segments} {url : String}
    (h : fb.serve c (.downloadURL object) (.ok (some url)) = some fb') :
    (fb.objects object).map (·.url) = some url ∧ fb' = fb := by
  simp only [serve] at h
  split at h
  · rename_i hurl; exact ⟨hurl, (Option.some.inj h).symm⟩
  · cases h

/-! ## What a request leaves alone -/

theorem serve_documents (h : fb.serve c q a = some fb') (hq : ∀ d data merge, q ≠ .setData d data merge) :
    fb'.documents = fb.documents := by
  cases q with
  | setData d data merge => exact absurd rfl (hq d data merge)
  | _ =>
    simp only [serve] at h
    repeat' split at h
    all_goals cases h
    all_goals rfl

/-- Only a write moves the documents. -/
theorem serve_write (h : fb.serve c q a = some fb') :
    fb'.documents = fb.documents ∨ ∃ docRef data merge, q = .setData docRef data merge ∧
      fb' = fb.write docRef (fb.written docRef data merge) := by
  cases q with
  | setData docRef data merge =>
    cases a with
    | some error => cases h; exact .inl rfl
    | none => cases h; exact .inr ⟨docRef, data, merge, rfl, rfl⟩
  | _ => exact .inl (serve_documents h (by simp))

theorem serve_emails (h : fb.serve c q a = some fb') (hc : ∀ email password, q ≠ .createUser email password)
    (hu : ∀ user email, q ≠ .updateEmail user email) : fb'.emails = fb.emails := by
  cases q with
  | createUser email password => exact absurd rfl (hc email password)
  | updateEmail user email => exact absurd rfl (hu user email)
  | _ =>
    simp only [serve] at h
    repeat' split at h
    all_goals cases h
    all_goals rfl

theorem serve_objects (h : fb.serve c q a = some fb') (hq : ∀ o data ct, q ≠ .putData o data ct) :
    fb'.objects = fb.objects := by
  cases q with
  | putData o data ct => exact absurd rfl (hq o data ct)
  | _ =>
    simp only [serve] at h
    repeat' split at h
    all_goals cases h
    all_goals rfl

theorem serve_registered (h : fb.serve c q a = some fb') {user : Uid} (hu : fb.emails user ≠ none) :
    fb'.emails user ≠ none := by
  have hset : ∀ (v : Uid) (email : String), Function.update fb.emails v (some email) user ≠ none := by
    intro v email
    by_cases hv : user = v
    · subst hv; simp
    · rw [Function.update_of_ne hv]; exact hu
  cases q with
  | createUser email password =>
    cases a using answer_cases with
    | error e => cases h; exact hu
    | nil => cases h; exact hu
    | value newUser =>
      obtain ⟨_, rfl⟩ := serve_createUser h
      exact hset newUser email
  | updateEmail v email =>
    cases a with
    | some e => cases h; exact hu
    | none =>
      obtain ⟨_, rfl⟩ := serve_updateEmail h
      exact hset v email
  | _ => rw [serve_emails h (by simp) (by simp)]; exact hu

end Firebase

end ToDoList
