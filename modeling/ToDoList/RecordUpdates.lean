import ToDoList.Accounts

/-!
# Document merges as record updates

A user document is decoded to a record of five texts. A profile operation
merges a few keys into the document, which sets the fields of these keys in
the record. The services with all calls in flight are then a store of records
that are created and updated.
-/

namespace ToDoList

open Async

/-! ## Updates -/

inductive Update
  | withImage (info : UserInfoWithImage)
  | noImage (info : UserInfoNoImage)
  | email (info : UserEmailUpdate)
  deriving DecidableEq

namespace Update

def encoded : Update → Document
  | withImage info => info.convertUserInfoToDictionary
  | noImage info => info.convertUserInfoToDictionary
  | email info => info.convertEmailUpdateToDictionary

def id : Update → String
  | withImage info => info.id
  | noImage info => info.id
  | email info => info.id

def IsInfo : Update → Prop
  | email _ => False
  | _ => True

end Update

/-- `setData(update, merge: true)` on the document. -/
def Document.updated (data : Document) (update : Update) : Document := data.merge update.encoded

/-- What an update is for: it sets its own fields. -/
def User.updated (user : User) : Update → User
  | .withImage info =>
    { user with
      id := info.id
      username := info.username
      fullname := info.fullname
      profileImgUrl := info.profileImgUrl }
  | .noImage info => { user with id := info.id, username := info.username, fullname := info.fullname }
  | .email info => { user with id := info.id, email := info.email }

def FB.userKeys : List String := [userId, userUsername, userFullname, userEmail, userProfileImgUrl]

/-! ## A merge and the decoder -/

theorem Document.string_updated (data : Document) (update : Update) (key : String) :
    (data.updated update).string key =
      match update.encoded key with
      | some (.string s) => s
      | some (.other _) => ""
      | none => data.string key := by
  unfold Document.string Document.updated
  cases h : update.encoded key with
  | none => rw [Dict.merge_of_none h]
  | some value =>
    rw [Dict.merge_of_some h]
    cases value <;> rfl

/-- Decoding turns the merge into the record update: the encoder has a key for
each field that the update sets, and no other. -/
theorem User.ofData_updated (data : Document) (update : Update) :
    User.ofData (data.updated update) = (User.ofData data).updated update := by
  unfold User.ofData
  simp only [Document.string_updated]
  cases update with
  | withImage info => rfl
  | noImage info => rfl
  | email info => rfl

theorem User.ofData_convertModelToDictionary (user : User) : User.ofData user.convertModelToDictionary = user := rfl

/-! ## The keys of an update -/

theorem Update.encoded_userKeys {update : Update} {key : String} {value : Value}
    (h : update.encoded key = some value) : key ∈ FB.userKeys := by
  cases update with
  | withImage info =>
    have hsub : ∀ k ∈ [FB.userId, FB.userUsername, FB.userFullname, FB.userProfileImgUrl],
      k ∈ FB.userKeys := by decide
    exact hsub key (Dict.key_of_ofList h)
  | noImage info =>
    have hsub : ∀ k ∈ [FB.userId, FB.userUsername, FB.userFullname], k ∈ FB.userKeys := by decide
    exact hsub key (Dict.key_of_ofList h)
  | email info =>
    have hsub : ∀ k ∈ [FB.userId, FB.userEmail], k ∈ FB.userKeys := by decide
    exact hsub key (Dict.key_of_ofList h)

theorem Document.updated_other {data : Document} {update : Update} {key : String} (h : key ∉ FB.userKeys) :
    data.updated update key = data key := by
  apply Dict.merge_of_none
  cases he : update.encoded key with
  | none => rfl
  | some value => exact absurd (Update.encoded_userKeys he) h

theorem Document.updated_again (data : Document) (update : Update) :
    (data.updated update).updated update = data.updated update :=
  Dict.merge_merge_self data update.encoded

theorem User.updated_again (user : User) (update : Update) :
    (user.updated update).updated update = user.updated update := by
  cases update <;> rfl

/-! ## Commuting updates -/

theorem Update.encoded_agrees {email : UserEmailUpdate} {update : Update} (hinfo : update.IsInfo)
    (hid : update.id = email.id) : Dict.Agrees (Update.email email).encoded update.encoded := by
  intro key v w hv hw
  have hmem := Dict.mem_of_ofList hv
  simp only [List.mem_cons, Prod.mk.injEq, List.not_mem_nil, or_false] at hmem
  rcases hmem with ⟨rfl, rfl⟩ | ⟨rfl, rfl⟩
  · rw [← hid]
    cases update with
    | withImage info => exact Option.some.inj hw
    | noImage info => exact Option.some.inj hw
    | email info => cases hinfo
  · cases update with
    | withImage info => cases hw
    | noImage info => cases hw
    | email info => cases hinfo

theorem Document.updated_comm (data : Document) {email : UserEmailUpdate} {update : Update} (hinfo : update.IsInfo)
    (hid : update.id = email.id) :
    (data.updated (.email email)).updated update = (data.updated update).updated (.email email) :=
  Dict.merge_right_comm (Update.encoded_agrees hinfo hid) data

/-- On records the law follows from documents: every record is decoded from one. -/
theorem User.updated_comm (user : User) {email : UserEmailUpdate} {update : Update} (hinfo : update.IsInfo)
    (hid : update.id = email.id) :
    (user.updated (.email email)).updated update = (user.updated update).updated (.email email) := by
  have h := congrArg User.ofData (user.convertModelToDictionary.updated_comm hinfo hid)
  simp only [User.ofData_updated, User.ofData_convertModelToDictionary] at h
  exact h

/-! ## Documents simulate records -/

theorem updates_other {data : Document} {key : String} (h : key ∉ FB.userKeys) (updates : List Update) :
    updates.foldl Document.updated data key = data key := by
  induction updates generalizing data with
  | nil => rfl
  | cons update updates ih =>
    rw [List.foldl_cons, ih]
    exact Document.updated_other h

/-- Merging any updates into any document is updating the record it decodes to. -/
theorem merges_simulate_updates (data : Document) (user : User) :
    (∀ updates : List Update,
      User.ofData (updates.foldl Document.updated data) = updates.foldl User.updated (User.ofData data)) ∧
    (∀ (updates : List Update) (key : String), key ∉ FB.userKeys →
      updates.foldl Document.updated data key = data key) ∧
    (∀ (email : UserEmailUpdate) (update : Update), update.IsInfo → update.id = email.id →
      (data.updated (.email email)).updated update = (data.updated update).updated (.email email) ∧
      (user.updated (.email email)).updated update = (user.updated update).updated (.email email)) ∧
    (∀ update : Update,
      (data.updated update).updated update = data.updated update ∧
      (user.updated update).updated update = user.updated update) ∧
    User.ofData user.convertModelToDictionary = user := by
  refine ⟨fun updates => ?_, fun updates key hkey => updates_other hkey updates, fun email update hinfo hid => ?_,
    fun update => ⟨data.updated_again update, user.updated_again update⟩, user.ofData_convertModelToDictionary⟩
  · symm
    apply List.foldl_hom User.ofData
    intro data update
    exact (User.ofData_updated data update).symm
  · exact ⟨data.updated_comm hinfo hid, user.updated_comm hinfo hid⟩

def oddDocument : Document := Dict.ofList [("theme", .string "dark"), (FB.userUsername, .other 0)]

theorem merges_simulate_updates_odd :
    [.email annEmail, .withImage annPicture].foldl Document.updated oddDocument "theme" = some (.string "dark") ∧
    (oddDocument.updated (.email annEmail)).updated (.withImage annPicture) =
      (oddDocument.updated (.withImage annPicture)).updated (.email annEmail) :=
  ⟨(merges_simulate_updates oddDocument (User.ofData oddDocument)).2.1 _ _ (by decide),
    ((merges_simulate_updates oddDocument (User.ofData oddDocument)).2.2.1 annEmail (.withImage annPicture)
      trivial rfl).1⟩

/-! ## The services as a store of records -/

inductive RecordEvent
  | create (docRef : Segments) (user : User)
  | update (docRef : Segments) (update : Update)

abbrev Records := Segments → User

def Records.next (r : Records) : RecordEvent → Records
  | .create docRef user => Function.update r docRef user
  | .update docRef update => Function.update r docRef ((r docRef).updated update)

def Firebase.records (fb : Firebase) : Records := fun path => User.ofData ((fb.documents path).getD Dict.empty)

inductive RecordEvent.Of : Op → RecordEvent → Prop
  | create (info) (newUser : Uid) (url) : Of (.createUser info)
      (.create [FB.userCollection, newUser.1] ⟨newUser.1, info.username, info.fullname, info.email, url⟩)
  | email (info docRef) : FB.userDocument info.id = some docRef →
      Of (.updateEmail info) (.update docRef (.email info))
  | withImage (info docRef url) : FB.userDocument info.id = some docRef →
      Of (.updateUserInfoWithImage info)
        (.update docRef (.withImage ⟨info.id, info.username, info.fullname, url, none⟩))
  | noImage (info docRef) : FB.userDocument info.id = some docRef →
      Of (.updateUserInfoNoImage info) (.update docRef (.noImage info))

theorem Firebase.records_write (fb : Firebase) (docRef : Segments) (data : Document) :
    (fb.write docRef data).records = Function.update fb.records docRef (User.ofData data) := by
  funext path
  unfold records
  by_cases h : path = docRef
  · subst h; simp
  · simp [h]

theorem Firebase.records_create (fb : Firebase) (docRef : Segments) (user : User) :
    (fb.write docRef (fb.written docRef user.convertModelToDictionary false)).records =
      fb.records.next (.create docRef user) := by
  rw [records_write, written_replace, User.ofData_convertModelToDictionary]
  rfl

theorem Firebase.records_update (fb : Firebase) (docRef : Segments) (update : Update) :
    (fb.write docRef (fb.written docRef update.encoded true)).records =
      fb.records.next (.update docRef update) := by
  have hmerge : fb.written docRef update.encoded true =
    ((fb.documents docRef).getD Dict.empty : Document).updated update :=
    rfl
  rw [records_write, hmerge, User.ofData_updated]
  rfl

theorem At.recordEvent {op : Op} {docRef : Segments} {data : Document} {merge : Bool}
    {k : Option FBError → Callbacks}
    (hat : At op (.call (.setData docRef data merge) k)) :
    ∃ e, RecordEvent.Of op e ∧ ∀ fb : Firebase,
      (fb.write docRef (fb.written docRef data merge)).records = fb.records.next e := by
  cases hat with
  | registerWrite info newUser url => exact ⟨_, .create info newUser url, fun fb => fb.records_create _ _⟩
  | emailWrite info docRef h => exact ⟨_, .email info docRef h, fun fb => fb.records_update docRef (.email info)⟩
  | imageWrite info docRef url h =>
    exact ⟨_, .withImage info docRef url h, fun fb =>
      fb.records_update docRef (.withImage ⟨info.id, info.username, info.fullname, url, none⟩)⟩
  | infoWrite info docRef h => exact ⟨_, .noImage info docRef h, fun fb => fb.records_update docRef (.noImage info)⟩

section
variable {allowed : World → Call → Prop} {init : World → Prop} {p p' : Clients}

/-- Some operation that has been started makes the event. -/
def Started (p : Clients) (e : RecordEvent) : Prop := ∃ call ∈ p.tasks.map (·.tag), RecordEvent.Of call.op e

theorem records_step {l : Happening} (hr : ((accounts allowed).system init).Reachable p)
    (hs : ((accounts allowed).system init).step p l p') :
    p'.state.fb.records = p.state.fb.records ∨
      ∃ e, Started p e ∧ p'.state.fb.records = p.state.fb.records.next e := by
  cases hs with
  | launch hl =>
    obtain ⟨_, rfl⟩ := hl
    exact .inl rfl
  | deliver hd =>
    cases hd
    exact .inl rfl
  | env he =>
    left
    unfold Firebase.records
    rw [(World.ambient_fb he).2.1]
  | @serve w call q a k w' l r hs =>
    obtain ⟨fb, hs, rfl⟩ := hs
    have hmem : (⟨call, .call q k⟩ : CallTask) ∈ l ++ ⟨call, .call q k⟩ :: r :=
      List.mem_append_right l List.mem_cons_self
    have hat : At call.op (.call q k) := at_of_reachable hr hmem
    rcases Firebase.serve_write hs with hsame | ⟨docRef, data, merge, rfl, rfl⟩
    · left
      unfold Firebase.records
      rw [hsame]
    · obtain ⟨e, he, hnext⟩ := hat.recordEvent
      exact .inr ⟨e, ⟨call, List.mem_map_of_mem hmem, he⟩, hnext w.fb⟩

/-- In every run, with any failures and interleavings, the records move by
creates and updates of the operations started. -/
theorem records_run (hr : ((accounts allowed).system init).Reachable p)
    (h : ((accounts allowed).system init).Steps (fun _ _ _ => True) p p') :
    ∃ events : List RecordEvent, (∀ e ∈ events, Started p' e) ∧
      p'.state.fb.records = events.foldl Records.next p.state.fb.records := by
  have hkeep : ∀ p l p' e, ((accounts allowed).system init).step p l p' → Started p e → Started p' e := by
    intro p l p' e hs he
    obtain ⟨call, hcall, he⟩ := he
    refine ⟨call, ?_, he⟩
    rw [Machine.Step.tags hs]
    exact List.mem_append_left _ hcall
  exact h.events hr (fun _ _ _ hr hs => records_step hr hs) hkeep

end

theorem records_run_ann : ∃ events : List RecordEvent,
    (∀ e ∈ events, Started ⟨⟨Firebase.withAnn, []⟩, [⟨annCall, .done⟩]⟩ e) ∧
      Firebase.withAnn.records = events.foldl Records.next Firebase.start.records := by
  have hr : ((accounts fun _ _ => True).system fun w => w = World.start).Reachable _ :=
    reachable_withAnn trivial rfl
  obtain ⟨⟨w, tasks⟩, ⟨rfl, rfl⟩, hsteps⟩ := hr.steps
  exact records_run (.init ⟨rfl, rfl⟩) hsteps

end ToDoList
