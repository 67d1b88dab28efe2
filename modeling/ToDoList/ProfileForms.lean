import ToDoList.Async.Versions
import ToDoList.DocumentIdentity
import ToDoList.Form
import ToDoList.Reports

/-!
# Profile forms of several clients on one document

Any number of clients open profile forms for the same account. A form copies
its texts from a snapshot, and its submit writes every text field that the
operation names, edited or not. Each copy is kept with the version of the
document it was taken from. A client's snapshots show its own writes before
they are answered, also those that will be refused.
-/

namespace ToDoList

open Async

inductive TextField
  | fullname
  | email
  | username
  deriving DecidableEq

/-- `own` says that the snapshot had the text from a pending write of its client. -/
structure Copied where
  version : Nat := 0
  own : Bool := false
  value : String := ""
  deriving DecidableEq

/-- `passedUser` was decoded from the version with the pending writes `own` over it. -/
structure ProfileForm where
  view : UserProfileView := {}
  version : Nat := 0
  own : List Document := []
  loaded : TextField → Copied := fun _ => {}

structure Submission where
  client : Client
  form : Nat
  submitted : Submitted
  loaded : TextField → Copied

/-- `document` has every version of the document of the account. -/
structure Profiles where
  fb : Firebase
  document : Versions (Option Document)
  forms : Client → Nat → ProfileForm

inductive ProfileEvent
  | snapshot (c : Client) (n : Nat) (version : Nat) (own : List Document)
  | form (c : Client) (n : Nat) (e : UserProfileView.Event)
  | session (c : Client) (user : Option Uid)

/-! ## Text fields -/

namespace TextField

def key : TextField → String
  | fullname => FB.userFullname
  | email => FB.userEmail
  | username => FB.userUsername

def text (v : UserProfileView) : TextField → String
  | fullname => v.fullname
  | email => v.email
  | username => v.username

def ofUser (user : User) : TextField → String
  | fullname => user.fullname
  | email => user.email
  | username => user.username

def pendingIn (own : List Document) (f : TextField) : Bool := own.any fun data => (data f.key).isSome

theorem ofUser_ofData (data : Document) (f : TextField) : f.ofUser (User.ofData data) = data.string f.key := by
  cases f <;> rfl

end TextField

def UserProfileView.Event.appears : UserProfileView.Event → Option TextField
  | fullnameAppears => some .fullname
  | emailAppears => some .email
  | usernameAppears => some .username
  | _ => none

def Op.text : Op → TextField → Option String
  | updateEmail info, .email => some info.email
  | updateUserInfoWithImage info, .fullname => some info.fullname
  | updateUserInfoWithImage info, .username => some info.username
  | updateUserInfoNoImage info, .fullname => some info.fullname
  | updateUserInfoNoImage info, .username => some info.username
  | _, _ => none

/-! ## Steps -/

/-- A document with pending writes over it. -/
def shown (document : Option Document) (own : List Document) : Option Document :=
  own.foldl (fun document data => some ((document.getD Dict.empty).merge data)) document

namespace ProfileForm

def receive (f : ProfileForm) (version : Nat) (own : List Document) : Option Document → ProfileForm
  | none => f
  | some data =>
    { f with view := { f.view with passedUser := some (User.ofData data) }, version := version, own := own }

def moved (f : ProfileForm) (e : UserProfileView.Event) (view : UserProfileView) : ProfileForm :=
  match e.appears with
  | none => { f with view := view }
  | some field =>
    { f with
      view := view
      loaded := Function.update f.loaded field ⟨f.version, field.pendingIn f.own, field.text view⟩ }

def event (f : ProfileForm) : UserProfileView.Event → Option ProfileForm
  | .snapshot _ => none
  | e => (f.view.event e).map (f.moved e)

theorem event_eq (f : ProfileForm) {e : UserProfileView.Event} (he : ∀ data, e ≠ .snapshot data) :
    f.event e = (f.view.event e).map (f.moved e) := by
  cases e with
  | snapshot data => exact absurd rfl (he data)
  | _ => rfl

end ProfileForm

namespace Profiles

def setForm (s : Profiles) (c : Client) (n : Nat) (f : ProfileForm) : Profiles :=
  { s with forms := Function.update s.forms c (Function.update (s.forms c) n f) }

def moveView (s : Profiles) (c : Client) (n : Nat) (view : UserProfileView) : Profiles :=
  s.setForm c n { s.forms c n with view := view }

def ambient (s : Profiles) : ProfileEvent → Option Profiles
  | .snapshot c n version own =>
    match s.document.read version with
    | none => none
    | some document => some (s.setForm c n ((s.forms c n).receive version own (shown document own)))
  | .form c n e => ((s.forms c n).event e).map (s.setForm c n)
  | .session c user => some { s with fb := s.fb.setSession c user }

end Profiles

def profiles (uid : Uid) : Machine Profiles Submission Request.Answer Completion Trap ProfileEvent where
  body sub := sub.submitted.body
  launch s sub s' :=
    sub.loaded = (s.forms sub.client sub.form).loaded ∧
      ∃ view, profileForm.machine.launch (s.forms sub.client sub.form).view sub.submitted view ∧
        s' = s.moveView sub.client sub.form view
  serve s sub q a s' :=
    ∃ fb, s.fb.serve sub.client q a = some fb ∧
      s' = { s with fb := fb, document := s.document.push (fb.userDocument uid) }
  deliver s sub completion s' :=
    ∃ view, profileForm.machine.deliver (s.forms sub.client sub.form).view sub.submitted completion view ∧
      s' = s.moveView sub.client sub.form view
  env s e s' := s.ambient e = some s'

abbrev ProfileTask := Task Submission Request.Answer Completion Trap

abbrev ProfileRun := Pool Profiles Submission Request.Answer Completion Trap

abbrev ProfileHappening := Event Submission Request.Answer Completion ProfileEvent

/-- The writes that a snapshot shows are writes of the document that calls of its
client wait for. -/
def ShowsPending (uid : Uid) (p : ProfileRun) : ProfileHappening → ProfileRun → Prop
  | .env (.snapshot c _ _ own), _ => ∀ data ∈ own, ∃ t ∈ p.tasks, t.tag.client = c ∧
      ∃ docRef merge, FB.userDocument uid.1 = some docRef ∧ t.chain.awaits = some (.setData docRef data merge)
  | _, _ => True

/-- `data` has the id, the texts of `op`, perhaps an image URL, and no more. -/
structure Op.Writes (op : Op) (id : String) (data : Document) : Prop where
  id : data FB.userId = some (.string id)
  text : ∀ f text, op.text f = some text → data f.key = some (.string text)
  only : ∀ key value, data key = some value →
    key = FB.userId ∨ (key = FB.userProfileImgUrl ∧ ∃ info, op = .updateUserInfoWithImage info) ∨
      ∃ f text, key = TextField.key f ∧ op.text f = some text

theorem writes_email (info : UserEmailUpdate) :
    (Op.updateEmail info).Writes info.id info.convertEmailUpdateToDictionary where
  id := rfl
  text := by
    intro f text h
    cases f <;> cases h
    rfl
  only := by
    intro key value h
    have hmem := Dict.mem_of_ofList h
    simp only [List.mem_cons, Prod.mk.injEq, List.not_mem_nil, or_false] at hmem
    rcases hmem with ⟨hk, _⟩ | ⟨hk, _⟩
    · exact .inl hk
    · exact .inr (.inr ⟨.email, info.email, hk, rfl⟩)

theorem writes_image (info : UserInfoWithImage) (url : String) :
    (Op.updateUserInfoWithImage info).Writes info.id
      (UserInfoWithImage.convertUserInfoToDictionary ⟨info.id, info.username, info.fullname, url, none⟩) where
  id := rfl
  text := by
    intro f text h
    cases f <;> cases h <;> rfl
  only := by
    intro key value h
    have hmem := Dict.mem_of_ofList h
    simp only [List.mem_cons, Prod.mk.injEq, List.not_mem_nil, or_false] at hmem
    rcases hmem with ⟨hk, _⟩ | ⟨hk, _⟩ | ⟨hk, _⟩ | ⟨hk, _⟩
    · exact .inl hk
    · exact .inr (.inr ⟨.username, info.username, hk, rfl⟩)
    · exact .inr (.inr ⟨.fullname, info.fullname, hk, rfl⟩)
    · exact .inr (.inl ⟨hk, info, rfl⟩)

theorem writes_info (info : UserInfoNoImage) :
    (Op.updateUserInfoNoImage info).Writes info.id info.convertUserInfoToDictionary where
  id := rfl
  text := by
    intro f text h
    cases f <;> cases h <;> rfl
  only := by
    intro key value h
    have hmem := Dict.mem_of_ofList h
    simp only [List.mem_cons, Prod.mk.injEq, List.not_mem_nil, or_false] at hmem
    rcases hmem with ⟨hk, _⟩ | ⟨hk, _⟩ | ⟨hk, _⟩
    · exact .inl hk
    · exact .inr (.inr ⟨.username, info.username, hk, rfl⟩)
    · exact .inr (.inr ⟨.fullname, info.fullname, hk, rfl⟩)

theorem At.profileWrite {op : Op} {docRef : Segments} {data : Document} {merge : Bool}
    {k : Option FBError → Callbacks} (hat : At op (.call (.setData docRef data merge) k)) (hop : profileOps op) :
    merge = true ∧ ∃ id, op.infoId = some id ∧ FB.userDocument id = some docRef ∧ op.Writes id data := by
  cases hat with
  | registerWrite info newUser url => cases hop
  | emailWrite info docRef h => exact ⟨rfl, info.id, rfl, h, writes_email info⟩
  | imageWrite info docRef url h => exact ⟨rfl, info.id, rfl, h, writes_image info url⟩
  | infoWrite info docRef h => exact ⟨rfl, info.id, rfl, h, writes_info info⟩

/-! ## What moves a view -/

theorem event_passedUser {v v' : UserProfileView} {e : UserProfileView.Event} (h : v.event e = some v')
    (he : ∀ data, e ≠ .snapshot data) : v'.passedUser = v.passedUser ∨ v'.passedUser = none := by
  cases e with
  | snapshot data => exact absurd rfl (he data)
  | rebuilt => cases h; exact .inr rfl
  | fullnameAppears => cases h; exact .inl rfl
  | emailAppears => cases h; exact .inl rfl
  | usernameAppears => cases h; exact .inl rfl
  | changeEmail flipBefore tap flipAfter =>
    simp only [UserProfileView.event] at h
    split at h
    · cases h; exact .inl (changeEmail_frame v flipBefore tap flipAfter).2.2
    · cases h
  | _ =>
    simp only [UserProfileView.event] at h
    split at h
    · cases h; exact .inl rfl
    · cases h

theorem event_appears {v v' : UserProfileView} {e : UserProfileView.Event} {f : TextField} (h : v.event e = some v')
    (hf : e.appears = some f) : f.text v' = (v.passedUser.map f.ofUser).getD "" ∧ v'.passedUser = v.passedUser := by
  cases e with
  | fullnameAppears => cases h; cases hf; exact ⟨rfl, rfl⟩
  | emailAppears => cases h; cases hf; exact ⟨rfl, rfl⟩
  | usernameAppears => cases h; cases hf; exact ⟨rfl, rfl⟩
  | _ => cases hf

/-! ## The invariant -/

def fieldAt (key : String) (document : Option Document) : Option Value := document.bind fun data => data key

/-- A text that is not empty was stored in the version it was copied from, or was
the client's own. -/
def Copied.From (copied : Copied) (f : TextField) (document : Versions (Option Document)) : Prop :=
  copied.value ≠ "" → copied.own = true ∨ ∃ doc, document.read copied.version = some doc ∧
    fieldAt f.key doc = some (.string copied.value)

/-- `data` is what a client shows of the version with its writes `own`. -/
structure ShownAt (uid : Uid) (document : Versions (Option Document)) (version : Nat) (own : List Document)
    (data : Document) : Prop where
  id : data FB.userId = some (.string uid.1)
  now : document.now ≠ none
  field : ∀ f, TextField.pendingIn own f = true ∨ ∃ doc, document.read version = some doc ∧
    fieldAt f.key doc = data f.key

structure ProfileForm.CopiedFrom (form : ProfileForm) (uid : Uid) (document : Versions (Option Document)) :
    Prop where
  user : ∀ user, form.view.passedUser = some user →
    ∃ data, user = User.ofData data ∧ ShownAt uid document form.version form.own data
  loaded : ∀ f, (form.loaded f).From f document

structure Profiles.Consistent (uid : Uid) (s : Profiles) : Prop where
  now : s.document.now = s.fb.userDocument uid
  id : ∀ data, some data ∈ s.document.all → data FB.userId = some (.string uid.1)
  kept : ∀ data, some data ∈ s.document.all → s.document.now ≠ none
  forms : ∀ c n, (s.forms c n).CopiedFrom uid s.document

structure Op.For (op : Op) (uid : Uid) : Prop where
  owns : profileOps op
  id : op.infoId = some uid.1
  text : ∀ f text, op.text f = some text → text ≠ ""

structure SubmissionOk (uid : Uid) (s : Profiles) (t : ProfileTask) : Prop where
  within : t.tag.submitted.body.Leads t.chain
  loaded : ∀ f, (t.tag.loaded f).From f s.document
  request : ∀ op, t.tag.submitted = .request op → op.For uid ∧ s.document.now ≠ none

section
variable {document : Versions (Option Document)} {form : ProfileForm} {uid : Uid} {s s' : Profiles}

theorem Copied.From.push {copied : Copied} {f : TextField} (h : copied.From f document) (doc : Option Document) :
    copied.From f (document.push doc) := by
  intro hne
  rcases h hne with hown | ⟨old, hread, hold⟩
  · exact .inl hown
  · exact .inr ⟨old, Versions.read_push hread doc, hold⟩

theorem ProfileForm.CopiedFrom.push (h : form.CopiedFrom uid document) {doc : Option Document}
    (hkept : document.now ≠ none → doc ≠ none) : form.CopiedFrom uid (document.push doc) where
  user := by
    intro user hu
    obtain ⟨data, hdata, hshown⟩ := h.user user hu
    refine ⟨data, hdata, hshown.id, hkept hshown.now, fun f => ?_⟩
    rcases hshown.field f with hown | ⟨old, hread, hold⟩
    · exact .inl hown
    · exact .inr ⟨old, Versions.read_push hread doc, hold⟩
  loaded := fun f => (h.loaded f).push doc

/-! ## What a client shows -/

theorem shown_id {doc : Option Document} {own : List Document} {data : Document}
    (hdoc : ∀ data, doc = some data → data FB.userId = some (.string uid.1))
    (hown : ∀ data ∈ own, data FB.userId = some (.string uid.1)) (h : shown doc own = some data) :
    data FB.userId = some (.string uid.1) := by
  induction own generalizing doc with
  | nil => exact hdoc data h
  | cons first own ih =>
    refine ih ?_ (fun d hd => hown d (List.mem_cons_of_mem _ hd)) h
    intro d hd
    rw [← Option.some.inj hd]
    exact Dict.merge_of_some (hown first List.mem_cons_self)

theorem shown_field {doc : Option Document} {own : List Document} {key : String}
    (hown : ∀ data ∈ own, data key = none) :
    fieldAt key (shown doc own) = fieldAt key doc := by
  induction own generalizing doc with
  | nil => rfl
  | cons first own ih =>
    refine (ih fun d hd => hown d (List.mem_cons_of_mem _ hd)).trans ?_
    show ((doc.getD Dict.empty).merge first) key = fieldAt key doc
    rw [Dict.merge_of_none (hown first List.mem_cons_self)]
    cases doc <;> rfl

theorem ProfileForm.CopiedFrom.receive (h : form.CopiedFrom uid document) {version : Nat} {doc : Option Document}
    {own : List Document} (hread : document.read version = some doc)
    (hdoc : ∀ data, doc = some data → data FB.userId = some (.string uid.1))
    (hown : ∀ data ∈ own, data FB.userId = some (.string uid.1))
    (hnow : ∀ data, shown doc own = some data → document.now ≠ none) :
    (form.receive version own (shown doc own)).CopiedFrom uid document := by
  cases hs : shown doc own with
  | none => exact h
  | some data =>
    refine ⟨fun user hu => ⟨data, (Option.some.inj hu).symm, shown_id hdoc hown hs, hnow data hs, fun f => ?_⟩,
      h.loaded⟩
    by_cases hf : ∀ d ∈ own, d f.key = none
    · refine .inr ⟨doc, hread, ?_⟩
      rw [← shown_field hf, hs]
      rfl
    · left
      simp only [not_forall, exists_prop] at hf
      obtain ⟨d, hd, hne⟩ := hf
      exact List.any_eq_true.mpr ⟨d, hd, Option.isSome_iff_ne_none.mpr hne⟩

theorem ProfileForm.CopiedFrom.copy (h : form.CopiedFrom uid document) (f : TextField) :
    (Copied.mk form.version (f.pendingIn form.own)
    ((form.view.passedUser.map f.ofUser).getD "")).From f document := by
  intro hne
  cases hp : form.view.passedUser with
  | none =>
    rw [hp] at hne
    exact absurd rfl hne
  | some user =>
    obtain ⟨data, rfl, hshown⟩ := h.user user hp
    rw [hp] at hne
    simp only [Option.map_some, Option.getD_some, TextField.ofUser_ofData] at hne ⊢
    rcases hshown.field f with hown | ⟨doc, hread, hfield⟩
    · exact .inl hown
    · refine .inr ⟨doc, hread, hfield.trans ?_⟩
      unfold Document.string at hne ⊢
      split
      · rename_i hs
        exact hs
      · rename_i hs
        split at hne
        · rename_i str hstr
          exact absurd hstr (hs str)
        · exact absurd rfl hne

theorem ProfileForm.CopiedFrom.event {form' : ProfileForm} (h : form.CopiedFrom uid document)
    {e : UserProfileView.Event} (he : form.event e = some form') : form'.CopiedFrom uid document := by
  have hsnap : ∀ data, e ≠ .snapshot data := by
    intro data heq
    subst heq
    cases he
  rw [form.event_eq hsnap] at he
  obtain ⟨view, hv, rfl⟩ := Option.map_eq_some_iff.mp he
  have huser : ∀ user, view.passedUser = some user → form.view.passedUser = some user := by
    intro user hu
    rcases event_passedUser hv hsnap with hp | hp
    · rw [← hp]; exact hu
    · rw [hp] at hu; cases hu
  unfold moved
  cases hf : e.appears with
  | none => exact ⟨fun user hu => h.user user (huser user hu), h.loaded⟩
  | some f =>
    refine ⟨fun user hu => h.user user (huser user hu), fun g => ?_⟩
    show (Function.update form.loaded f _ g).From g document
    by_cases hg : g = f
    · subst hg
      rw [Function.update_self, (event_appears hv hf).1]
      exact h.copy g
    · rw [Function.update_of_ne hg]
      exact h.loaded g

/-! ## A document write -/

theorem SubmissionOk.at {sub : Submission} {q : Request} {k : q.Answer → Callbacks}
    (h : SubmissionOk uid s ⟨sub, .call q k⟩) : ∃ op, sub.submitted = .request op ∧ At op (.call q k) := by
  obtain ⟨c, n, i, loaded⟩ := sub
  cases i with
  | rejected => cases h.within.of_ended rfl
  | request op => exact ⟨op, rfl, At.of_leads h.within⟩
  | trap t => cases h.within.of_ended rfl

theorem SubmissionOk.write (hs : s.Consistent uid) {sub : Submission} {docRef : Segments} {data : Document}
    {merge : Bool}
    {k : Option FBError → Callbacks} (h : SubmissionOk uid s ⟨sub, .call (.setData docRef data merge) k⟩) :
    merge = true ∧ ∃ op before, sub.submitted = .request op ∧ op.Writes uid.1 data ∧ s.document.now = some before ∧
      (s.fb.write docRef (s.fb.written docRef data merge)).userDocument uid = some (before.merge data) := by
  obtain ⟨op, hop, hat⟩ := h.at
  obtain ⟨hfor, hnow⟩ := h.request op hop
  obtain ⟨rfl, id, hid, hdoc, hwrites⟩ := hat.profileWrite hfor.owns
  obtain rfl : uid.1 = id := by rw [hfor.id] at hid; exact Option.some.inj hid
  obtain ⟨before, hbefore⟩ := Option.ne_none_iff_exists'.mp hnow
  refine ⟨rfl, op, before, hop, hwrites, hbefore, ?_⟩
  rw [Firebase.userDocument_write, if_pos hdoc, Firebase.written_merge]
  rw [hs.now, Firebase.userDocument, hdoc, Option.bind_some] at hbefore
  rw [hbefore]
  rfl

theorem SubmissionOk.served (hs : s.Consistent uid) {sub : Submission} {q : Request} {k : q.Answer → Callbacks}
    (h : SubmissionOk uid s ⟨sub, .call q k⟩) {a : q.Answer} {fb : Firebase}
    (ha : s.fb.serve sub.client q a = some fb) :
    fb.userDocument uid = s.document.now ∨
      ∃ op before data, sub.submitted = .request op ∧ op.Writes uid.1 data ∧ s.document.now = some before ∧
        fb.userDocument uid = some (before.merge data) := by
  rcases Firebase.serve_write ha with hsame | ⟨docRef, data, merge, rfl, rfl⟩
  · left
    rw [hs.now, Firebase.userDocument_congr hsame]
  · obtain ⟨_, op, before, hop, hwrites, hbefore, hafter⟩ := h.write hs
    exact .inr ⟨op, before, data, hop, hwrites, hbefore, hafter⟩

/-! ## Every step keeps the invariant -/

theorem Profiles.Consistent.setForm (hs : s.Consistent uid) (c : Client) (n : Nat)
    (hf : form.CopiedFrom uid s.document) : (s.setForm c n form).Consistent uid where
  now := hs.now
  id := hs.id
  kept := hs.kept
  forms := by
    intro c' n'
    show (Function.update s.forms c _ c' n').CopiedFrom uid s.document
    by_cases hc : c' = c
    · subst hc
      rw [Function.update_self]
      by_cases hn : n' = n
      · subst hn
        rw [Function.update_self]
        exact hf
      · rw [Function.update_of_ne hn]
        exact hs.forms c' n'
    · rw [Function.update_of_ne hc]
      exact hs.forms c' n'

theorem Profiles.Consistent.moveView (hs : s.Consistent uid) {c : Client} {n : Nat} {view : UserProfileView}
    (hv : view.passedUser = (s.forms c n).view.passedUser) : (s.moveView c n view).Consistent uid := by
  refine hs.setForm c n ⟨fun user hu => ?_, (hs.forms c n).loaded⟩
  exact (hs.forms c n).user user (hv.symm.trans hu)

/-- What a snapshot shows of the account's own pending writes. -/
theorem Profiles.Consistent.pending (hs : s.Consistent uid) {ts : List ProfileTask}
    (ht : ∀ t ∈ ts, SubmissionOk uid s t) {c : Client} {own : List Document}
    (hown : ∀ data ∈ own, ∃ t ∈ ts, t.tag.client = c ∧
      ∃ docRef merge, FB.userDocument uid.1 = some docRef ∧ t.chain.awaits = some (.setData docRef data merge))
    {data : Document} (hd : data ∈ own) : data FB.userId = some (.string uid.1) ∧ s.document.now ≠ none := by
  obtain ⟨⟨sub, chain⟩, hmem, _, docRef, merge, _, haw⟩ := hown data hd
  cases chain with
  | call q k =>
    cases haw
    obtain ⟨_, op, before, _, hwrites, hbefore, _⟩ := (ht _ hmem).write hs
    exact ⟨hwrites.id, by rw [hbefore]; exact Option.some_ne_none before⟩
  | _ => cases haw

theorem Profiles.Consistent.ambient (hs : s.Consistent uid) {e : ProfileEvent} {ts : List ProfileTask}
    (ht : ∀ t ∈ ts, SubmissionOk uid s t) (hown : ShowsPending uid ⟨s, ts⟩ (.env e) ⟨s', ts⟩)
    (he : s.ambient e = some s') : s'.Consistent uid ∧ s'.document = s.document := by
  cases e with
  | snapshot c n version own =>
    simp only [Profiles.ambient] at he
    split at he
    · cases he
    · rename_i doc hread
      cases he
      have hdoc : ∀ data, doc = some data → some data ∈ s.document.all :=
        fun data hd => hd ▸ Versions.mem_of_read hread
      refine ⟨hs.setForm c n ((hs.forms c n).receive hread (fun data hd => hs.id data (hdoc data hd))
        (fun data hd => (hs.pending ht hown hd).1) fun data hd => ?_), rfl⟩
      cases own with
      | nil => exact hs.kept data (hdoc data hd)
      | cons first own => exact (hs.pending ht hown List.mem_cons_self).2
  | form c n e =>
    obtain ⟨form', hf, rfl⟩ := Option.map_eq_some_iff.mp he
    exact ⟨hs.setForm c n ((hs.forms c n).event hf), rfl⟩
  | session c user =>
    cases he
    exact ⟨⟨hs.now, hs.id, hs.kept, hs.forms⟩, rfl⟩

theorem Profiles.Consistent.request (hs : s.Consistent uid) {c : Client} {n : Nat} {view : UserProfileView}
    {op : Op}
    (hu : (s.forms c n).view.update = (view, .request op)) : op.For uid ∧ s.document.now ≠ none := by
  have hid : ∀ user, (s.forms c n).view.passedUser = some user → user.id = uid.1 ∧ s.document.now ≠ none := by
    intro user hp
    obtain ⟨data, rfl, hshown⟩ := (hs.forms c n).user user hp
    refine ⟨?_, hshown.now⟩
    simp [User.ofData, Document.string, hshown.id]
  rcases update_cases hu with ⟨hi, _, _⟩ | ⟨husername, hfullname, hemail, _, ⟨hi, _⟩ | ⟨user, hp, hi⟩⟩
  · cases hi
  · cases hi
  · obtain ⟨hiduser, hnow⟩ := hid user hp
    refine ⟨?_, hnow⟩
    rcases hi with hi | ⟨_, hi⟩ | hi
    · cases hi
      refine ⟨trivial, congrArg some hiduser, fun f text ht => ?_⟩
      cases f <;> cases ht
      exact hemail
    · cases hi
      refine ⟨trivial, congrArg some hiduser, fun f text ht => ?_⟩
      cases f <;> cases ht
      · exact hfullname
      · exact husername
    · cases hi
      refine ⟨trivial, congrArg some hiduser, fun f text ht => ?_⟩
      cases f <;> cases ht
      · exact hfullname
      · exact husername

end

/-! ## What a submission changes -/

end ToDoList
