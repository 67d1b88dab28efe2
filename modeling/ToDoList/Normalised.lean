import Mathlib
import ToDoList.EmailAgreement
import ToDoList.ProfileForms

/-!
# Stored usernames and emails

Registration forms lower the username and the email before they submit them,
profile forms submit what is typed. Forms of both kinds, of any number of
clients, run over the same services.
-/

namespace ToDoList

open Async

/-! ## Forms over the services -/

inductive FormId
  | registration (n : Nat)
  | profile (n : Nat)
  deriving DecidableEq

/-- A tap on the submit button of a form, and what it submits. -/
structure Tap where
  client : Client
  form : FormId
  submitted : Submitted

structure Screens where
  world : World
  registrations : Client → Nat → RegistrationView
  profiles : Client → Nat → UserProfileView

/-- `receive` gives a profile form one of the snapshots taken so far. -/
inductive ScreenEvent
  | ambient (e : Ambient)
  | registration (c : Client) (n : Nat) (e : RegistrationView.Event)
  | profile (c : Client) (n : Nat) (e : UserProfileView.Event)
  | receive (c : Client) (n : Nat) (snapshot : Nat)

namespace Screens

def setRegistration (s : Screens) (c : Client) (n : Nat) (v : RegistrationView) : Screens :=
  { s with registrations := Function.update s.registrations c (Function.update (s.registrations c) n v) }

def setProfile (s : Screens) (c : Client) (n : Nat) (v : UserProfileView) : Screens :=
  { s with profiles := Function.update s.profiles c (Function.update (s.profiles c) n v) }

def ambient (s : Screens) : ScreenEvent → Option Screens
  | .ambient e => (s.world.ambient e).map fun w => { s with world := w }
  | .registration c n e => ((s.registrations c n).event e).map (s.setRegistration c n)
  | .profile _ _ (.snapshot (some _)) => none
  | .profile c n e => ((s.profiles c n).event e).map (s.setProfile c n)
  | .receive c n snapshot =>
    match s.world.snapshots[snapshot]? with
    | none => none
    | some (_, data) => ((s.profiles c n).event (.snapshot (some data))).map (s.setProfile c n)

theorem ambient_documents {s s' : Screens} {e : ScreenEvent} (h : s.ambient e = some s') :
    s'.world.fb.documents = s.world.fb.documents := by
  unfold ambient at h
  split at h
  · obtain ⟨w, hw, rfl⟩ := Option.map_eq_some_iff.mp h
    exact (World.ambient_fb hw).2.1
  · obtain ⟨v, _, rfl⟩ := Option.map_eq_some_iff.mp h
    rfl
  · cases h
  · obtain ⟨v, _, rfl⟩ := Option.map_eq_some_iff.mp h
    rfl
  · split at h
    · cases h
    · obtain ⟨v, _, rfl⟩ := Option.map_eq_some_iff.mp h
      rfl

end Screens

def screens (lowercased : String → String) : Machine Screens Tap Request.Answer Completion Trap ScreenEvent where
  body tap := tap.submitted.body
  launch s tap s' :=
    match tap.form with
    | .registration n => ∃ view,
        (registrationForm lowercased).machine.launch (s.registrations tap.client n) tap.submitted view ∧
          s' = s.setRegistration tap.client n view
    | .profile n => ∃ view,
        profileForm.machine.launch (s.profiles tap.client n) tap.submitted view ∧
          s' = s.setProfile tap.client n view
  serve s tap q a s' := ∃ fb, s.world.fb.serve tap.client q a = some fb ∧ s' = { s with world.fb := fb }
  deliver s tap completion s' :=
    match tap.form with
    | .registration n => ∃ view,
        (registrationForm lowercased).machine.deliver (s.registrations tap.client n) tap.submitted completion view ∧
          s' = s.setRegistration tap.client n view
    | .profile n => ∃ view,
        profileForm.machine.deliver (s.profiles tap.client n) tap.submitted completion view ∧
          s' = s.setProfile tap.client n view
  env s e s' := s.ambient e = some s'

abbrev ScreenRun := Pool Screens Tap Request.Answer Completion Trap

/-! ## The normal form -/

section
variable (lowercased : String → String)

/-- The username and the email of a document are lowercase, where it has them. -/
def Normalised (data : Document) : Prop :=
  ∀ key ∈ [FB.userUsername, FB.userEmail], ∀ value, data key = some value →
    ∃ text, value = .string text ∧ text = lowercased text

def UsersNormalised (fb : Firebase) : Prop :=
  ∀ id data, fb.documents [FB.userCollection, id] = some data → Normalised lowercased data

/-- The stored documents are normalised, and no form has been opened. -/
def ScreensStart (s : Screens) : Prop :=
  UsersNormalised lowercased s.world.fb ∧ s.registrations = (fun _ _ => {}) ∧ s.profiles = fun _ _ => {}

def screenRuns : System ScreenRun (Event Tap Request.Answer Completion ScreenEvent) :=
  (screens lowercased).system (ScreensStart lowercased)

/-- The username or email that a profile form has submitted is lowercase. -/
def Op.Lowercase (op : Op) : Prop := ∀ f text, f ≠ .fullname → op.text f = some text → text = lowercased text

/-- A write of a submitted text takes effect on a users document only if the text is lowercase. -/
def WritesLowercase : Event Tap Request.Answer Completion ScreenEvent → Prop
  | .serve _ tap (.setData docRef _ _) none =>
    (∃ id, docRef = [FB.userCollection, id]) → ∀ op, tap.submitted = .request op → op.Lowercase lowercased
  | _ => True

end

section
variable {lowercased : String → String} {fb : Firebase} {docRef : Segments} {before data : Document} {op : Op}

/-! ## Document writes -/

theorem normalised_empty : Normalised lowercased Dict.empty := by
  intro key _ value h
  cases h

theorem normalised_merge_iff (hb : Normalised lowercased before) :
    Normalised lowercased (before.merge data) ↔ Normalised lowercased data := by
  constructor
  · intro h key hkey value hvalue
    exact h key hkey value (Dict.merge_of_some hvalue)
  · intro h key hkey value hvalue
    cases hd : data key with
    | none =>
      rw [Dict.merge_of_none hd] at hvalue
      exact hb key hkey value hvalue
    | some v =>
      rw [Dict.merge_of_some hd] at hvalue
      cases hvalue
      exact h key hkey value hd

theorem UsersNormalised.written_iff (h : UsersNormalised lowercased fb) (id : String) (merge : Bool) :
    Normalised lowercased (fb.written [FB.userCollection, id] data merge) ↔ Normalised lowercased data := by
  cases merge with
  | false => rw [Firebase.written_replace]
  | true =>
    rw [Firebase.written_merge]
    apply normalised_merge_iff
    cases hd : fb.documents [FB.userCollection, id] with
    | none => exact normalised_empty
    | some before => exact h id before hd

theorem UsersNormalised.write_iff (h : UsersNormalised lowercased fb) (merge : Bool) :
    UsersNormalised lowercased (fb.write docRef (fb.written docRef data merge)) ↔
      ((∃ id, docRef = [FB.userCollection, id]) → Normalised lowercased data) := by
  constructor
  · intro hw hdoc
    obtain ⟨id, rfl⟩ := hdoc
    rw [← h.written_iff id merge]
    exact hw id _ (by rw [Firebase.write_documents, Function.update_self])
  · intro hn id d hd
    rw [Firebase.write_documents] at hd
    by_cases hdoc : [FB.userCollection, id] = docRef
    · subst hdoc
      rw [Function.update_self] at hd
      cases hd
      exact (h.written_iff id merge).mpr (hn ⟨id, rfl⟩)
    · rw [Function.update_of_ne hdoc] at hd
      exact h id d hd

theorem UsersNormalised.congr {fb' : Firebase} (h : fb'.documents = fb.documents) :
    UsersNormalised lowercased fb' ↔ UsersNormalised lowercased fb := by
  unfold UsersNormalised
  rw [h]

/-! ## What the operations write -/

theorem TextField.key_mem {f : TextField} : f.key ∈ [FB.userUsername, FB.userEmail] ↔ f ≠ .fullname := by
  cases f <;> decide

theorem Op.Writes.normalised_iff {id : String} (h : op.Writes id data) :
    Normalised lowercased data ↔ op.Lowercase lowercased := by
  constructor
  · intro hn f text hf htext
    obtain ⟨t, ht, hlow⟩ := hn f.key (TextField.key_mem.mpr hf) _ (h.text f text htext)
    cases ht
    exact hlow
  · intro hlow key hkey value hvalue
    rcases h.only key value hvalue with rfl | ⟨rfl, _⟩ | ⟨f, text, rfl, htext⟩
    · exact absurd hkey (by decide)
    · exact absurd hkey (by decide)
    · rw [h.text f text htext] at hvalue
      cases hvalue
      exact ⟨text, rfl, hlow f text (TextField.key_mem.mp hkey) htext⟩

def Op.FromForms (lowercased : String → String) : Op → Prop
  | .createUser info => info.username = lowercased info.username ∧ info.email = lowercased info.email
  | op => profileOps op

theorem normalised_newDocument {info : RegistrationInfo} (h : (Op.createUser info).FromForms lowercased)
    (newUser : Uid)
    (url : String) : Normalised lowercased (RegistrationService.newDocument info newUser url) := by
  intro key hkey value hvalue
  simp only [List.mem_cons, List.not_mem_nil, or_false] at hkey
  rcases hkey with rfl | rfl
  · cases hvalue
    exact ⟨info.username, rfl, h.1⟩
  · cases hvalue
    exact ⟨info.email, rfl, h.2⟩

theorem At.normalised_iff {merge : Bool} {k : Option FBError → Callbacks}
    (hat : At op (.call (.setData docRef data merge) k)) (hop : op.FromForms lowercased) :
    Normalised lowercased data ↔ op.Lowercase lowercased := by
  cases op with
  | createUser info =>
    cases hat with
    | registerWrite info newUser url =>
      refine iff_of_true (normalised_newDocument hop newUser url) fun f text _ htext => ?_
      cases htext
  | _ =>
    obtain ⟨_, id, _, _, hwrites⟩ := hat.profileWrite hop
    exact hwrites.normalised_iff

end

/-! ## What the forms submit -/

section
variable {lowercased : String → String}

theorem register_fromForms (hl : ∀ s, lowercased (lowercased s) = lowercased s) {v v' : RegistrationView} {op : Op}
    (h : v.register lowercased = (v', .request op)) : op.FromForms lowercased := by
  simp only [RegistrationView.register] at h
  split at h
  · split at h
    · cases h
    · cases h
      exact ⟨(hl v.username).symm, (hl v.email).symm⟩
  · cases h

theorem update_fromForms {v v' : UserProfileView} {op : Op} (h : v.update = (v', .request op)) :
    op.FromForms lowercased := by
  have hop : profileOps op := (profileForm_lawful.request h).1
  cases op with
  | createUser info => cases hop
  | _ => exact hop

theorem submitted_fromForms (hl : ∀ s, lowercased (lowercased s) = lowercased s) {s s' : Screens} {tap : Tap}
    (h : (screens lowercased).launch s tap s') : ∀ op, tap.submitted = .request op → op.FromForms lowercased := by
  intro op hop
  obtain ⟨c, form, submitted⟩ := tap
  obtain rfl : submitted = .request op := hop
  cases form with
  | registration n =>
    obtain ⟨view, ⟨_, hs⟩, _⟩ := h
    exact register_fromForms hl hs
  | profile n =>
    obtain ⟨view, ⟨_, hs⟩, _⟩ := h
    exact update_fromForms hs

theorem launch_world {s s' : Screens} {tap : Tap} (h : (screens lowercased).launch s tap s') :
    s'.world = s.world := by
  obtain ⟨c, form, submitted⟩ := tap
  cases form <;> (obtain ⟨view, _, rfl⟩ := h; rfl)

theorem deliver_world {s s' : Screens} {tap : Tap} {completion : Completion}
    (h : (screens lowercased).deliver s tap completion s') : s'.world = s.world := by
  obtain ⟨c, form, submitted⟩ := tap
  cases form <;> (obtain ⟨view, _, rfl⟩ := h; rfl)

/-! ## Steps and runs -/

theorem tap_at (hl : ∀ s, lowercased (lowercased s) = lowercased s) {p : ScreenRun}
    (hr : (screenRuns lowercased).Reachable p) {tap : Tap} {q : Request} {k : q.Answer → Callbacks}
    (ht : ⟨tap, .call q k⟩ ∈ p.tasks) :
    ∃ op, tap.submitted = .request op ∧ At op (.call q k) ∧ op.FromForms lowercased := by
  have hlead : tap.submitted.body.Leads (.call q k) := Machine.within hr _ ht
  have hfrom := Machine.tags (M := screens lowercased)
    (L := fun tap => ∀ op, tap.submitted = .request op → op.FromForms lowercased)
    (fun _ _ _ h => submitted_fromForms hl h) hr _ ht
  obtain ⟨c, form, submitted⟩ := tap
  cases submitted with
  | rejected => cases hlead.of_ended rfl
  | request op => exact ⟨op, rfl, At.of_leads hlead, hfrom op rfl⟩
  | trap t => cases hlead.of_ended rfl

theorem normalised_step (hl : ∀ s, lowercased (lowercased s) = lowercased s) {p p' : ScreenRun}
    {e : Event Tap Request.Answer Completion ScreenEvent} (hr : (screenRuns lowercased).Reachable p)
    (hs : (screenRuns lowercased).step p e p') (hn : UsersNormalised lowercased p.state.world.fb) :
    UsersNormalised lowercased p'.state.world.fb ↔ WritesLowercase lowercased e := by
  cases hs with
  | launch h =>
    refine iff_of_true ?_ trivial
    rw [launch_world h]
    exact hn
  | deliver h =>
    refine iff_of_true ?_ trivial
    rw [deliver_world h]
    exact hn
  | env h =>
    refine iff_of_true ?_ trivial
    rw [UsersNormalised.congr (Screens.ambient_documents h)]
    exact hn
  | @serve s tap q a k s' l r h =>
    obtain ⟨fb, h, rfl⟩ := h
    obtain ⟨op, hop, hat, hfrom⟩ := tap_at hl hr (List.mem_append_right l List.mem_cons_self)
    cases q with
    | setData docRef data merge =>
      cases a with
      | some error =>
        cases h
        exact iff_of_true hn trivial
      | none =>
        cases h
        rw [hn.write_iff merge, hat.normalised_iff hfrom]
        constructor
        · intro hlow hdoc op' hop'
          rw [hop] at hop'
          cases hop'
          exact hlow hdoc
        · intro hlow hdoc
          exact hlow hdoc op hop
    | _ =>
      refine iff_of_true ?_ trivial
      rw [UsersNormalised.congr (Firebase.serve_documents h (by simp))]
      exact hn

theorem normalised_run (hl : ∀ s, lowercased (lowercased s) = lowercased s) {p : ScreenRun}
    (hr : ((screenRuns lowercased).restrict fun _ e _ => WritesLowercase lowercased e).Reachable p) :
    UsersNormalised lowercased p.state.world.fb := by
  induction hr with
  | init h0 => exact h0.1.1
  | step hr hs ih => exact (normalised_step hl hr.unrestrict hs.1 ih).mpr hs.2

/-- Usernames and emails stay lowercase in the runs in which profile forms store
only lowercase ones, and each other step that is taken breaks it. -/
theorem stored_normalised (lowercased : String → String) (hl : ∀ s, lowercased (lowercased s) = lowercased s) :
    (∀ p, ((screenRuns lowercased).restrict fun _ e _ => WritesLowercase lowercased e).Reachable p →
      UsersNormalised lowercased p.state.world.fb) ∧
    ∀ p e p', (screenRuns lowercased).Reachable p → (screenRuns lowercased).step p e p' →
      UsersNormalised lowercased p.state.world.fb →
      (UsersNormalised lowercased p'.state.world.fb ↔ WritesLowercase lowercased e) :=
  ⟨fun _ hr => normalised_run hl hr, fun _ _ _ hr hs hn => normalised_step hl hr hs hn⟩

end

/-! ## A registration and an update -/

theorem asciiLowercased_idem (s : String) : asciiLowercased (asciiLowercased s) = asciiLowercased s := by
  unfold asciiLowercased
  rw [String.toList_ofList, List.map_map]
  apply congrArg String.ofList
  apply List.map_congr_left
  intro c _
  exact c.toLower_toLower_eq_toLower

theorem reachable_annTyped : ∃ registrations,
    ((screenRuns asciiLowercased).restrict fun _ e _ => WritesLowercase asciiLowercased e).Reachable
      ⟨⟨⟨Firebase.withAnn, []⟩, registrations, fun _ _ => {}⟩,
        [⟨⟨0, .registration 0, .request (.createUser annInfo)⟩, .done⟩]⟩ := by
  have h0 : ((screenRuns asciiLowercased).restrict fun _ e _ => WritesLowercase asciiLowercased e).Reachable
      ⟨⟨World.start, fun _ _ => {}, fun _ _ => {}⟩, []⟩ := by
    refine .init ⟨⟨?_, rfl, rfl⟩, rfl⟩
    intro id data hd
    cases hd
  have h1 := h0.step ⟨.env (M := screens asciiLowercased) (e := .registration 0 0 (.fullname "Ann")) rfl, trivial⟩
  have h2 := h1.step ⟨.env (M := screens asciiLowercased) (e := .registration 0 0 (.email "A@x.com")) rfl, trivial⟩
  have h3 := h2.step ⟨.env (M := screens asciiLowercased) (e := .registration 0 0 (.username "Ann")) rfl, trivial⟩
  have h4 :=
    h3.step ⟨.env (M := screens asciiLowercased) (e := .registration 0 0 (.password "secret")) rfl, trivial⟩
  have h5 := h4.step ⟨.env (M := screens asciiLowercased) (e := .registration 0 0 .tapImage) rfl, trivial⟩
  have h6 := h5.step ⟨.env (M := screens asciiLowercased)
    (e := .registration 0 0 (.didFinishPicking (some ⟨some [1]⟩))) rfl, trivial⟩
  have h7 :=
    h6.step ⟨.launch (M := screens asciiLowercased) (i := ⟨0, .registration 0, .request (.createUser annInfo)⟩)
    ⟨_, ⟨rfl, rfl⟩, rfl⟩, trivial⟩
  have h8 := h7.step ⟨.serve (l := []) (r := []) (a := .ok (some ann)) ⟨_, rfl, rfl⟩, trivial⟩
  have h9 := h8.step ⟨.serve (l := []) (r := []) (a := .ok annImage.url) ⟨_, rfl, rfl⟩, trivial⟩
  have h10 := h9.step ⟨.serve (l := []) (r := []) (a := .ok (some annImage.url)) ⟨_, rfl, rfl⟩, trivial⟩
  have h11 := h10.step ⟨.serve (l := []) (r := []) (a := none) ⟨_, rfl, rfl⟩, by
    intro _ op hop f text _ htext
    cases hop
    cases htext⟩
  exact ⟨_, h11.step ⟨.deliver (l := []) (r := []) ⟨_, ⟨_, rfl, rfl⟩, rfl⟩, trivial⟩⟩

theorem stored_normalised_run : ∃ p : ScreenRun, UsersNormalised asciiLowercased p.state.world.fb ∧
    fieldAt FB.userUsername (p.state.world.fb.userDocument ann) = some (.string "ann") := by
  obtain ⟨registrations, hr⟩ := reachable_annTyped
  exact ⟨_, (stored_normalised asciiLowercased asciiLowercased_idem).1 _ hr, rfl⟩

/-- The profile form stores the capital letter that the registration lowered. -/
theorem username_not_lowered : ¬ ∀ lowercased : String → String, (∀ s, lowercased (lowercased s) = lowercased s) →
    ∀ p, (screenRuns lowercased).Reachable p → UsersNormalised lowercased p.state.world.fb := by
  obtain ⟨registrations, hr⟩ := reachable_annTyped
  have h0 := hr.unrestrict
  have h1 := h0.step (.env (M := screens asciiLowercased) (e := .ambient (.snapshot ann)) rfl)
  have h2 := h1.step (.env (M := screens asciiLowercased) (e := .receive 0 0 0) rfl)
  have h3 := h2.step (.env (M := screens asciiLowercased) (e := .profile 0 0 .fullnameAppears) rfl)
  have h4 := h3.step (.env (M := screens asciiLowercased) (e := .profile 0 0 .emailAppears) rfl)
  have h5 := h4.step (.env (M := screens asciiLowercased) (e := .profile 0 0 .usernameAppears) rfl)
  have h6 := h5.step (.env (M := screens asciiLowercased) (e := .profile 0 0 (.username "Ann")) rfl)
  have h7 := h6.step (.launch (M := screens asciiLowercased)
    (i := ⟨0, .profile 0, .request (.updateUserInfoNoImage ⟨"u1", "Ann", "Ann"⟩)⟩) ⟨_, ⟨rfl, rfl⟩, rfl⟩)
  have h8 := h7.step (.serve (l := [_]) (r := []) (a := none) ⟨_, rfl, rfl⟩)
  intro h
  obtain ⟨text, htext, hlow⟩ :=
    h asciiLowercased asciiLowercased_idem _ h8 "u1" _ rfl FB.userUsername (by decide) _ rfl
  obtain rfl : "Ann" = text := by
    have htext : Value.string "Ann" = .string text := htext
    cases htext
    rfl
  exact absurd hlow (by decide)

end ToDoList
