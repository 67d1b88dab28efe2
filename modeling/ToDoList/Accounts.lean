import ToDoList.Async.Twin
import ToDoList.Operation

/-!
# Clients of one backend

Any number of clients make calls whose chains run against the same services.
Between any two steps the Auth user of a client may change, and a snapshot of
a user document may be taken, to be delivered and used at any later time.
-/

namespace ToDoList

open Async

structure Call where
  client : Client
  op : Op
  deriving DecidableEq

structure World where
  fb : Firebase
  snapshots : List (Uid × Document)

inductive Ambient
  | switch (c : Client) (user : Option Uid)
  | snapshot (user : Uid)

def World.ambient (w : World) : Ambient → Option World
  | .switch c none => some { w with fb := w.fb.setSession c none }
  | .switch c (some user) =>
    if w.fb.emails user = none then none else some { w with fb := w.fb.setSession c (some user) }
  | .snapshot user =>
    match (Firestore.queryUser user.1).bind w.fb.documents with
    | none => none
    | some data => some { w with snapshots := (user, data) :: w.snapshots }

def accounts (allowed : World → Call → Prop) :
    Machine World Call Request.Answer Completion Trap Ambient where
  body call := call.op.body
  launch w call w' := allowed w call ∧ w' = w
  serve w call q a w' := ∃ fb, w.fb.serve call.client q a = some fb ∧ w' = { w with fb := fb }
  deliver w _ _ w' := w' = w
  env w e w' := w.ambient e = some w'

abbrev Clients := Pool World Call Request.Answer Completion Trap

abbrev Happening := Event Call Request.Answer Completion Ambient

def World.start : World := ⟨.start, []⟩

def accountsOf (ops : Op → Prop) : Machine World Call Request.Answer Completion Trap Ambient :=
  accounts fun _ call => ops call.op

theorem World.ambient_fb {w w' : World} {e : Ambient} (h : w.ambient e = some w') :
    w'.fb.emails = w.fb.emails ∧ w'.fb.documents = w.fb.documents ∧ w'.fb.objects = w.fb.objects ∧
      w'.fb.issued = w.fb.issued := by
  cases e with
  | switch c user =>
    cases user with
    | none => cases h; exact ⟨rfl, rfl, rfl, rfl⟩
    | some user =>
      simp only [World.ambient] at h
      split at h
      · cases h
      · cases h; exact ⟨rfl, rfl, rfl, rfl⟩
  | snapshot user =>
    simp only [World.ambient] at h
    split at h
    · cases h
    · cases h; exact ⟨rfl, rfl, rfl, rfl⟩

theorem World.ambient_snapshots {w w' : World} {e : Ambient} (h : w.ambient e = some w') :
    w'.snapshots = w.snapshots ∨ ∃ user data, (Firestore.queryUser user.1).bind w.fb.documents = some data ∧
      w'.snapshots = (user, data) :: w.snapshots := by
  cases e with
  | switch c user =>
    left
    cases user with
    | none => cases h; rfl
    | some user =>
      simp only [World.ambient] at h
      split at h
      · cases h
      · cases h; rfl
  | snapshot user =>
    simp only [World.ambient] at h
    split at h
    · cases h
    · rename_i data hdata
      cases h
      exact .inr ⟨user, data, hdata, rfl⟩

variable {allowed : World → Call → Prop} {ops : Op → Prop} {init : World → Prop} {p : Clients} {call : Call}
  {c : Callbacks}

theorem at_of_reachable (h : ((accounts allowed).system init).Reachable p) (ht : ⟨call, c⟩ ∈ p.tasks) :
    At call.op c :=
  At.of_leads (Machine.within h _ ht)

theorem ops_of_reachable (h : ((accountsOf ops).system init).Reachable p) (ht : ⟨call, c⟩ ∈ p.tasks) :
    ops call.op :=
  Machine.tags (M := accountsOf ops) (L := fun call => ops call.op) (fun _ _ _ hl => hl.1) h _ ht

/-! ## Pairs of stored values -/

abbrev CallTask := Task Call Request.Answer Completion Trap

section
variable {M C : Type} {m : World → M} {k : World → C} {f : CallTask → Option (Repair C)} {agree : M → C → Prop}

/-- Only an answer to a call in flight moves a pair of stored values. -/
theorem view_step {p p' : Clients} {e : Happening} (hr : ((accountsOf ops).system init).Reachable p)
    (hs : (accountsOf ops).Step p e p') (hlaunch : ∀ call : Call, ops call.op → f ⟨call, call.op.body⟩ = none)
    (henv : ∀ w e w', World.ambient w e = some w' → m w' = m w ∧ k w' = k w)
    (hidle : ∀ t, t.chain.awaits = none → f t = none)
    (hserve : ∀ {w : World} {c op q a g fb l r}, ops op → At op (.call q g) → e = .serve l.length ⟨c, op⟩ q a →
      p = ⟨w, l ++ ⟨⟨c, op⟩, .call q g⟩ :: r⟩ → w.fb.serve c q a = some fb →
      Twin.Step agree (Twin.view m k f ⟨w, l ++ ⟨⟨c, op⟩, .call q g⟩ :: r⟩)
        (Twin.view m k f ⟨{ w with fb := fb }, l ++ ⟨⟨c, op⟩, g a⟩ :: r⟩)) :
    Twin.Step agree (Twin.view m k f p) (Twin.view m k f p') := by
  refine Twin.view_step hs ?_ ?_ henv hidle ?_ ?_
  · intro w call w' h
    obtain ⟨hcall, rfl⟩ := h
    exact ⟨rfl, rfl, hlaunch call hcall⟩
  · intro w call x w' heq
    subst heq
    exact ⟨rfl, rfl⟩
  · intro call x c ht
    rw [(at_of_reachable hr ht).report]
    rfl
  · intro w call q a g w' l r heq heq₁ h
    obtain ⟨c, op⟩ := call
    subst heq
    subst heq₁
    obtain ⟨fb, hs, rfl⟩ := h
    have hmem : (⟨⟨c, op⟩, .call q g⟩ : CallTask) ∈ l ++ ⟨⟨c, op⟩, .call q g⟩ :: r :=
      List.mem_append_right l List.mem_cons_self
    exact hserve (ops_of_reachable hr hmem) (at_of_reachable hr hmem) rfl rfl hs

end

/-! ## A field of a document -/

section
variable {uid : Uid} {key : String} {p' : Clients} {e : Happening} {g : Happening → Option (Option Value)}

theorem field_write {fb : Firebase} {docRef : Segments} {data : Document} {merge : Bool} {value : Value}
    (hdata : data key = some value) :
    ((fb.write docRef (fb.written docRef data merge)).userDocument uid).map (fun data => data key) =
      (if FB.userDocument uid.1 = some docRef then some (some value) else none).or
        ((fb.userDocument uid).map fun data => data key) := by
  have hwritten : fb.written docRef data merge key = some value := by
    cases merge with
    | false => rw [Firebase.written_replace, hdata]
    | true => rw [Firebase.written_merge, Dict.merge_of_some hdata]
  rw [Firebase.userDocument_write]
  by_cases hu : FB.userDocument uid.1 = some docRef
  · rw [if_pos hu, if_pos hu, Option.map_some, hwritten]
    rfl
  · rw [if_neg hu, if_neg hu]
    rfl

/-- Only a write that takes effect moves a field, to the value that it gives. -/
theorem field_step (hr : ((accountsOf ops).system init).Reachable p) (hs : (accountsOf ops).Step p e p')
    (hwrite : ∀ n c op docRef data merge k, ops op → At op (.call (.setData docRef data merge) k) →
      ∃ value, data key = some value ∧ g (.serve n ⟨c, op⟩ (.setData docRef data merge) none) =
        if FB.userDocument uid.1 = some docRef then some (some value) else none)
    (hother : (∀ n call docRef data merge, e ≠ .serve n call (.setData docRef data merge) none) → g e = none) :
    (p'.state.fb.userDocument uid).map (fun data => data key) =
      (g e).or ((p.state.fb.userDocument uid).map fun data => data key) := by
  have hsame : (∀ n call docRef data merge, e ≠ .serve n call (.setData docRef data merge) none) →
      p'.state.fb.documents = p.state.fb.documents →
      (p'.state.fb.userDocument uid).map (fun data => data key) =
        (g e).or ((p.state.fb.userDocument uid).map fun data => data key) := by
    intro he hdocuments
    rw [hother he, Firebase.userDocument_congr hdocuments]
    rfl
  cases hs with
  | launch hl =>
    obtain ⟨_, rfl⟩ := hl
    exact hsame (by simp) rfl
  | env he => exact hsame (by simp) (World.ambient_fb he).2.1
  | deliver hd =>
    cases hd
    exact hsame (by simp) rfl
  | @serve w call q a k w' l r hs =>
    obtain ⟨fb, hs, rfl⟩ := hs
    have hmem : (⟨call, .call q k⟩ : CallTask) ∈ l ++ ⟨call, .call q k⟩ :: r :=
      List.mem_append_right l List.mem_cons_self
    have hat := at_of_reachable hr hmem
    have hcall : ops call.op := ops_of_reachable hr hmem
    cases q with
    | setData docRef data merge =>
      cases a with
      | some error =>
        cases hs
        exact hsame (by simp) rfl
      | none =>
        cases hs
        obtain ⟨value, hvalue, hg⟩ := hwrite l.length call.client call.op docRef data merge k hcall hat
        rw [hg]
        exact field_write hvalue
    | _ => exact hsame (by simp) (Firebase.serve_documents hs (by simp))

end

/-! ## A registration -/

def ann : Uid := ⟨"u1", by decide⟩
def annInfo : RegistrationInfo := ⟨"ann", "Ann", "a@x.com", "secret", ⟨some [1]⟩⟩
def annImage : StoredObject := ⟨[1], FB.imageContentType, "https://img/1"⟩
def annCall : Call := ⟨0, .createUser annInfo⟩
def annEmail : UserEmailUpdate := ⟨"u1", "b@x.com"⟩
def annPicture : UserInfoWithImage := ⟨"u1", "ann", "Ann", "https://img/1", some ⟨some [2]⟩⟩
def bob : Uid := ⟨"u2", by decide⟩

/-- The services once `annCall` has ended without an error. -/
def Firebase.withAnn : Firebase :=
  (((Firebase.start.setEmail ann annInfo.email).setSession 0 (some ann)).store (FB.image ann.1) annImage).write
    [FB.userCollection, ann.1] (RegistrationService.newDocument annInfo ann annImage.url)

theorem reachable_withAnn (h : allowed World.start annCall) (hi : init World.start) :
    ((accounts allowed).system init).Reachable ⟨⟨Firebase.withAnn, []⟩, [⟨annCall, .done⟩]⟩ := by
  have h0 : ((accounts allowed).system init).Reachable ⟨World.start, []⟩ := .init ⟨hi, rfl⟩
  have h1 := h0.step (.launch (M := accounts allowed) (i := annCall) ⟨h, rfl⟩)
  have h2 := h1.step (.serve (l := []) (r := []) (a := .ok (some ann)) ⟨_, rfl, rfl⟩)
  have h3 := h2.step (.serve (l := []) (r := []) (a := .ok annImage.url) ⟨_, rfl, rfl⟩)
  have h4 := h3.step (.serve (l := []) (r := []) (a := .ok (some annImage.url)) ⟨_, rfl, rfl⟩)
  have h5 := h4.step (.serve (l := []) (r := []) (a := none) ⟨_, rfl, rfl⟩)
  exact h5.step (.deliver (l := []) (r := []) rfl)

end ToDoList
