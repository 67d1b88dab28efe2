import ToDoList.History

/-!
# The key of a user document and its id field

Registrations write a document at the uid of the account they have made, and
profile operations write at the id that a snapshot of the document was decoded
to. Documents, snapshots and operations in flight keep each other's ids right.
-/

namespace ToDoList

open Async

/-- Profile operations take their id from the user decoded from a snapshot. -/
def FromSnapshot (w : World) (call : Call) : Prop :=
  match call.op with
  | .createUser _ => True
  | op => ∃ uid data, (uid, data) ∈ w.snapshots ∧ op.infoId = some (User.ofData data).id

def identityMachine : Machine World Call Request.Answer Completion Trap Ambient := accounts FromSnapshot

def NoUsers (w : World) : Prop :=
  (∀ path, path.head? = some FB.userCollection → w.fb.documents path = none) ∧ w.snapshots = []

def identitySystem : System (Clients × History) Happening := (identityMachine.system NoUsers).recorded

def Made (h : History) (uid : Uid) : Prop := ∃ n, Created h n uid

theorem Made.cons {h : History} {uid : Uid} (hm : Made h uid) (e : Happening) : Made (e :: h) uid := by
  obtain ⟨n, c, info, email, password, hm⟩ := hm
  exact ⟨n, c, info, email, password, List.mem_cons_of_mem _ hm⟩

/-! ## The invariant -/

def DocumentsIdentified (fb : Firebase) (h : History) : Prop :=
  ∀ path data, fb.documents path = some data → path.head? = some FB.userCollection →
    ∃ uid : Uid, path = [FB.userCollection, uid.1] ∧ data FB.userId = some (.string uid.1) ∧ Made h uid

def SnapshotsIdentified (w : World) (h : History) : Prop :=
  ∀ uid data, (uid, data) ∈ w.snapshots → (User.ofData data).id = uid.1 ∧ Made h uid

def CallIdentified (h : History) (t : CallTask) : Prop :=
  (∀ id, t.tag.op.infoId = some id → ∃ uid : Uid, uid.1 = id ∧ Made h uid) ∧
    t.chain.trapped ≠ some .invalidDocumentPath

structure Identified (x : Clients × History) : Prop where
  documents : DocumentsIdentified x.1.state.fb x.2
  snapshots : SnapshotsIdentified x.1.state x.2
  calls : ∀ t ∈ x.1.tasks, CallIdentified x.2 t

section
variable {w : World} {fb : Firebase} {h : History} {t : CallTask} {e : Happening}

theorem DocumentsIdentified.cons (hd : DocumentsIdentified fb h) (e : Happening) :
    DocumentsIdentified fb (e :: h) := by
  intro path data hp hu
  obtain ⟨uid, hpath, hid, hm⟩ := hd path data hp hu
  exact ⟨uid, hpath, hid, hm.cons e⟩

theorem SnapshotsIdentified.cons (hs : SnapshotsIdentified w h) (e : Happening) : SnapshotsIdentified w (e :: h) :=
  fun uid data hm => ⟨(hs uid data hm).1, (hs uid data hm).2.cons e⟩

theorem CallIdentified.cons (hc : CallIdentified h t) (e : Happening) : CallIdentified (e :: h) t := by
  refine ⟨fun id hid => ?_, hc.2⟩
  obtain ⟨uid, hu, hm⟩ := hc.1 id hid
  exact ⟨uid, hu, hm.cons e⟩

theorem DocumentsIdentified.write {uid : Uid} {data : Document} (hd : DocumentsIdentified fb h)
    (hid : data FB.userId = some (.string uid.1)) (hm : Made h uid) (merge : Bool) :
    DocumentsIdentified (fb.write [FB.userCollection, uid.1]
      (fb.written [FB.userCollection, uid.1] data merge)) h := by
  intro path d hp hu
  by_cases hpath : path = [FB.userCollection, uid.1]
  · subst hpath
    rw [Firebase.write_documents, Function.update_self] at hp
    refine ⟨uid, rfl, ?_, hm⟩
    rw [← Option.some.inj hp]
    cases merge with
    | false => rw [Firebase.written_replace, hid]
    | true => rw [Firebase.written_merge, Dict.merge_of_some hid]
  · rw [Firebase.write_documents, Function.update_of_ne hpath] at hp
    exact hd path d hp hu

theorem DocumentsIdentified.decoded (hd : DocumentsIdentified fb h) {uid : Uid} {data : Document}
    (hu : (Firestore.queryUser uid.1).bind fb.documents = some data) : (User.ofData data).id = uid.1 ∧
      Made h uid := by
  have hq : Firestore.queryUser uid.1 = some [FB.userCollection, uid.1] := FB.userDocument_uid uid
  rw [hq, Option.bind_some] at hu
  obtain ⟨v, hpath, hid, hm⟩ := hd _ _ hu rfl
  have hv : uid = v := Subtype.ext (by simpa using hpath)
  subst hv
  refine ⟨?_, hm⟩
  simp [User.ofData, Document.string, hid]

end

theorem not_badPath {op : Op} {c : Callbacks} {h : History} (hat : At op c)
    (hid : ∀ id, op.infoId = some id → ∃ uid : Uid, uid.1 = id ∧ Made h uid) :
    c.trapped ≠ some .invalidDocumentPath := by
  intro ht
  cases hat with
  | badPath op id hop hdoc =>
    obtain ⟨uid, rfl, _⟩ := hid id hop
    rw [FB.userDocument_uid] at hdoc
    cases hdoc
  | _ => cases ht

theorem documents_step {op : Op} {q : Request} {k : q.Answer → Callbacks} {a : q.Answer} {c : Client} {n : Nat}
    {fb fb' : Firebase} {h : History} (hat : At op (.call q k)) (hs : fb.serve c q a = some fb')
    (hd : DocumentsIdentified fb h) (hid : ∀ id, op.infoId = some id → ∃ uid : Uid, uid.1 = id ∧ Made h uid)
    (hk : ∀ info, op = .createUser info → ∀ uid, q.concerns uid → Created h n uid) : DocumentsIdentified fb' h := by
  have hmerge : ∀ {id docRef data}, op.infoId = some id → FB.userDocument id = some docRef →
      data FB.userId = some (.string id) →
        DocumentsIdentified (fb.write docRef (fb.written docRef data true)) h := by
    intro id docRef data hop hdoc hdata
    obtain ⟨uid, rfl, hm⟩ := hid id hop
    rw [FB.userDocument_uid] at hdoc
    cases hdoc
    exact hd.write hdata hm true
  rcases Firebase.serve_write hs with hsame | ⟨docRef, data, merge, rfl, rfl⟩
  · unfold DocumentsIdentified
    rw [hsame]
    exact hd
  · cases hat with
    | registerWrite info newUser url =>
      exact hd.write rfl ⟨n, hk info rfl newUser (FB.userDocument_uid newUser)⟩ false
    | emailWrite info docRef hdoc => exact hmerge rfl hdoc rfl
    | imageWrite info docRef url hdoc => exact hmerge rfl hdoc rfl
    | infoWrite info docRef hdoc => exact hmerge rfl hdoc rfl

/-- A call that is launched names the account of a snapshot. -/
theorem FromSnapshot.made {w : World} {call : Call} {h : History} {id : String} (hfrom : FromSnapshot w call)
    (hs : SnapshotsIdentified w h) (hid : call.op.infoId = some id) : ∃ uid : Uid, uid.1 = id ∧ Made h uid := by
  unfold FromSnapshot at hfrom
  split at hfrom
  · rename_i hop
    rw [hop] at hid
    cases hid
  · obtain ⟨uid, data, hm, hu⟩ := hfrom
    obtain ⟨hdec, hmade⟩ := hs uid data hm
    refine ⟨uid, ?_, hmade⟩
    rw [← hdec]
    exact Option.some.inj (hu.symm.trans hid)

theorem SnapshotsIdentified.ambient {w w' : World} {h : History} {e : Ambient} (hs : SnapshotsIdentified w h)
    (hd : DocumentsIdentified w.fb h) (he : w.ambient e = some w') : SnapshotsIdentified w' h := by
  unfold SnapshotsIdentified
  rcases World.ambient_snapshots he with hsame | ⟨user, data, hdata, hnew⟩
  · rw [hsame]
    exact hs
  · intro uid d hm
    rw [hnew] at hm
    rcases List.mem_cons.mp hm with hm | hm
    · cases hm
      exact hd.decoded hdata
    · exact hs uid d hm

theorem identified_init {p : Clients} (hp : (identityMachine.system NoUsers).init p) : Identified (p, []) := by
  obtain ⟨⟨hempty, hnone⟩, htasks⟩ := hp
  refine ⟨fun path data hp hu => ?_, fun uid data hm => ?_, fun t ht => ?_⟩
  · rw [hempty path hu] at hp
    cases hp
  · rw [hnone] at hm
    cases hm
  · rw [htasks] at ht
    cases ht

theorem identified_step {p p' : Clients} {h : History} {e : Happening} (hr : identitySystem.Reachable (p, h))
    (hx : Identified (p, h)) (hst : identityMachine.Step p e p') : Identified (p', e :: h) := by
  obtain ⟨hdoc, hsnap, hcall⟩ := hx
  cases hst with
  | @launch w call w' ts hl =>
    obtain ⟨hfrom, rfl⟩ := hl
    refine ⟨hdoc.cons _, hsnap.cons _, fun t ht => ?_⟩
    rcases List.mem_append.mp ht with ht | ht
    · exact (hcall t ht).cons _
    · obtain rfl := List.mem_singleton.mp ht
      have hid : ∀ id, call.op.infoId = some id → ∃ uid : Uid, uid.1 = id ∧ Made h uid :=
        fun id hid => hfrom.made hsnap hid
      exact CallIdentified.cons ⟨hid, not_badPath (At.body call.op) hid⟩ _
  | @env w e w' ts he =>
    refine ⟨?_, (hsnap.ambient hdoc he).cons _, fun t ht => (hcall t ht).cons _⟩
    unfold DocumentsIdentified
    rw [(World.ambient_fb he).2.1]
    exact hdoc.cons _
  | @deliver w call x k w' l r hd =>
    cases hd
    refine ⟨hdoc.cons _, hsnap.cons _, ?_⟩
    have hc := hcall ⟨call, .complete x k⟩ (by simp)
    have hdone : k = .done :=
      (registrationKnown_rules.holds hr l.length ⟨call, .complete x k⟩ (by simp)).code.report
    subst hdone
    exact Machine.forall_replace hcall (fun t ht => ht.cons _) fun _ => CallIdentified.cons ⟨hc.1, by simp⟩ _
  | @serve w call q a k w' l r hs =>
    obtain ⟨fb, hs, rfl⟩ := hs
    have hk := registrationKnown_rules.holds hr l.length ⟨call, .call q k⟩ (by simp)
    have hc := hcall ⟨call, .call q k⟩ (by simp)
    refine ⟨?_, hsnap.cons _, ?_⟩
    · refine DocumentsIdentified.cons ?_ _
      exact documents_step hk.code hs hdoc hc.1 fun info hop uid hcon => hk.known info hop q rfl uid hcon
    · have hnext : CallIdentified h ⟨call, k a⟩ := ⟨hc.1, not_badPath (hk.code.answer a) hc.1⟩
      exact Machine.forall_replace hcall (fun t ht => ht.cons _) fun _ => hnext.cons _

theorem identified {x : Clients × History} (hr : identitySystem.Reachable x) : Identified x := by
  refine System.Invariant.of_reachable (S := identitySystem) (I := Identified) ?_ ?_ hr
  · intro x hex
    obtain ⟨p, h⟩ := x
    obtain ⟨hp, rfl⟩ := hex
    exact identified_init hp
  · intro x e y hr hx hex
    obtain ⟨p, h⟩ := x
    obtain ⟨p', h'⟩ := y
    obtain ⟨hst, rfl⟩ := hex
    exact identified_step hr hx hst

/-! ## The two query paths -/

/-- The users selected by `id` are the document that `id` refers to. -/
def QueriesAgree (fb : Firebase) (id : String) : Prop :=
  ∃ query, Firestore.queryUsers "CurrentUser" id = some query ∧
    ∀ path, fb.selected query path ↔ Firestore.queryUser id = some path ∧ fb.documents path ≠ none

theorem queries_agree {fb : Firebase} {h : History} (hd : DocumentsIdentified fb h) {id : String}
    (hid : id ≠ "") (ht : Path.Trimmed id) : QueriesAgree fb id := by
  refine ⟨_, rfl, fun path => ?_⟩
  constructor
  · intro hex
    obtain ⟨data, hp, hq⟩ := hex
    simp only [Firestore.whereField, Firestore.collection, Bool.and_eq_true, decide_eq_true_eq] at hq
    obtain ⟨⟨_, hhead⟩, hfield⟩ := hq
    obtain ⟨uid, rfl, hdata, _⟩ := hd path data hp hhead
    rw [hdata] at hfield
    obtain rfl : uid.1 = id := by simpa using hfield
    exact ⟨FB.userDocument_uid uid, by rw [hp]; simp⟩
  · intro hex
    obtain ⟨hq, hp⟩ := hex
    obtain ⟨data, hp⟩ := Option.ne_none_iff_exists'.mp hp
    unfold Firestore.queryUser Firestore.document at hq
    simp only at hq
    split at hq
    · cases hq
    rename_i hok
    have hsegs : Path.segments FB.userCollection = [FB.userCollection] := Path.segments_of_segment (by decide)
    rw [hsegs] at hq
    cases hq
    obtain ⟨uid, hpath, hdata, _⟩ := hd _ data hp rfl
    have hone : Path.segments id = [uid.1] := by simpa using hpath
    obtain rfl : id = uid.1 := Path.segments_eq_singleton hone ht fun h => hok (.inl h)
    refine ⟨data, hp, ?_⟩
    simp [Firestore.whereField, Firestore.collection, hone, hdata]

/-! ## Profile writes -/

def Loaded (w : World) (op : Op) : Prop :=
  ∀ id, op.infoId = some id → ∃ uid data, (uid, data) ∈ w.snapshots ∧ (User.ofData data).id = id

theorem Loaded.ambient {w w' : World} {e : Ambient} {op : Op} (hl : Loaded w op) (he : w.ambient e = some w') :
    Loaded w' op := by
  intro id hid
  obtain ⟨uid, data, hm, hdec⟩ := hl id hid
  refine ⟨uid, data, ?_, hdec⟩
  rcases World.ambient_snapshots he with hsame | ⟨user, d, _, hnew⟩
  · rw [hsame]
    exact hm
  · rw [hnew]
    exact List.mem_cons_of_mem _ hm

theorem loaded_rules : identityMachine.Rules (fun _ => True) fun w t => Loaded w t.tag.op where
  launch := by
    intro w call w' _ hex
    obtain ⟨hfrom, rfl⟩ := hex
    refine ⟨trivial, fun _ h => h, fun id hid => ?_⟩
    have hid : call.op.infoId = some id := hid
    unfold FromSnapshot at hfrom
    split at hfrom
    · rename_i hop
      rw [hop] at hid
      cases hid
    · obtain ⟨uid, data, hm, hu⟩ := hfrom
      exact ⟨uid, data, hm, Option.some.inj (hu.symm.trans hid)⟩
  serve := by
    intro w call q a k w' _ hl hex
    obtain ⟨fb, _, rfl⟩ := hex
    exact ⟨trivial, fun _ h => h, hl⟩
  deliver := by
    intro w call x k w' _ hl heq
    subst heq
    exact ⟨trivial, fun _ h => h, hl⟩
  env := by
    intro w e w' _ he
    exact ⟨trivial, fun _ hl => hl.ambient he⟩

/-- A profile write of a call in flight goes to the document whose snapshot its
id was read from. -/
def WritesIdentified (p : Clients) : Prop :=
  ∀ t ∈ p.tasks, ∀ id, t.tag.op.infoId = some id →
    t.chain.trapped ≠ some .invalidDocumentPath ∧
    ∀ docRef data merge, t.chain.awaits = some (.setData docRef data merge) →
      ∃ uid snapshot, (uid, snapshot) ∈ p.state.snapshots ∧ (User.ofData snapshot).id = id ∧
        docRef = [FB.userCollection, uid.1]

theorem writesIdentified {x : Clients × History} (hr : identitySystem.Reachable x) : WritesIdentified x.1 := by
  intro t ht id hid
  have hx := identified hr
  have hinv : (identityMachine.system NoUsers).Invariant _ := loaded_rules.invariant fun _ _ => trivial
  have hload := hinv.holds hr.of_recorded
  obtain ⟨uid, snapshot, hm, hdec⟩ := hload.2 t ht id hid
  refine ⟨(hx.calls t ht).2, fun docRef data merge haw => ⟨uid, snapshot, hm, hdec, ?_⟩⟩
  have hu : id = uid.1 := hdec.symm.trans (hx.snapshots uid snapshot hm).1
  obtain ⟨⟨c, op⟩, chain⟩ := t
  have hat : At op chain := at_of_reachable hr.of_recorded ht
  have hdoc : FB.userDocument id = some docRef := by
    cases hat with
    | registerWrite => cases hid
    | emailWrite info d hd => cases hid; cases haw; exact hd
    | imageWrite info d url hd => cases hid; cases haw; exact hd
    | infoWrite info d hd => cases hid; cases haw; exact hd
    | _ => cases haw
  rw [hu, FB.userDocument_uid] at hdoc
  exact (Option.some.inj hdoc).symm

/-! ## Document identity -/

theorem document_identity {x : Clients × History} (hr : identitySystem.Reachable x) :
    (∀ k data, x.1.state.fb.documents [FB.userCollection, k] = some data →
      k ≠ "" ∧ data FB.userId = some (.string k) ∧ ∃ uid : Uid, uid.1 = k ∧ Made x.2 uid) ∧
    (∀ uid data, (uid, data) ∈ x.1.state.snapshots → (User.ofData data).id = uid.1) ∧
    WritesIdentified x.1 ∧
    ∀ id, id ≠ "" → Path.Trimmed id → QueriesAgree x.1.state.fb id := by
  have hx := identified hr
  refine ⟨fun k data hk => ?_, fun uid data hm => (hx.snapshots uid data hm).1, writesIdentified hr,
    fun id hid ht => queries_agree hx.documents hid ht⟩
  obtain ⟨uid, hpath, hdata, hm⟩ := hx.documents _ data hk rfl
  obtain rfl : k = uid.1 := by simpa using hpath
  exact ⟨uid.2.1, hdata, uid, rfl, hm⟩

theorem reachable_annMade : ∃ h, identitySystem.Reachable (⟨⟨Firebase.withAnn, []⟩, [⟨annCall, .done⟩]⟩, h) := by
  have hr : (identityMachine.system NoUsers).Reachable ⟨⟨Firebase.withAnn, []⟩, [⟨annCall, .done⟩]⟩ :=
    reachable_withAnn trivial ⟨fun _ _ => rfl, rfl⟩
  exact hr.recorded

theorem document_identity_run : ∃ x : Clients × History, x.1.state.fb = Firebase.withAnn ∧
    QueriesAgree x.1.state.fb "u1" := by
  obtain ⟨h, hr⟩ := reachable_annMade
  exact ⟨_, rfl, (document_identity hr).2.2.2 "u1" (by decide) (by decide)⟩

/-- A document reference drops the slash before an id, the field comparison does not. -/
theorem queries_differ : ¬ ∀ x, identitySystem.Reachable x → ∀ id, id ≠ "" → QueriesAgree x.1.state.fb id := by
  intro hall
  obtain ⟨h, hr⟩ := reachable_annMade
  obtain ⟨query, hq, hsel⟩ := hall _ hr "/u1" (by decide)
  obtain rfl : Firestore.whereField (Firestore.collection FB.userCollection) FB.userId "/u1" = query :=
    Option.some.inj hq
  obtain ⟨data, hp, hfield⟩ := (hsel [FB.userCollection, "u1"]).mpr ⟨by decide, by simp [Firebase.withAnn, ann]⟩
  have hdata : some (RegistrationService.newDocument annInfo ann annImage.url) = some data := hp
  cases hdata
  exact absurd hfield (by decide)

end ToDoList
