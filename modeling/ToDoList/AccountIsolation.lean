import ToDoList.History

/-!
# On whose account an operation acts

Profile operations name the account they were started for in `info.id`,
registrations act on the account they make, which the history of the run tells.
-/

namespace ToDoList

open Async

/-- The account that call number `n` was started for. -/
def Target (h : History) (n : Nat) (uid : Uid) : Op → Prop
  | .createUser _ => Created h n uid
  | op => op.infoId = some uid.1

def StartedSignedIn (w : World) (call : Call) : Prop :=
  match call.op with
  | .createUser _ => True
  | op => ∃ uid, w.fb.session call.client = some uid ∧ op.infoId = some uid.1

def profileMachine : Machine World Call Request.Answer Completion Trap Ambient := accounts StartedSignedIn

def profileSystem : System (Clients × History) Happening := (profileMachine.system fun _ => True).recorded

structure Untouched (uid : Uid) (fb fb' : Firebase) : Prop where
  email : fb'.emails uid = fb.emails uid
  session : ∀ c, fb'.session c = some uid ↔ fb.session c = some uid
  document : fb'.userDocument uid = fb.userDocument uid
  image : fb'.objects (FB.image uid.1) = fb.objects (FB.image uid.1)

/-- An answer to a call changes nothing of another account. -/
def Isolated (x : Clients × History) (e : Happening) (y : Clients × History) : Prop :=
  match e with
  | .serve n call _ _ => ∀ uid, ¬ Target y.2 n uid call.op → Untouched uid x.1.state.fb y.1.state.fb
  | _ => True

/-- Auth changes the email of the account of the operation, or sets the email
it has; `signOut` ends no session of another account, and neither does
the sign-in that comes with a new account. -/
def IsolationAnswerOk (fb : Firebase) (c : Client) : Op → (q : Request) → q.Answer → Prop
  | .updateEmail info, .updateEmail user email, error => error = none → user.1 = info.id ∨ fb.emails user =
    some email
  | .updateEmail info, .signOut, error => error = none → ∀ user, fb.session c = some user → user.1 = info.id
  | .createUser _, .createUser _ _, answer => ∀ newUser, answer = .ok (some newUser) →
      ∀ user, fb.session c = some user → user = newUser
  | _, _, _ => True

def IsolationStepOk (x : Clients × History) (e : Happening) : Prop :=
  match e with
  | .serve _ call q a => IsolationAnswerOk x.1.state.fb call.client call.op q a
  | _ => True

theorem started_of_reachable {x : Clients × History} (h : profileSystem.Reachable x) {t : CallTask}
    (ht : t ∈ x.1.tasks) : (∃ info, t.tag.op = .createUser info) ∨ ∃ uid : Uid, t.tag.op.infoId = some uid.1 := by
  refine Machine.tags (M := profileMachine)
    (L := fun call => (∃ info, call.op = .createUser info) ∨ ∃ uid : Uid, call.op.infoId = some uid.1)
    ?_ h.of_recorded t ht
  intro w call w' hl
  obtain ⟨hstart, _⟩ := hl
  unfold StartedSignedIn at hstart
  split at hstart
  · rename_i info hop; exact .inl ⟨info, hop⟩
  · obtain ⟨uid, _, hu⟩ := hstart
    exact .inr ⟨uid, hu⟩

/-! ## What each request touches -/

section
variable {fb fb' : Firebase} {c : Client} {uid v : Uid}

theorem Untouched.refl (uid : Uid) (fb : Firebase) : Untouched uid fb fb := ⟨rfl, fun _ => Iff.rfl, rfl, rfl⟩

theorem untouched_putData {data : ImageData} {ct : String} {a : Except FBError String}
    (h : fb.serve c (.putData (FB.image uid.1) data ct) a = some fb') (hv : v ≠ uid) : Untouched v fb fb' := by
  cases a with
  | error e => cases h; exact .refl _ _
  | ok url =>
    obtain ⟨_, rfl⟩ := Firebase.serve_putData h
    refine ⟨rfl, fun _ => Iff.rfl, rfl, ?_⟩
    rw [Firebase.store_objects, Function.update_of_ne fun h => hv (FB.image_inj h)]

theorem untouched_downloadURL {object : Segments} {a : Except FBError (Option String)}
    (h : fb.serve c (.downloadURL object) a = some fb') : Untouched v fb fb' := by
  cases a using answer_cases with
  | error e => cases h; exact .refl _ _
  | nil => cases h; exact .refl _ _
  | value url =>
    obtain ⟨_, rfl⟩ := Firebase.serve_downloadURL h
    exact .refl _ _

theorem untouched_setData {docRef : Segments} {data : Document} {merge : Bool} {a : Option FBError}
    (h : fb.serve c (.setData docRef data merge) a = some fb') (hv : FB.userDocument v.1 ≠ some docRef) :
    Untouched v fb fb' := by
  cases a with
  | some e => cases h; exact .refl _ _
  | none =>
    cases h
    exact ⟨rfl, fun _ => Iff.rfl, by rw [Firebase.userDocument_write, if_neg hv], rfl⟩

theorem untouched_createUser {email password : String}
    (h : fb.serve c (.createUser email password) (.ok (some uid)) = some fb') (hv : v ≠ uid) :
    Untouched v fb fb' ↔ fb.session c ≠ some v := by
  obtain ⟨_, rfl⟩ := Firebase.serve_createUser h
  constructor
  · intro hu hc
    have := (hu.session c).mpr hc
    simp only [Firebase.setSession_session, Function.update_self, Option.some.injEq] at this
    exact hv this.symm
  · intro hc
    refine ⟨by simp [Function.update_of_ne hv], fun c' => ?_, rfl, rfl⟩
    by_cases h : c' = c
    · subst h
      simp [hc, hv.symm]
    · simp [Function.update_of_ne h]

theorem untouched_updateEmail {user : Uid} {email : String}
    (h : fb.serve c (.updateEmail user email) none = some fb') :
    Untouched v fb fb' ↔ v ≠ user ∨ fb.emails user = some email := by
  obtain ⟨_, rfl⟩ := Firebase.serve_updateEmail h
  constructor
  · intro hu
    by_cases hv : v = user
    · subst hv
      have := hu.email
      rw [Firebase.setEmail_emails, Function.update_self] at this
      exact .inr this.symm
    · exact .inl hv
  · intro hu
    refine ⟨?_, fun _ => Iff.rfl, rfl, rfl⟩
    by_cases hv : v = user
    · subst hv
      rw [Firebase.setEmail_emails, Function.update_self]
      exact (hu.resolve_left fun h => h rfl).symm
    · rw [Firebase.setEmail_emails, Function.update_of_ne hv]

theorem untouched_signOut (h : fb.serve c .signOut none = some fb') : Untouched v fb fb' ↔
    fb.session c ≠ some v := by
  cases h
  constructor
  · intro hu hc
    have := (hu.session c).mpr hc
    simp at this
  · intro hc
    refine ⟨rfl, fun c' => ?_, rfl, rfl⟩
    by_cases h : c' = c
    · subst h; simp [hc]
    · simp [Function.update_of_ne h]

end

/-! ## Isolation -/

theorem not_userDocument {u v : Uid} (h : v ≠ u) : FB.userDocument v.1 ≠ some [FB.userCollection, u.1] :=
  fun hd => h (FB.userDocument_inj (hd.trans (FB.userDocument_uid u).symm))

section
variable {h : History} {n : Nat} {op : Op} {id : String} {fb fb' : Firebase} {c : Client} {v : Uid}

theorem infoId_segment (hstart : (∃ info, op = .createUser info) ∨ ∃ uid : Uid, op.infoId = some uid.1)
    (hid : op.infoId = some id) : Path.Segment id := by
  obtain ⟨info, rfl⟩ | ⟨uid, hu⟩ := hstart
  · cases hid
  · rw [hu] at hid
    cases hid
    exact uid.2

theorem ne_of_not_target (hid : op.infoId = some id) (hs : Path.Segment id) (hv : ¬ Target h n v op) :
    v ≠ ⟨id, hs⟩ := by
  intro heq
  subst heq
  cases op with
  | createUser info => cases hid
  | _ => exact hv hid

theorem untouched_document {docRef : Segments} {data : Document} {merge : Bool} {a : Option FBError}
    (hstart : (∃ info, op = .createUser info) ∨ ∃ uid : Uid, op.infoId = some uid.1) (hid : op.infoId = some id)
    (hd : FB.userDocument id = some docRef) (hs : fb.serve c (.setData docRef data merge) a = some fb')
    (hv : ¬ Target h n v op) : Untouched v fb fb' := by
  have hseg := infoId_segment hstart hid
  refine untouched_setData hs fun hdoc => ?_
  exact ne_of_not_target hid hseg hv (FB.userDocument_inj (hdoc.trans hd.symm))

theorem untouched_image {data : ImageData} {ct : String} {a : Except FBError String}
    (hstart : (∃ info, op = .createUser info) ∨ ∃ uid : Uid, op.infoId = some uid.1) (hid : op.infoId = some id)
    (hs : fb.serve c (.putData (FB.image id) data ct) a = some fb') (hv : ¬ Target h n v op) :
      Untouched v fb fb' := by
  have hseg := infoId_segment hstart hid
  have hs : fb.serve c (.putData (FB.image (⟨id, hseg⟩ : Uid).1) data ct) a = some fb' := hs
  exact untouched_putData hs (ne_of_not_target hid hseg hv)

/-! ## Answers that may touch another account -/

theorem isolated_createUser {email password : String} {newUser : Uid}
    (hs : fb.serve c (.createUser email password) (.ok (some newUser)) = some fb') :
    (∀ v, ¬ v = newUser → Untouched v fb fb') ↔ ∀ user, fb.session c = some user → user = newUser := by
  constructor
  · intro hiso user huser
    by_contra hne
    exact (untouched_createUser hs hne).mp (hiso user hne) huser
  · intro hok v hv
    exact (untouched_createUser hs hv).mpr fun hsess => hv (hok v hsess)

theorem isolated_updateEmail {user : Uid} {email : String}
    (hs : fb.serve c (.updateEmail user email) none = some fb') :
    (∀ v : Uid, ¬ some id = some v.1 → Untouched v fb fb') ↔ user.1 = id ∨ fb.emails user = some email := by
  constructor
  · intro hiso
    by_cases hu : user.1 = id
    · exact .inl hu
    · have hne : ¬ (some id = some user.1) := fun h => hu (Option.some.inj h).symm
      exact .inr (((untouched_updateEmail hs).mp (hiso user hne)).resolve_left fun h => h rfl)
  · intro hok v hv
    refine (untouched_updateEmail hs).mpr (hok.imp_left ?_)
    intro hu heq
    subst heq
    exact hv (congrArg some hu.symm)

theorem isolated_signOut (hs : fb.serve c .signOut none = some fb') :
    (∀ v : Uid, ¬ some id = some v.1 → Untouched v fb fb') ↔ ∀ user, fb.session c = some user → user.1 = id := by
  constructor
  · intro hiso user hsess
    by_contra hu
    have hne : ¬ (some id = some user.1) := fun h => hu (Option.some.inj h).symm
    exact (untouched_signOut hs).mp (hiso user hne) hsess
  · intro hok v hv
    refine (untouched_signOut hs).mpr fun hsess => hv ?_
    exact congrArg some (hok v hsess).symm

/-- A registration whose account has just been made was started for that account. -/
theorem target_register {info : RegistrationInfo} {newUser : Uid} {k : Except FBError (Option Uid) → Callbacks}
    (hk : RegistrationKnown h n ⟨⟨c, .createUser info⟩, .call (.createUser info.email info.password) k⟩) (v : Uid) :
    Target (.serve n ⟨c, .createUser info⟩ (.createUser info.email info.password) (.ok (some newUser)) :: h) n v
      (.createUser info) ↔ v = newUser := by
  constructor
  · intro hv
    by_contra hne
    refine hk.unmade _ _ rfl v ((created_cons ?_).mp hv)
    intro c' info' email' password' he
    cases he
    exact hne rfl
  · intro heq
    subst heq
    exact created_head

end

theorem isolated_iff {x y : Clients × History} {e : Happening} (hr : profileSystem.Reachable x)
    (hst : profileSystem.step x e y) : Isolated x e y ↔ IsolationStepOk x e := by
  obtain ⟨p, h⟩ := x
  obtain ⟨p', h'⟩ := y
  obtain ⟨hst, rfl⟩ := hst
  cases hst with
  | launch _ => exact Iff.rfl
  | env _ => exact Iff.rfl
  | deliver _ => exact Iff.rfl
  | @serve w call q a k w' l r hs =>
    obtain ⟨fb, hs, rfl⟩ := hs
    have hk := registrationKnown_rules.holds hr l.length ⟨call, .call q k⟩ (by simp)
    have hstart := started_of_reachable hr (t := ⟨call, .call q k⟩) (List.mem_append_right l List.mem_cons_self)
    obtain ⟨c, op⟩ := call
    have hat : At op (.call q k) := hk.code
    simp only [Isolated, IsolationStepOk]
    cases hat with
    | signIn info => rcases hstart with ⟨_, hop⟩ | ⟨_, hop⟩ <;> cases hop
    | reset info => rcases hstart with ⟨_, hop⟩ | ⟨_, hop⟩ <;> cases hop
    | register info =>
      cases a using answer_cases with
      | error e =>
        cases hs
        exact iff_of_true (fun v _ => .refl v _) (by simp [IsolationAnswerOk])
      | nil =>
        cases hs
        exact iff_of_true (fun v _ => .refl v _) (by simp [IsolationAnswerOk])
      | value newUser =>
        simp only [target_register hk, isolated_createUser hs]
        simp [IsolationAnswerOk]
    | registerImage info newUser data hd =>
      have hnew : Created h l.length newUser := hk.known info rfl _ rfl newUser rfl
      refine iff_of_true (fun v hv => untouched_putData hs ?_) trivial
      intro heq
      subst heq
      exact hv ((created_serve (by simp)).mpr hnew)
    | registerUrl info newUser => exact iff_of_true (fun v _ => untouched_downloadURL hs) trivial
    | registerWrite info newUser url =>
      have hnew : Created h l.length newUser := hk.known info rfl _ rfl newUser (FB.userDocument_uid newUser)
      refine iff_of_true (fun v hv => untouched_setData hs (not_userDocument ?_)) trivial
      intro heq
      subst heq
      exact hv ((created_serve (by simp)).mpr hnew)
    | emailWrite info docRef hd => exact iff_of_true (fun v hv => untouched_document hstart rfl hd hs hv) trivial
    | emailUser info docRef hd =>
      obtain ⟨_, rfl⟩ := Firebase.serve_currentUser hs
      exact iff_of_true (fun v _ => .refl v _) trivial
    | emailUpdate info docRef user hd =>
      cases a with
      | some e =>
        cases hs
        exact iff_of_true (fun v _ => .refl v _) (by simp [IsolationAnswerOk])
      | none =>
        refine (isolated_updateEmail hs).trans ?_
        simp [IsolationAnswerOk]
    | emailSignOut info =>
      cases a with
      | some e =>
        cases hs
        exact iff_of_true (fun v _ => .refl v _) (by simp [IsolationAnswerOk])
      | none =>
        refine (isolated_signOut hs).trans ?_
        simp [IsolationAnswerOk]
    | imageUpload info img data hi hd =>
      exact iff_of_true (fun v hv => untouched_image hstart rfl hs hv) trivial
    | imageUrl info => exact iff_of_true (fun v _ => untouched_downloadURL hs) trivial
    | imageWrite info docRef url hd =>
      exact iff_of_true (fun v hv => untouched_document hstart rfl hd hs hv) trivial
    | infoWrite info docRef hd => exact iff_of_true (fun v hv => untouched_document hstart rfl hd hs hv) trivial

theorem target_unique {x y : Clients × History} {n : Nat} {call : Call} {q : Request} {a : q.Answer}
    (hr : profileSystem.Reachable x) (hst : profileSystem.step x (.serve n call q a) y) {u v : Uid}
    (hu : Target y.2 n u call.op) (hv : Target y.2 n v call.op) : u = v := by
  have hy := hr.step hst
  obtain ⟨p, h⟩ := x
  obtain ⟨p', h'⟩ := y
  obtain ⟨hst, rfl⟩ := hst
  cases hst with
  | @serve w _ _ _ k w' l r hs =>
    have hk := registrationKnown_rules.holds hy l.length ⟨call, k a⟩ (by simp)
    obtain ⟨c, op⟩ := call
    cases op with
    | createUser info => exact hk.unique u v hu hv
    | _ => exact Subtype.ext (Option.some.inj (hu.symm.trans hv))

/-- An answer leaves the accounts that its call was not started for alone
exactly when it is `IsolationStepOk`; so the runs that keep to their accounts
are the runs of such answers. -/
theorem account_isolation (x : Clients × History) :
    (∀ e y, profileSystem.Reachable x → profileSystem.step x e y → (Isolated x e y ↔ IsolationStepOk x e)) ∧
    ((profileSystem.restrict Isolated).Reachable x ↔
      (profileSystem.restrict fun x e _ => IsolationStepOk x e).Reachable x) ∧
    ∀ n call q a y, profileSystem.Reachable x → profileSystem.step x (.serve n call q a) y →
      ∀ u v, Target y.2 n u call.op → Target y.2 n v call.op → u = v := by
  refine ⟨fun _ _ hr hst => isolated_iff hr hst, ⟨fun h => ?_, fun h => ?_⟩,
    fun _ _ _ _ _ hr hst _ _ hu hv => target_unique hr hst hu hv⟩
  · induction h with
    | init h => exact .init h
    | step hr hs ih => exact ih.step ⟨hs.1, (isolated_iff hr.unrestrict hs.1).mp hs.2⟩
  · induction h with
    | init h => exact .init h
    | step hr hs ih => exact ih.step ⟨hs.1, (isolated_iff hr.unrestrict hs.1).mpr hs.2⟩

/-! ## Runs -/

def twoAccounts : World := ⟨Firebase.withAnn.setEmail bob "bob@x.com", []⟩

def emailStored : World :=
  ⟨twoAccounts.fb.write [FB.userCollection, "u1"]
    (twoAccounts.fb.written [FB.userCollection, "u1"] annEmail.convertEmailUpdateToDictionary true), []⟩

theorem reachable_emailStored : ∃ h, profileSystem.Reachable
    (⟨emailStored, [⟨⟨0, .updateEmail annEmail⟩, UserViewModel.emailWritten annEmail none⟩]⟩, h) := by
  have h0 : profileSystem.Reachable (⟨twoAccounts, []⟩, []) := .init ⟨⟨trivial, rfl⟩, rfl⟩
  have h1 := h0.record (.launch (M := profileMachine) (i := ⟨0, .updateEmail annEmail⟩) ⟨⟨ann, rfl, rfl⟩, rfl⟩)
  have h2 := h1.record (.serve (l := []) (r := []) (a := none) ⟨_, rfl, rfl⟩)
  exact ⟨_, h2⟩

theorem account_isolation_run : ∃ x e y, profileSystem.step x e y ∧ Isolated x e y ∧
    x.1.state.fb.emails ann = some "a@x.com" ∧ y.1.state.fb.emails ann = some "b@x.com" := by
  obtain ⟨h, h2⟩ := reachable_emailStored
  have h3 := h2.record (.serve (l := []) (r := []) (a := some ann) ⟨_, rfl, rfl⟩)
  have hst := fun h => System.recorded_step (S := profileMachine.system fun _ => True) h
    (.serve (l := []) (r := []) (i := ⟨0, .updateEmail annEmail⟩) (k := UserViewModel.emailUpdated)
      (q := .updateEmail ann "b@x.com") (a := none) (s := emailStored) ⟨_, rfl, rfl⟩)
  exact ⟨_, _, _, hst _, ((account_isolation _).1 _ _ h3 (hst _)).mpr fun _ => .inl rfl, rfl, rfl⟩

/-- Another account signs in while the document is being written: its email is changed. -/
theorem other_account_changed : ¬ ∀ x e y, profileSystem.Reachable x → profileSystem.step x e y →
    Isolated x e y := by
  intro hall
  obtain ⟨h, h2⟩ := reachable_emailStored
  have h3 := h2.record (.env (M := profileMachine) (e := .switch 0 (some bob)) rfl)
  have h4 := h3.record (.serve (l := []) (r := []) (a := some bob) ⟨_, rfl, rfl⟩)
  have hst := fun h => System.recorded_step (S := profileMachine.system fun _ => True) h
    (.serve (l := []) (r := []) (i := ⟨0, .updateEmail annEmail⟩) (k := UserViewModel.emailUpdated)
      (q := .updateEmail bob "b@x.com") (a := none)
      (s := { emailStored with fb := emailStored.fb.setSession 0 (some bob) })
      ⟨_, rfl, rfl⟩)
  have hemail := (hall _ _ _ h4 (hst _) bob (by simp [Target, Op.infoId, annEmail, bob])).email
  have hemail : some "b@x.com" = some "bob@x.com" := hemail
  exact absurd hemail (by decide)

end ToDoList
