import ToDoList.Async.Latest
import ToDoList.History

/-!
# The email in Auth and the email in the user document

`updateEmail` writes the document first and Auth second, `createUser` makes the
account first and writes the document last. Which of several calls got through
to which of the two stores, and in which order, decides whether they agree.
-/

namespace ToDoList

open Async

section
variable (lowercased : String → String)

/-- The email field of a document is an account's email, up to letter case. -/
def EmailsMatch (data : Option Document) (email : Option String) : Prop :=
  ∀ d e, data = some d → email = some e → ∃ s, d FB.userEmail = some (.string s) ∧ lowercased s = lowercased e

def EmailsAgree (fb : Firebase) : Prop := ∀ uid, EmailsMatch lowercased (fb.userDocument uid) (fb.emails uid)

end

def emailCalls : Op → Prop
  | .createUser _ | .updateEmail _ => True
  | _ => False

def emailSystem (lowercased : String → String) : System Clients Happening :=
  (accountsOf emailCalls).system fun w => EmailsAgree lowercased w.fb

/-! ## What the calls of a run were given and how they were answered -/

def Op.email : Op → Option String
  | createUser info => some info.email
  | updateEmail info => some info.email
  | _ => none

section
variable (uid : Uid)

/-- The email of a call whose write of the document of `uid` takes effect. -/
def emailOfWrite : Happening → Option String
  | .serve _ call (.setData docRef _ _) error =>
    match error with
    | none => if FB.userDocument uid.1 = some docRef then call.op.email else none
    | some _ => none
  | _ => none

/-- The email of a call whose change of the account `uid` takes effect. -/
def emailOfChange : Happening → Option String
  | .serve _ call (.createUser _ _) answer =>
    match answer with
    | .ok (some newUser) => if newUser = uid then call.op.email else none
    | _ => none
  | .serve _ call (.updateEmail user _) error =>
    match error with
    | none => if user = uid then call.op.email else none
    | some _ => none
  | _ => none

/-- The last call whose write of the document of `uid` took effect and the last
call whose change of the account took effect were given the same email. Where
the run has no such call, what was there at the start takes its place. -/
def LastGivenSame (lowercased : String → String) (w : World) (h : History) : Prop :=
  match latest (emailOfWrite uid) h, latest (emailOfChange uid) h with
  | some written, some changed => lowercased written = lowercased changed
  | some written, none => ∀ email, w.fb.emails uid = some email → lowercased written = lowercased email
  | none, some changed => ∀ data, w.fb.userDocument uid = some data →
      ∃ email, data FB.userEmail = some (.string email) ∧ lowercased email = lowercased changed
  | none, none => True

end

/-! ## What a step does to the two stores -/

def Firebase.emailField (fb : Firebase) (uid : Uid) : Option (Option Value) :=
  (fb.userDocument uid).map fun data => data FB.userEmail

section
variable {lowercased : String → String} {p p' : Clients} {e : Happening} {uid : Uid}

theorem emails_step (hr : (emailSystem lowercased).Reachable p) (hst : (emailSystem lowercased).step p e p') :
    p'.state.fb.emails uid = (emailOfChange uid e).or (p.state.fb.emails uid) := by
  cases hst with
  | launch hl => obtain ⟨_, rfl⟩ := hl; rfl
  | env he => rw [(World.ambient_fb he).1]; rfl
  | deliver hd => cases hd; rfl
  | @serve w call q a k w' l r hs =>
    obtain ⟨fb, hs, rfl⟩ := hs
    have hat := at_of_reachable hr (List.mem_append_right l List.mem_cons_self)
    have hset : ∀ (user : Uid) (email : String), (Function.update w.fb.emails user (some email)) uid =
        (if user = uid then some email else none).or (w.fb.emails uid) := by
      intro user email
      by_cases hu : user = uid
      · subst hu
        rw [Function.update_self, if_pos rfl]
        rfl
      · rw [Function.update_of_ne (Ne.symm hu), if_neg hu]
        rfl
    obtain ⟨c, op⟩ := call
    cases hat with
    | register info =>
      cases a using answer_cases with
      | error e => cases hs; rfl
      | nil => cases hs; rfl
      | value newUser =>
        obtain ⟨_, rfl⟩ := Firebase.serve_createUser hs
        exact hset newUser info.email
    | emailUpdate info docRef user hd =>
      cases a with
      | some e => cases hs; rfl
      | none =>
        obtain ⟨_, rfl⟩ := Firebase.serve_updateEmail hs
        exact hset user info.email
    | _ => exact congrFun (Firebase.serve_emails hs (by simp) (by simp)) uid

theorem emailOfWrite_of_other
    (he : ∀ n call docRef data merge, e ≠ .serve n call (.setData docRef data merge) none) :
    emailOfWrite uid e = none := by
  cases e with
  | serve n call q a =>
    cases q with
    | setData docRef data merge =>
      cases a with
      | some error => rfl
      | none => exact absurd rfl (he n call docRef data merge)
    | _ => rfl
  | _ => rfl

theorem emailField_step (hr : (emailSystem lowercased).Reachable p) (hst : (emailSystem lowercased).step p e p') :
    p'.state.fb.emailField uid =
      ((emailOfWrite uid e).map fun s => some (.string s)).or (p.state.fb.emailField uid) := by
  apply field_step (g := fun e => (emailOfWrite uid e).map fun s => some (.string s)) hr hst
  · intro n c op docRef data merge k hcall hat
    have hwrite : ∀ email, op.email = some email → data FB.userEmail = some (.string email) →
        ∃ value, data FB.userEmail = some value ∧
          ((emailOfWrite uid (.serve n ⟨c, op⟩ (.setData docRef data merge) none)).map fun s => some (.string s)) =
            if FB.userDocument uid.1 = some docRef then some (some value) else none := by
      intro email hemail hdata
      refine ⟨_, hdata, ?_⟩
      unfold emailOfWrite
      by_cases hu : FB.userDocument uid.1 = some docRef
      · simp [hu, hemail]
      · simp [hu]
    cases hat with
    | registerWrite info newUser url => exact hwrite info.email rfl rfl
    | emailWrite info docRef hd => exact hwrite info.email rfl rfl
    | imageWrite => cases hcall
    | infoWrite => cases hcall
  · intro he
    rw [emailOfWrite_of_other he]
    rfl

end

/-! ## What a run leaves in the two stores -/

section
variable {lowercased : String → String} {w : World} {h : History} {p : Clients} {uid : Uid}

theorem emailsMatch_iff (data : Option Document) (email : Option String) :
    EmailsMatch lowercased data email ↔ ∀ v e, data.map (fun d => d FB.userEmail) = some v → email = some e →
      ∃ s, v = some (.string s) ∧ lowercased s = lowercased e := by
  constructor
  · intro h v e hv he
    obtain ⟨d, hd, rfl⟩ := Option.map_eq_some_iff.mp hv
    exact h d e hd he
  · intro h d e hd he
    exact h _ e (by rw [hd]; rfl) he

theorem match_iff_lastGivenSame (h0 : EmailsAgree lowercased w.fb) (hr : (emailSystem lowercased).Run ⟨w, []⟩ h p) :
    EmailsMatch lowercased (p.state.fb.userDocument uid) (p.state.fb.emails uid) ↔
      LastGivenSame uid lowercased w h := by
  have hinit : (emailSystem lowercased).Reachable ⟨w, []⟩ := .init ⟨h0, rfl⟩
  have hemail : p.state.fb.emails uid = (latest (emailOfChange uid) h).or (w.fb.emails uid) :=
    hr.latest hinit fun _ _ _ => emails_step
  have hfield : p.state.fb.emailField uid =
      ((latest (emailOfWrite uid) h).map fun s => some (.string s)).or (w.fb.emailField uid) := by
    rw [← latest_map]
    exact hr.latest hinit fun _ _ _ => emailField_step
  have hstart := (emailsMatch_iff _ _).mp (h0 uid)
  rw [emailsMatch_iff]
  unfold Firebase.emailField at hfield
  rw [hfield, hemail]
  unfold LastGivenSame
  cases latest (emailOfWrite uid) h with
  | none =>
    cases latest (emailOfChange uid) h with
    | none => simpa using hstart
    | some changed =>
      cases w.fb.userDocument uid with
      | none => simp
      | some data => simp
  | some written =>
    have hwritten : ∀ email : Option String,
        (∀ v e, some (some (Value.string written)) = some v → email = some e →
          ∃ s, v = some (.string s) ∧ lowercased s = lowercased e) ↔
        ∀ e, email = some e → lowercased written = lowercased e := by
      intro email
      constructor
      · intro hmatch e he
        obtain ⟨s, hs, hl⟩ := hmatch _ e rfl he
        cases hs
        exact hl
      · intro hmatch v e hv he
        cases hv
        exact ⟨written, rfl, hmatch e he⟩
    refine (hwritten _).trans ?_
    cases latest (emailOfChange uid) h with
    | none => exact Iff.rfl
    | some changed => simp

end

/-! ## Calls that fail -/

def AuthUnchanged : Happening → Prop
  | .serve _ _ (.updateEmail _ _) error => error ≠ none
  | .serve _ _ (.createUser _ _) answer => ∀ user, answer ≠ .ok (some user)
  | _ => True

theorem emailOfChange_of_unchanged {uid : Uid} {e : Happening} (he : AuthUnchanged e) :
    emailOfChange uid e = none := by
  cases e with
  | serve n call q a =>
    cases q with
    | createUser email password =>
      cases a using answer_cases with
      | error e => rfl
      | nil => rfl
      | value user => exact absurd rfl (he user)
    | updateEmail user email =>
      cases a with
      | some e => rfl
      | none => exact absurd rfl he
    | _ => rfl
  | _ => rfl

theorem emails_kept {lowercased : String → String} {p p' : Clients} {h : History}
    (hp : (emailSystem lowercased).Reachable p) (hr : (emailSystem lowercased).Run p h p')
    (hk : ∀ e ∈ h, AuthUnchanged e) (uid : Uid) : p'.state.fb.emails uid = p.state.fb.emails uid := by
  have hlatest : latest (emailOfChange uid) h = none :=
    latest_eq_none.mpr fun e he => emailOfChange_of_unchanged (hk e he)
  have hemail : p'.state.fb.emails uid = (latest (emailOfChange uid) h).or (p.state.fb.emails uid) :=
    hr.latest (g := fun p : Clients => p.state.fb.emails uid) hp fun _ _ _ => emails_step
  rw [hemail, hlatest]
  rfl

def SameEmail (lowercased : String → String) (data data' : Document) : Prop :=
  ∃ s s', data FB.userEmail = some (.string s) ∧ data' FB.userEmail = some (.string s') ∧
    lowercased s' = lowercased s

theorem same_email {lowercased : String → String} {fb fb' : Firebase} {uid : Uid} {data data' : Document}
    (h : EmailsMatch lowercased (fb.userDocument uid) (fb.emails uid))
    (h' : EmailsMatch lowercased (fb'.userDocument uid) (fb'.emails uid)) (he : fb'.emails uid = fb.emails uid)
    (hu : fb.emails uid ≠ none) (hd : fb.userDocument uid = some data) (hd' : fb'.userDocument uid = some data') :
    SameEmail lowercased data data' := by
  obtain ⟨email, hemail⟩ := Option.ne_none_iff_exists'.mp hu
  obtain ⟨s, hs, hl⟩ := h data email hd hemail
  obtain ⟨s', hs', hl'⟩ := h' data' email hd' (by rw [he, hemail])
  exact ⟨s, s', hs, hs', hl'.trans hl.symm⟩

/-! ## Agreement -/

/-- In every state of every run, with calls in flight or without, the emails agree
exactly if for every account the last calls to have reached the two stores were
given the same email. Between two such states with no change in Auth, calls that
ended in an error or stopped early have left both emails as they were. -/
theorem email_agreement (lowercased : String → String) {w : World} (h0 : EmailsAgree lowercased w.fb) {h : History}
    {p : Clients} (hr : (emailSystem lowercased).Run ⟨w, []⟩ h p) :
    (EmailsAgree lowercased p.state.fb ↔ ∀ uid, LastGivenSame uid lowercased w h) ∧
      ∀ uid h' p', (emailSystem lowercased).Run p h' p' → (∀ e ∈ h', AuthUnchanged e) →
        LastGivenSame uid lowercased w h → LastGivenSame uid lowercased w (h' ++ h) →
          p'.state.fb.emails uid = p.state.fb.emails uid ∧
            ∀ data data', p.state.fb.emails uid ≠ none → p.state.fb.userDocument uid = some data →
              p'.state.fb.userDocument uid = some data' → SameEmail lowercased data data' := by
  constructor
  · exact forall_congr' fun uid => match_iff_lastGivenSame h0 hr
  · intro uid h' p' hr' hk hsame hsame'
    have hp : (emailSystem lowercased).Reachable p := hr.reachable (.init ⟨h0, rfl⟩)
    have hemail := emails_kept hp hr' hk uid
    have hmatch := (match_iff_lastGivenSame h0 hr).mpr hsame
    have hmatch' := (match_iff_lastGivenSame h0 (hr.trans hr')).mpr hsame'
    exact ⟨hemail, fun data data' hu hd hd' => same_email hmatch hmatch' hemail hu hd hd'⟩

/-! ## Runs -/

def asciiLowercased (s : String) : String := String.ofList (s.toList.map Char.toLower)

theorem email_agreement_run :
    ∃ p : Clients, EmailsAgree asciiLowercased p.state.fb ∧ p.state.fb.emails ann = some "b@x.com" := by
  have hstart : EmailsAgree asciiLowercased World.start.fb := by
    intro uid d e hd he
    cases he
  have h0 : (emailSystem asciiLowercased).Run ⟨World.start, []⟩ [] ⟨World.start, []⟩ := .nil
  have h1 := h0.cons (.launch (M := accountsOf emailCalls) (i := annCall) ⟨trivial, rfl⟩)
  have h2 := h1.cons (.serve (l := []) (r := []) (a := .ok (some ann)) ⟨_, rfl, rfl⟩)
  have h3 := h2.cons (.serve (l := []) (r := []) (a := .ok "https://img/1") ⟨_, rfl, rfl⟩)
  have h4 := h3.cons (.serve (l := []) (r := []) (a := .ok (some "https://img/1")) ⟨_, rfl, rfl⟩)
  have h5 := h4.cons (.serve (l := []) (r := []) (a := none) ⟨_, rfl, rfl⟩)
  have h6 := h5.cons (.launch (M := accountsOf emailCalls) (i := ⟨0, .updateEmail annEmail⟩) ⟨trivial, rfl⟩)
  have h7 := h6.cons (.serve (l := [_]) (r := []) (a := none) ⟨_, rfl, rfl⟩)
  have h8 := h7.cons (.serve (l := [_]) (r := []) (a := some ann) ⟨_, rfl, rfl⟩)
  have h9 := h8.cons (.serve (l := [_]) (r := []) (a := none) ⟨_, rfl, rfl⟩)
  refine ⟨_, (email_agreement asciiLowercased hstart h9).1.mpr fun uid => ?_, rfl⟩
  by_cases hu : uid = ann
  · subst hu
    rfl
  · have hann : ann ≠ uid := Ne.symm hu
    have hdoc : FB.userDocument uid.1 ≠ some [FB.userCollection, "u1"] :=
      fun h => hu (FB.userDocument_inj (h.trans (FB.userDocument_uid ann).symm))
    unfold LastGivenSame
    rw [latest_eq_none.mpr, latest_eq_none.mpr]
    · trivial
    · simp only [List.forall_mem_cons, List.not_mem_nil, false_implies, implies_true, and_true]
      exact ⟨if_neg hann, rfl, rfl, rfl, rfl, rfl, rfl, if_neg hann, rfl⟩
    · simp only [List.forall_mem_cons, List.not_mem_nil, false_implies, implies_true, and_true]
      exact ⟨rfl, rfl, if_neg hdoc, rfl, if_neg hdoc, rfl, rfl, rfl, rfl⟩

/-- Auth refuses the email that the document has already been given. -/
theorem emails_disagree : ¬ ∀ p, (emailSystem asciiLowercased).Reachable p → p.Quiet →
    EmailsAgree asciiLowercased p.state.fb := by
  have h0 : (emailSystem asciiLowercased).Reachable ⟨⟨Firebase.withAnn, []⟩, [⟨annCall, .done⟩]⟩ := by
    refine reachable_withAnn trivial ?_
    intro uid d e hd he; cases he
  have h1 := h0.step (.launch (M := accountsOf emailCalls) (i := ⟨0, .updateEmail annEmail⟩) ⟨trivial, rfl⟩)
  have h2 := h1.step (.serve (l := [_]) (r := []) (a := none) ⟨_, rfl, rfl⟩)
  have h3 := h2.step (.serve (l := [_]) (r := []) (a := some ann) ⟨_, rfl, rfl⟩)
  have h4 := h3.step (.serve (l := [_]) (r := []) (a := some ⟨"requires recent login"⟩) ⟨_, rfl, rfl⟩)
  have h5 := h4.step (.deliver (l := [_]) (r := []) rfl)
  intro h
  obtain ⟨s, hs, he⟩ := h _ h5 (Pool.quiet_of_all rfl) ann _ _ rfl rfl
  have hs : some (Value.string "b@x.com") = some (.string s) := hs
  cases hs
  exact absurd he (by decide)

end ToDoList
