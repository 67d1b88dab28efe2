import ToDoList.Async.Latest
import ToDoList.History

/-!
# The stored profile image and the URL in the user document

An upload gives the object at `/profile_images/<uid>.jpg` a new download URL;
fetching it and writing it to the document are two more steps of the call.
The document has the right URL as long as no other upload comes in after the
fetch of the call that wrote it.
-/

namespace ToDoList

open Async

/-- What a document says about the image, if there is a document. -/
abbrev UrlField := Option (Option Value)

def UrlMatches (object : Option StoredObject) (field : UrlField) : Prop :=
  ∀ v, field = some v → ∃ o, object = some o ∧ v = some (.string o.url)

def Firebase.urlField (fb : Firebase) (uid : Uid) : UrlField :=
  (fb.userDocument uid).map fun data => data FB.userProfileImgUrl

def ImagesAgree (fb : Firebase) : Prop := ∀ uid : Uid, UrlMatches (fb.objects (FB.image uid.1)) (fb.urlField uid)

def imageCalls : Op → Prop
  | .createUser _ => True
  | .updateUserInfoWithImage info => Path.Segment info.id
  | _ => False

def Issued (fb : Firebase) : Prop := ∀ path o, fb.objects path = some o → o.url ∈ fb.issued

def imageSystem : System Clients Happening :=
  (accountsOf imageCalls).system fun w => ImagesAgree w.fb ∧ Issued w.fb

/-! ## Uploads, fetches and writes of a run -/

section
variable (uid : Uid)

/-- An upload that replaces the image of `uid`. -/
def Uploads : Happening → Prop
  | .serve _ _ (.putData object _ _) answer =>
    match answer with
    | .ok _ => object = FB.image uid.1
    | .error _ => False
  | _ => False

/-- The URL of the image of `uid` that call number `n` is told. -/
def urlToldTo (n : Nat) : Happening → Option String
  | .serve m _ (.downloadURL object) answer =>
    match answer with
    | .ok (some url) => if m = n ∧ object = FB.image uid.1 then some url else none
    | _ => none
  | _ => none

/-- The number of the call whose write of the document of `uid` takes effect,
and what it writes. -/
def writeBy : Happening → Option (Nat × Document)
  | .serve n _ (.setData docRef data _) error =>
    match error with
    | none => if FB.userDocument uid.1 = some docRef then some (n, data) else none
    | some _ => none
  | _ => none

/-- No upload has come in since the call that wrote the document last was told
its URL. Where no call has written it, there is no document or no upload. -/
def ToldLast (w : World) (h : History) : Prop :=
  match latest (writeBy uid) h with
  | some (n, _) => ∀ e ∈ since (urlToldTo uid n) h, ¬ Uploads uid e
  | none => w.fb.userDocument uid = none ∨ ∀ e ∈ h, ¬ Uploads uid e

end

/-! ## A replaced object has a new URL -/

def NewUrls (fb fb' : Firebase) : Prop :=
  fb.issued ⊆ fb'.issued ∧ ∀ path o, fb'.objects path = some o →
    fb.objects path = some o ∨ o.url ∉ fb.issued ∧ o.url ∈ fb'.issued

theorem NewUrls.refl (fb : Firebase) : NewUrls fb fb := ⟨fun _ h => h, fun _ _ h => .inl h⟩

theorem NewUrls.trans {fb fb' fb'' : Firebase} (h : NewUrls fb fb') (h' : NewUrls fb' fb'') : NewUrls fb fb'' := by
  refine ⟨fun x hx => h'.1 (h.1 hx), fun path o ho => ?_⟩
  rcases h'.2 path o ho with ho | ⟨hn, hi⟩
  · rcases h.2 path o ho with ho | ⟨hn, hi⟩
    · exact .inl ho
    · exact .inr ⟨hn, h'.1 hi⟩
  · exact .inr ⟨fun hx => hn (h.1 hx), hi⟩

theorem NewUrls.issued {fb fb' : Firebase} (h : NewUrls fb fb') (hi : Issued fb) : Issued fb' := by
  intro path o ho
  rcases h.2 path o ho with ho | ⟨_, ho⟩
  · exact h.1 (hi path o ho)
  · exact ho

theorem serve_newUrls {fb fb' : Firebase} {c : Client} {q : Request} {a : q.Answer}
    (h : fb.serve c q a = some fb') : NewUrls fb fb' := by
  cases q with
  | putData object data ct =>
    cases a with
    | error e => cases h; exact .refl _
    | ok url =>
      obtain ⟨hurl, rfl⟩ := Firebase.serve_putData h
      refine ⟨fun x hx => List.mem_cons_of_mem _ hx, fun path o ho => ?_⟩
      by_cases hp : path = object
      · subst hp
        simp only [Firebase.store_objects, Function.update_self, Option.some.injEq] at ho
        subst ho
        exact .inr ⟨hurl, List.mem_cons_self⟩
      · rw [Firebase.store_objects, Function.update_of_ne hp] at ho
        exact .inl ho
  | _ =>
    have hobj := Firebase.serve_objects h (by simp)
    refine ⟨?_, fun path o ho => .inl (by rwa [hobj] at ho)⟩
    simp only [Firebase.serve] at h
    repeat' split at h
    all_goals cases h
    all_goals exact fun _ h => h

section
variable {p p' : Clients} {e : Happening} {h : History} {uid : Uid}

theorem step_newUrls (hs : (accountsOf imageCalls).Step p e p') : NewUrls p.state.fb p'.state.fb := by
  cases hs with
  | launch hl => obtain ⟨_, rfl⟩ := hl; exact .refl _
  | deliver hd => cases hd; exact .refl _
  | serve hs => obtain ⟨fb, hs, rfl⟩ := hs; exact serve_newUrls hs
  | @env w e w' ts he =>
    obtain ⟨_, _, hobj, hi⟩ := World.ambient_fb he
    exact ⟨by rw [hi]; exact fun _ h => h, fun path o ho => .inl (by rwa [hobj] at ho)⟩

theorem run_newUrls (hr : imageSystem.Run p h p') : NewUrls p.state.fb p'.state.fb := by
  induction hr with
  | nil => exact .refl _
  | cons _ hst ih => exact ih.trans (step_newUrls hst)

theorem issued_of_reachable (hp : imageSystem.Reachable p) : Issued p.state.fb := by
  induction hp with
  | init hi => exact hi.1.2
  | step _ hs ih => exact (step_newUrls hs).issued ih

def Firebase.imageUrl (fb : Firebase) (uid : Uid) : Option String := (fb.objects (FB.image uid.1)).map (·.url)

theorem imageUrl_step (uid : Uid) (hst : (accountsOf imageCalls).Step p e p') :
    (¬ Uploads uid e ∧ p'.state.fb.imageUrl uid = p.state.fb.imageUrl uid) ∨
      (Uploads uid e ∧ ∃ url ∉ p.state.fb.issued, p'.state.fb.imageUrl uid = some url) := by
  cases hst with
  | launch hl => obtain ⟨_, rfl⟩ := hl; exact .inl ⟨fun h => h, rfl⟩
  | env he =>
    refine .inl ⟨fun h => h, ?_⟩
    rw [Firebase.imageUrl, (World.ambient_fb he).2.2.1]
    rfl
  | deliver hd => cases hd; exact .inl ⟨fun h => h, rfl⟩
  | @serve w call q a k w' l r hs =>
    obtain ⟨fb, hs, rfl⟩ := hs
    cases q with
    | putData object data ct =>
      cases a with
      | error e => cases hs; exact .inl ⟨fun h => h, rfl⟩
      | ok url =>
        obtain ⟨hurl, rfl⟩ := Firebase.serve_putData hs
        unfold Firebase.imageUrl
        by_cases hp : object = FB.image uid.1
        · subst hp
          exact .inr ⟨rfl, url, hurl, by simp⟩
        · refine .inl ⟨hp, ?_⟩
          simp only [Firebase.store_objects, Function.update_of_ne (Ne.symm hp)]
    | _ =>
      refine .inl ⟨fun h => h, ?_⟩
      rw [Firebase.imageUrl, Firebase.serve_objects hs (by simp)]
      rfl

/-- A URL that has been given out is the image's as long as no upload replaces it. -/
theorem imageUrl_iff {url : String} (hr : imageSystem.Run p h p') (hurl : p.state.fb.imageUrl uid = some url)
    (hi : url ∈ p.state.fb.issued) :
    p'.state.fb.imageUrl uid = some url ↔ ∀ e ∈ h, ¬ Uploads uid e := by
  induction hr with
  | nil => simp [hurl]
  | @cons h m e m' hr hst ih =>
    rw [List.forall_mem_cons]
    rcases imageUrl_step uid hst with ⟨hno, hsame⟩ | ⟨hup, new, hnew, heq⟩
    · rw [hsame, ih]
      exact (and_iff_right hno).symm
    · refine iff_of_false ?_ fun h => h.1 hup
      rw [heq]
      intro hsame
      cases hsame
      exact hnew ((run_newUrls hr).1 hi)

end

/-! ## A call writes the URL it was told -/

section
variable {h : History} {n : Nat} {t : CallTask}

def Wrote (h : History) (n : Nat) (uid : Uid) (data : Document) : Prop := ∃ e ∈ h, writeBy uid e = some (n, data)

def Told (h : History) (n : Nat) (uid : Uid) (data : Document) : Prop :=
  ∃ url, data FB.userProfileImgUrl = some (.string url) ∧ latest (urlToldTo uid n) h = some url

structure WritesTold (h : History) (n : Nat) (t : CallTask) : Prop where
  code : At t.tag.op t.chain
  awaits : ∀ docRef data merge, t.chain.awaits = some (.setData docRef data merge) →
    ∃ uid : Uid, docRef = [FB.userCollection, uid.1] ∧ Told h n uid data
  wrote : ∀ uid data, Wrote h n uid data → t.chain.awaits = none ∧ Told h n uid data

theorem writeBy_number {uid : Uid} {e : Happening} {data : Document} (he : writeBy uid e = some (n, data)) :
    Machine.eventNumber e = some n := by
  unfold writeBy at he
  repeat' split at he
  all_goals cases he
  rfl

theorem urlToldTo_of_number {uid : Uid} {e : Happening} (he : Machine.eventNumber e ≠ some n) :
    urlToldTo uid n e = none := by
  unfold urlToldTo
  repeat' split
  · rename_i hn
    obtain ⟨rfl, _⟩ := hn
    exact absurd rfl he
  all_goals rfl

theorem told_cons {uid : Uid} {e : Happening} {data : Document} (he : urlToldTo uid n e = none) :
    Told (e :: h) n uid data ↔ Told h n uid data := by
  unfold Told
  rw [latest_cons, he, Option.none_or]

end

theorem body_awaits {op : Op} (hcall : imageCalls op) (docRef : Segments) (data : Document) (merge : Bool) :
    op.body.awaits ≠ some (.setData docRef data merge) := by
  cases op with
  | createUser info => simp [Op.body, RegistrationService.createUser]
  | updateUserInfoWithImage info =>
    simp only [Op.body, UserViewModel.updateUserInfoWithImage]
    split
    · exact fun h => by cases h
    · split <;> exact fun h => by cases h
  | _ => cases hcall

section
variable {h : History} {n : Nat} {c : Client} {op : Op} {q : Request} {a : q.Answer} {k : q.Answer → Callbacks}

theorem told_of_awaits (hcall : imageCalls op) (hat : At op (.call q k)) {docRef : Segments} {data : Document}
    {merge : Bool} (ha : (k a).awaits = some (.setData docRef data merge)) :
    ∃ uid : Uid, docRef = [FB.userCollection, uid.1] ∧ Told (.serve n ⟨c, op⟩ q a :: h) n uid data := by
  cases hat with
  | register info =>
    cases a using answer_cases with
    | error e => cases ha
    | nil => cases ha
    | value newUser =>
      simp only [RegistrationService.userCreated] at ha
      split at ha <;> cases ha
  | registerImage info newUser img hd => cases a <;> cases ha
  | registerUrl info newUser =>
    cases a using answer_cases with
    | error e => cases ha
    | nil => cases ha
    | value url =>
      simp only [RegistrationService.urlDownloaded, RegistrationService.createDocument_eq] at ha
      cases ha
      exact ⟨newUser, rfl, url, rfl, by rw [latest_cons]; simp [urlToldTo]⟩
  | registerWrite info newUser url => cases a <;> cases ha
  | imageUpload info img data hi hd => cases a <;> cases ha
  | imageUrl info =>
    cases a using answer_cases with
    | error e => cases ha
    | nil => cases ha
    | value url =>
      have hdoc : FB.userDocument info.id = some [FB.userCollection, info.id] :=
        FB.userDocument_uid ⟨info.id, hcall⟩
      simp only [UserViewModel.urlDownloaded, hdoc] at ha
      cases ha
      exact ⟨⟨info.id, hcall⟩, rfl, url, rfl, by rw [latest_cons]; simp [urlToldTo]⟩
  | imageWrite info docRef url hd => cases a <;> cases ha
  | _ => cases hcall

theorem wrote_of_write (hcall : imageCalls op) (hat : At op (.call q k)) (hk : WritesTold h n ⟨⟨c, op⟩, .call q k⟩)
    {uid : Uid} {data : Document} (hwrite : writeBy uid (.serve n ⟨c, op⟩ q a) = some (n, data)) :
    (k a).awaits = none ∧ Told (.serve n ⟨c, op⟩ q a :: h) n uid data := by
  cases q with
  | setData docRef d merge =>
    cases a with
    | some e => cases hwrite
    | none =>
      have hend : (k none).awaits = none := by
        cases hat with
        | registerWrite => rfl
        | imageWrite => rfl
        | emailWrite => cases hcall
        | infoWrite => rfl
      simp only [writeBy] at hwrite
      split at hwrite
      · rename_i hu
        cases hwrite
        obtain ⟨v, rfl, htold⟩ := hk.awaits docRef data merge rfl
        obtain rfl : uid = v := FB.userDocument_inj (hu.trans (FB.userDocument_uid v).symm)
        exact ⟨hend, (told_cons rfl).mpr htold⟩
      · cases hwrite
  | _ => cases hwrite

end

theorem writesTold_rules :
    (accountsOf imageCalls).NumberedRules fun h n t => imageCalls t.tag.op → WritesTold h n t where
  other := by
    intro h n t e he hp hcall
    have hk := hp hcall
    have htold : ∀ uid data, Told h n uid data → Told (e :: h) n uid data :=
      fun uid _ => (told_cons (urlToldTo_of_number he)).mpr
    refine ⟨hk.code, ?_, ?_⟩
    · intro docRef data merge ha
      obtain ⟨uid, hdoc, ht⟩ := hk.awaits docRef data merge ha
      exact ⟨uid, hdoc, htold uid data ht⟩
    · intro uid data hw
      obtain ⟨x, hx, hwrite⟩ := hw
      rcases List.mem_cons.mp hx with rfl | hx
      · exact absurd (writeBy_number hwrite) he
      · obtain ⟨ha, ht⟩ := hk.wrote uid data ⟨x, hx, hwrite⟩
        exact ⟨ha, htold uid data ht⟩
  launch := by
    intro h n call hnone hcall
    refine ⟨At.body call.op, ?_, ?_⟩
    · intro docRef data merge ha
      exact absurd ha (body_awaits hcall docRef data merge)
    · intro uid data hw
      obtain ⟨x, hx, hwrite⟩ := hw
      exact absurd (writeBy_number hwrite) (hnone x hx)
  serve := by
    intro h n call q a k hp hcall
    have hk := hp hcall
    obtain ⟨c, op⟩ := call
    have hat : At op (.call q k) := hk.code
    have hunwritten : ∀ uid data, ¬ Wrote h n uid data := fun uid data hw => by cases (hk.wrote uid data hw).1
    refine ⟨hat.answer a, ?_, ?_⟩
    · intro docRef data merge ha
      exact told_of_awaits hcall hat ha
    · intro uid data hw
      obtain ⟨x, hx, hwrite⟩ := hw
      rcases List.mem_cons.mp hx with rfl | hx
      · exact wrote_of_write hcall hat hk hwrite
      · exact absurd ⟨x, hx, hwrite⟩ (hunwritten uid data)
  deliver := by
    intro h n call x k hp hcall
    have hk := hp hcall
    have hdone : k = .done := At.report hk.code
    subst hdone
    refine ⟨At.done _, fun _ _ _ ha => (by cases ha), ?_⟩
    intro uid data hw
    obtain ⟨y, hy, hwrite⟩ := hw
    rcases List.mem_cons.mp hy with rfl | hy
    · cases hwrite
    · exact ⟨rfl, (told_cons rfl).mpr (hk.wrote uid data ⟨y, hy, hwrite⟩).2⟩

section
variable {w : World} {h : History} {p p' : Clients} {e : Happening} {n : Nat} {uid : Uid} {data : Document}

theorem told_of_wrote (hr : imageSystem.recorded.Reachable (p, h)) (hw : Wrote h n uid data) :
    Told h n uid data := by
  obtain ⟨e, he, hwrite⟩ := hw
  have hlt : n < p.tasks.length := Machine.numbers_lt hr e he n (writeBy_number hwrite)
  have hcall : imageCalls (p.tasks[n]).tag.op := ops_of_reachable hr.of_recorded (List.getElem_mem hlt)
  have hk := writesTold_rules.holds hr n _ (List.getElem?_eq_getElem hlt) hcall
  exact (hk.wrote uid data ⟨e, he, hwrite⟩).2

theorem writeBy_of_other (he : ∀ n call docRef data merge, e ≠ .serve n call (.setData docRef data merge) none) :
    writeBy uid e = none := by
  cases e with
  | serve n call q a =>
    cases q with
    | setData docRef data merge =>
      cases a with
      | some error => rfl
      | none => exact absurd rfl (he n call docRef data merge)
    | _ => rfl
  | _ => rfl

theorem urlField_step (hr : imageSystem.Reachable p) (hst : imageSystem.step p e p') :
    p'.state.fb.urlField uid =
      ((writeBy uid e).map fun x => x.2 FB.userProfileImgUrl).or (p.state.fb.urlField uid) := by
  apply field_step (g := fun e => (writeBy uid e).map fun x => x.2 FB.userProfileImgUrl) hr hst
  · intro n c op docRef data merge k hcall hat
    have hwrite : ∀ value, data FB.userProfileImgUrl = some value → ∃ value,
        data FB.userProfileImgUrl = some value ∧
          ((writeBy uid (.serve n ⟨c, op⟩ (.setData docRef data merge) none)).map
            fun x => x.2 FB.userProfileImgUrl) =
            if FB.userDocument uid.1 = some docRef then some (some value) else none := by
      intro value hdata
      refine ⟨_, hdata, ?_⟩
      unfold writeBy
      by_cases hu : FB.userDocument uid.1 = some docRef
      · simp [hu, hdata]
      · simp [hu]
    cases hat with
    | registerWrite info newUser url => exact hwrite _ rfl
    | imageWrite info docRef url hd => exact hwrite _ rfl
    | emailWrite => cases hcall
    | infoWrite => cases hcall
  · intro he
    rw [writeBy_of_other he]
    rfl

theorem imageUrl_told {url : String} (hst : (accountsOf imageCalls).Step p e p')
    (he : urlToldTo uid n e = some url) :
    p'.state.fb.imageUrl uid = some url := by
  cases hst with
  | @serve w call q a k w' l r hs =>
    obtain ⟨fb, hs, rfl⟩ := hs
    cases q with
    | downloadURL object =>
      cases a using answer_cases with
      | error e => cases he
      | nil => cases he
      | value url' =>
        obtain ⟨hurl, rfl⟩ := Firebase.serve_downloadURL hs
        simp only [urlToldTo] at he
        split at he
        · rename_i hn
          cases he
          rw [hn.2] at hurl
          exact hurl
        · cases he
    | _ => cases he
  | _ => cases he

theorem urlMatches_iff {object : Option StoredObject} {url : String} :
    UrlMatches object (some (some (.string url))) ↔ object.map (·.url) = some url := by
  constructor
  · intro h
    obtain ⟨o, ho, hurl⟩ := h _ rfl
    cases hurl
    rw [ho]
    rfl
  · intro h v hv
    cases hv
    obtain ⟨o, ho, rfl⟩ := Option.map_eq_some_iff.mp h
    exact ⟨o, ho, rfl⟩

theorem match_iff_toldLast (h0 : ImagesAgree w.fb ∧ Issued w.fb) (hr : imageSystem.Run ⟨w, []⟩ h p) :
    UrlMatches (p.state.fb.objects (FB.image uid.1)) (p.state.fb.urlField uid) ↔ ToldLast uid w h := by
  have hinit : imageSystem.Reachable ⟨w, []⟩ := .init ⟨h0, rfl⟩
  have hfield : p.state.fb.urlField uid =
      ((latest (writeBy uid) h).map fun x => x.2 FB.userProfileImgUrl).or (w.fb.urlField uid) := by
    rw [← latest_map]
    exact hr.latest hinit fun _ _ _ => urlField_step
  unfold ToldLast
  rw [hfield]
  cases hlast : latest (writeBy uid) h with
  | none =>
    simp only [Option.map_none, Option.none_or]
    cases hdoc : w.fb.userDocument uid with
    | none => simp [Firebase.urlField, hdoc, UrlMatches]
    | some data =>
      obtain ⟨o, ho, hurl⟩ := h0.1 uid (data FB.userProfileImgUrl) (by simp [Firebase.urlField, hdoc])
      have hstart : w.fb.imageUrl uid = some o.url := by simp [Firebase.imageUrl, ho]
      simp only [Firebase.urlField, hdoc, Option.map_some, hurl, reduceCtorEq, false_or]
      exact urlMatches_iff.trans (imageUrl_iff hr hstart (h0.2 _ o ho))
  | some x =>
    obtain ⟨n, data⟩ := x
    obtain ⟨e, he, hwrite⟩ := List.exists_of_findSome?_eq_some hlast
    obtain ⟨url, hurl, htold⟩ := told_of_wrote (hr.recorded ⟨h0, rfl⟩) ⟨e, he, hwrite⟩
    obtain ⟨x, h', hh, hx⟩ := latest_since htold
    rw [hh] at hr
    obtain ⟨m, m', hm, hst, hl⟩ := hr.event
    have hnow := imageUrl_told hst hx
    have hissued : url ∈ m'.state.fb.issued := by
      obtain ⟨o, ho, rfl⟩ := Option.map_eq_some_iff.mp hnow
      exact issued_of_reachable ((hm.reachable hinit).step hst) _ o ho
    simp only [Option.map_some, Option.some_or, hurl]
    exact urlMatches_iff.trans (imageUrl_iff hl hnow hissued)

end

/-! ## Agreement -/

/-- In every state of every run, with calls in flight or without, the URLs agree
exactly if no upload came in after the last fetch of the call that wrote the
document. Between two such states no image has been replaced behind a document
that still holds the old URL. -/
theorem image_agreement {w : World} (h0 : ImagesAgree w.fb ∧ Issued w.fb) {h : History} {p : Clients}
    (hr : imageSystem.Run ⟨w, []⟩ h p) :
    (ImagesAgree p.state.fb ↔ ∀ uid, ToldLast uid w h) ∧
      ∀ uid h' p', imageSystem.Run p h' p' → ToldLast uid w h → ToldLast uid w (h' ++ h) → ∀ o o',
        p.state.fb.objects (FB.image uid.1) = some o → p'.state.fb.objects (FB.image uid.1) = some o' → o' ≠ o →
          p'.state.fb.urlField uid ≠ none → p'.state.fb.urlField uid ≠ p.state.fb.urlField uid := by
  refine ⟨forall_congr' fun uid => match_iff_toldLast h0 hr, ?_⟩
  intro uid h' p' hr' htold htold' o o' ho ho' hne hfield heq
  have hagree := (match_iff_toldLast h0 hr).mpr htold
  have hagree' := (match_iff_toldLast h0 (hr.trans hr')).mpr htold'
  obtain ⟨v, hv⟩ := Option.ne_none_iff_exists'.mp hfield
  obtain ⟨x, hx, hurl⟩ := hagree v (heq ▸ hv)
  obtain ⟨x', hx', hurl'⟩ := hagree' v hv
  obtain rfl : o = x := Option.some.inj (ho.symm.trans hx)
  obtain rfl : o' = x' := Option.some.inj (ho'.symm.trans hx')
  have hsame : o'.url = o.url := by
    rw [hurl'] at hurl
    simpa using hurl
  rcases (run_newUrls hr').2 _ _ ho' with h' | ⟨hfresh, _⟩
  · rw [ho] at h'
    exact hne (Option.some.inj h').symm
  · rw [hsame] at hfresh
    exact hfresh (issued_of_reachable (hr.reachable (.init ⟨h0, rfl⟩)) _ _ ho)

/-! ## Runs -/

theorem userDocument_withAnn {uid : Uid} (hu : uid ≠ ann) : Firebase.withAnn.userDocument uid = none := by
  have hp : [FB.userCollection, uid.1] ≠ [FB.userCollection, ann.1] := by
    simpa [Subtype.ext_iff] using hu
  rw [Firebase.userDocument_eq, Firebase.withAnn, Firebase.write_documents, Function.update_of_ne hp]
  rfl

theorem imagesAgree_withAnn : ImagesAgree Firebase.withAnn ∧ Issued Firebase.withAnn := by
  constructor
  · intro uid v hv
    have hu : uid = ann := by
      by_contra hne
      rw [Firebase.urlField, userDocument_withAnn hne] at hv
      cases hv
    subst hu
    refine ⟨annImage, rfl, ?_⟩
    cases hv; rfl
  · intro path o ho
    by_cases hp : path = FB.image ann.1
    · subst hp; cases ho; decide
    · rw [Firebase.withAnn, Firebase.write_objects, Firebase.store_objects, Function.update_of_ne hp] at ho
      cases ho

theorem image_agreement_run :
    ∃ p : Clients, ImagesAgree p.state.fb ∧ p.state.fb.urlField ann = some (some (.string "https://img/2")) := by
  have h0 : imageSystem.Run ⟨⟨Firebase.withAnn, []⟩, []⟩ [] ⟨⟨Firebase.withAnn, []⟩, []⟩ := .nil
  have h1 := h0.cons (.launch (M := accountsOf imageCalls) (i := ⟨0, .updateUserInfoWithImage annPicture⟩)
    ⟨show Path.Segment "u1" by decide, rfl⟩)
  have h2 := h1.cons (.serve (l := []) (r := []) (a := .ok "https://img/2") ⟨_, rfl, rfl⟩)
  have h3 := h2.cons (.serve (l := []) (r := []) (a := .ok (some "https://img/2")) ⟨_, rfl, rfl⟩)
  have h4 := h3.cons (.serve (l := []) (r := []) (a := none) ⟨_, rfl, rfl⟩)
  refine ⟨_, (image_agreement imagesAgree_withAnn h4).1.mpr fun uid => ?_, rfl⟩
  by_cases hu : uid = ann
  · subst hu
    intro e he
    obtain rfl := List.mem_singleton.mp he
    exact id
  · unfold ToldLast
    rw [latest_eq_none.mpr]
    · exact .inl (userDocument_withAnn hu)
    · have hdoc : FB.userDocument uid.1 ≠ some [FB.userCollection, "u1"] :=
        fun h => hu (FB.userDocument_inj (h.trans (FB.userDocument_uid ann).symm))
      simp only [List.forall_mem_cons, List.not_mem_nil, false_implies, implies_true, and_true]
      exact ⟨if_neg hdoc, rfl, rfl, rfl⟩

/-- The image is replaced and its URL is never fetched. -/
theorem image_left_behind : ¬ ∀ p, imageSystem.Reachable p → p.Quiet → ImagesAgree p.state.fb := by
  have h0 : imageSystem.Reachable ⟨⟨Firebase.withAnn, []⟩, [⟨annCall, .done⟩]⟩ := by
    refine reachable_withAnn trivial ⟨?_, ?_⟩
    · intro uid v hv
      rw [Firebase.urlField, Firebase.userDocument_eq] at hv
      cases hv
    · intro path o ho; cases ho
  have h1 := h0.step (.launch (M := accountsOf imageCalls) (i := ⟨0, .updateUserInfoWithImage annPicture⟩)
    ⟨show Path.Segment "u1" by decide, rfl⟩)
  have h2 := h1.step (.serve (l := [_]) (r := []) (a := .ok "https://img/2") ⟨_, rfl, rfl⟩)
  have h3 := h2.step (.serve (l := [_]) (r := []) (a := .error ⟨"timed out"⟩) ⟨_, rfl, rfl⟩)
  have h4 := h3.step (.deliver (l := [_]) (r := []) rfl)
  intro h
  obtain ⟨o, ho, hv⟩ := h _ h4 (Pool.quiet_of_all rfl) ann _ rfl
  have ho : some (StoredObject.mk [2] FB.imageContentType "https://img/2") = some o := ho
  cases ho
  have hv : some (Value.string "https://img/1") = some (.string "https://img/2") := hv
  exact absurd hv (by decide)

end ToDoList
