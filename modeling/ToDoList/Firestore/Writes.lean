import ToDoList.Firestore.Session

/-!
# Writes reach the backend

What holds of every session, whatever the backend, the network and the user do.
-/

namespace ToDoList

namespace Firestore

open MutationQueue LawfulMutationQueue

namespace Session

open FirestoreClient

variable {Q : Type} [LawfulMutationQueue Q] {s s' : Session Q}

/-! ## Runs -/

theorem next_none_iff (h : s.client.Settled) {event : ClientEvent} (he : s.Enabled event) :
    s.next event = none ↔ (event = .finish none ∧ s.client.waiting s.client.currentUser ≠ []) ∨
      ∃ response, event = .unexpected response := by
  by_cases hamiss : ∃ response, event = .unexpected response
  · obtain ⟨response, rfl⟩ := hamiss
    exact ⟨fun _ => .inr ⟨response, rfl⟩, fun _ => next_unexpected h he⟩
  by_cases hends : event = .finish none ∧ s.client.waiting s.client.currentUser ≠ []
  · obtain ⟨rfl, hne⟩ := hends
    have hopen : s.client.writeStream.isOpen = true := by
      rw [h.linked.isOpen]
      exact he
    have hclose := (close_ok_eq_none h hopen).mpr hne
    have hnone : s.next (.finish none) = none := by
      show (s.client.close none).map _ = none
      rw [hclose]
      rfl
    exact ⟨fun _ => .inl ⟨rfl, hne⟩, fun _ => hnone⟩
  · have hok : event = .finish none → s.client.waiting s.client.currentUser = [] := by
      intro hevent
      by_contra hne
      exact hends ⟨hevent, hne⟩
    obtain ⟨s', hnext, _⟩ := next_spec h he hok fun response hevent => hamiss ⟨response, hevent⟩
    rw [hnext]
    exact ⟨fun hnone => (by cases hnone), fun hfails => absurd hfails (not_or.mpr ⟨hends, hamiss⟩)⟩

theorem next_of_step (h : s.client.Settled) {event : ClientEvent} (hst : (sessions Q).step s event s') :
    Next s event s' := by
  obtain ⟨he, hnext⟩ := hst
  have hnot : ¬ ((event = .finish none ∧ s.client.waiting s.client.currentUser ≠ []) ∨
      ∃ response, event = .unexpected response) := by
    intro hfails
    rw [(next_none_iff h he).mpr hfails] at hnext
    cases hnext
  have hok : event = .finish none → s.client.waiting s.client.currentUser = [] := by
    intro hevent
    by_contra hne
    exact hnot (.inl ⟨hevent, hne⟩)
  obtain ⟨s'', hnext', hspec⟩ := next_spec h he hok fun response hevent => hnot (.inr ⟨response, hevent⟩)
  rw [hnext, Option.some.injEq] at hnext'
  exact hnext' ▸ hspec

theorem settled_of_reachable (hr : (sessions Q).Reachable s) : s.client.Settled := by
  apply Async.System.Invariant.holds (I := fun s : Session Q => s.client.Settled) _ hr
  constructor
  · rintro s ⟨hnew, hready, _⟩
    rw [hnew] at hready ⊢
    exact new_settled hready
  · intro s event s' h hst
    exact (next_of_step h hst).settled

theorem delivery_of_reachable (hr : (sessions Q).Reachable s) : deliveries.Reachable s.delivery := by
  apply hr.view
  · rintro s ⟨hnew, _, hwritten, hcommitted⟩
    unfold delivery
    rw [hwritten, hcommitted, hnew]
    refine ⟨rfl, rfl, rfl, rfl, ?_⟩
    intro u entry hmem
    obtain ⟨batch, _, rfl⟩ := List.mem_map.mp hmem
    rfl
  · intro s event s' hr hst
    exact (next_of_step (settled_of_reachable hr) hst).delivery

theorem good_of_reachable (hr : (sessions Q).Reachable s) : Async.Delivery.Good s.delivery :=
  Async.Delivery.good_of_reachable (delivery_of_reachable hr).unrestrict

theorem steps_of_run (ok : Session Q → ClientEvent → Session Q → Prop) {events : List ClientEvent}
    (h : run events s = some s') (hok : ∀ event ∈ events, ∀ t t', ok t event t') : (sessions Q).Steps ok s s' := by
  induction events generalizing s with
  | nil =>
    cases h
    exact .refl
  | cons event events ih =>
    unfold run at h
    by_cases he : s.Enabled event
    · rw [if_pos he] at h
      obtain ⟨t, hnext, hrest⟩ := Option.bind_eq_some_iff.mp h
      exact .head ⟨event, ⟨he, hnext⟩, hok event (by simp) s t⟩ (ih hrest fun e hmem => hok e (by simp [hmem]))
    · rw [if_neg he] at h
      cases h

theorem reachable_of_run (hr : (sessions Q).Reachable s) {events : List ClientEvent} (h : run events s = some s') :
    (sessions Q).Reachable s' :=
  (steps_of_run (fun _ _ _ => True) h fun _ _ _ _ => trivial).reachable hr

def annSession : Session MemoryPersistence := ⟨.new LocalStore.annStore (some "ann"), [], []⟩

theorem annSession_reachable : (sessions MemoryPersistence).Reachable annSession :=
  .init ⟨rfl, ⟨LocalStore.annStore_valid, rfl⟩, rfl, rfl⟩

theorem annSession_run (events : List ClientEvent) (p : Session MemoryPersistence → Bool)
    (h : (run events annSession).any p = true) :
    ∃ s, (sessions MemoryPersistence).Reachable s ∧ run events annSession = some s ∧ p s = true := by
  obtain ⟨s, hs, hp⟩ := (Option.any_eq_true _ _).mp h
  exact ⟨s, reachable_of_run annSession_reachable hs, hs, hp⟩

def committedAt (version : SnapshotVersion) : WriteResponse := ⟨[], version, [⟨version⟩]⟩

def annWrites : List ClientEvent :=
  [.enableNetwork, .write annUsernameBatch.mutations, .credentials 0 none, .respond (committedAt 1), .read]

/-! ## Assertions -/

theorem pipeline_sends_queue (hr : (sessions Q).Reachable s) :
    s.client.writePipeline =
      (if s.client.isNetworkEnabled then s.client.localStore.pending.take kMaxPendingWrites else []) ∧
      s.client.writeStream.isOpen = s.client.writeStream.grpcStream.isSome ∧
      (∀ grpcStream ∈ s.client.writeStream.grpcStream, grpcStream.requests.map WriteRequest.writes =
        if s.client.writeStream.handshakeComplete then s.client.writePipeline.map fun batch => some batch.mutations
        else [none]) ∧
      (s.client.writePipeline ≠ [] → s.client.writeStream.isStarted = true) := by
  have h := settled_of_reachable hr
  refine ⟨h.pipeline, h.linked.isOpen, ?_, ?_⟩
  · intro g hg
    by_cases hshake : s.client.writeStream.handshakeComplete = true
    · rw [if_pos hshake]
      exact h.linked.writing g hg hshake
    · rw [if_neg hshake]
      exact h.linked.shaking g hg (by simpa using hshake)
  · intro hne
    rw [h.pipeline] at hne
    apply h.needed _ hne
    by_contra hnetwork
    exact hne (if_neg hnetwork)

theorem pipeline_sends_queue_ann : ∃ s, (sessions MemoryPersistence).Reachable s ∧
    s.client.writePipeline.map (·.mutations.length) = [1] ∧
      s.client.writeStream.isOpen = s.client.writeStream.grpcStream.isSome := by
  obtain ⟨s, hr, _, hp⟩ := annSession_run annWrites
    (fun s => decide (s.client.writePipeline.map (·.mutations.length) = [1])) (by decide)
  exact ⟨s, hr, of_decide_eq_true hp, (pipeline_sends_queue hr).2.1⟩

/-! ## Callbacks -/

/-- Each callback is invoked at most once. Those of a user are invoked in the
order of the writes, and the writes whose callbacks are left wait unchanged. -/
theorem callbacks_in_order (hr : (sessions Q).Reachable s) :
    (s.client.invoked.map Prod.fst).Nodup ∧
      ∀ u, Async.Delivery.callsOf s.written u =
          ((s.client.invoked.map Prod.fst).filter fun n => (s.written[n]?).map Prod.fst = some u) ++
            (s.client.waiting u).filterMap Prod.fst ∧
        ∀ entry ∈ s.client.waiting u, ∀ n ∈ entry.1, s.written[n]? = some (u, entry.2) :=
  have hgood := good_of_reachable hr
  ⟨hgood.reported_nodup, fun u => ⟨hgood.calls u, hgood.carried u⟩⟩

theorem callbacks_in_order_ann : ∃ s, (sessions MemoryPersistence).Reachable s ∧ s.written.length = 2 ∧
    s.client.invoked.map Prod.fst = [0] ∧ (s.client.invoked.map Prod.fst).Nodup := by
  obtain ⟨s, hr, _, hp⟩ := annSession_run
    (annWrites ++ [.write annEmailBatch.mutations, .respond (committedAt 7), .read])
    (fun s => decide (s.written.length = 2 ∧ s.client.invoked.map Prod.fst = [0])) (by decide)
  have hp := of_decide_eq_true hp
  exact ⟨s, hr, hp.1, hp.2, (callbacks_in_order hr).1⟩

/-- A callback is told of success once its write has been committed as it was
written, and of an error only if the error is permanent. -/
theorem callbacks_truthful (hr : (sessions Q).Reachable s) {n : Nat} {status : Status}
    (hn : (n, status) ∈ s.client.invoked) :
    match status with
    | none => ∃ u writes, s.written[n]? = some (u, writes) ∧ (some n, writes) ∈ s.committed
    | some error => Datastore.isPermanentWriteError (some error) = some true := by
  have hgood := good_of_reachable hr
  cases status with
  | none =>
    have hsucceeded : n ∈ s.delivery.succeeded := by
      unfold Async.Delivery.State.succeeded
      exact List.mem_map.mpr ⟨(n, none), List.mem_filter.mpr ⟨hn, rfl⟩, rfl⟩
    obtain ⟨entry, hentry, hcall⟩ := hgood.committed_of_succeeded hsucceeded
    obtain ⟨⟨u, writes⟩, hwritten, hwrites⟩ := Option.map_eq_some_iff.mp (hgood.committed entry hentry n hcall)
    refine ⟨u, writes, hwritten, ?_⟩
    have hentry' : entry = (some n, writes) := Prod.ext hcall hwrites.symm
    rw [← hentry']
    exact hentry
  | some error =>
    exact Async.Delivery.reported_errors _ (delivery_of_reachable hr) _ hn error rfl

theorem callbacks_truthful_ann : ∃ s, (sessions MemoryPersistence).Reachable s ∧
    Datastore.isPermanentWriteError (some .permissionDenied) = some true ∧
    (0, some Error.permissionDenied) ∈ s.client.invoked := by
  obtain ⟨s, hr, _, hp⟩ := annSession_run (annWrites ++ [.finish (some .permissionDenied)])
    (fun s => decide ((0, some Error.permissionDenied) ∈ s.client.invoked)) (by decide)
  have hmem := of_decide_eq_true hp
  exact ⟨s, hr, callbacks_truthful hr hmem, hmem⟩

/-! ## Every write can be delivered -/

/-- A backend that answers every request, tokens that are accepted, and the clock. -/
def Answering : ClientEvent → Prop
  | .credentials _ maybeToken => maybeToken = none
  | .backoffElapsed => True
  | .respond _ => True
  | .read => True
  | _ => False

structure Advances (s s' : Session Q) (entries : List (Option Nat × List Mutation))
    (reports : List (Nat × Status)) : Prop where
  steps : (sessions Q).Steps (fun _ event _ => Answering event) s s'
  settled : s'.client.Settled
  user : s'.client.currentUser = s.client.currentUser
  network : s'.client.isNetworkEnabled = s.client.isNetworkEnabled
  written : s'.written = s.written
  waiting : s'.client.waiting s.client.currentUser = entries
  invoked : s'.client.invoked = s.client.invoked ++ reports

section
variable {entries : List (Option Nat × List Mutation)} {reports : List (Nat × Status)}

theorem Advances.refl (h : s.client.Settled) : Advances s s (s.client.waiting s.client.currentUser) [] :=
  ⟨.refl, h, rfl, rfl, rfl, rfl, (List.append_nil _).symm⟩

theorem Advances.trans {s₁ s₂ : Session Q} {entries' : List (Option Nat × List Mutation)}
    {reports' : List (Nat × Status)}
    (h : Advances s s₁ entries reports) (h' : Advances s₁ s₂ entries' reports') :
      Advances s s₂ entries' (reports ++ reports') where
  steps := h.steps.trans h'.steps
  settled := h'.settled
  user := h'.user.trans h.user
  network := h'.network.trans h.network
  written := h'.written.trans h.written
  waiting := by rw [← h'.waiting, h.user]
  invoked := by rw [h'.invoked, h.invoked, List.append_assoc]

theorem Advances.of_outcome {event : ClientEvent} {before client' : FirestoreClient Q} {answers : Nat}
    (he : s.Enabled event)
    (ha : Answering event) (hnext : s.next event = some { s with client := client' })
    (h : Outcome before client' entries reports answers) (huser : before.currentUser = s.client.currentUser)
    (hnetwork : before.isNetworkEnabled = s.client.isNetworkEnabled)
    (hinvoked : before.invoked = s.client.invoked) :
    Advances s { s with client := client' } entries reports where
  steps := .single ⟨event, ⟨he, hnext⟩, ha⟩
  settled := h.settled
  user := h.user.trans huser
  network := h.network.trans hnetwork
  written := rfl
  waiting := by
    show client'.waiting s.client.currentUser = entries
    rw [h.waiting, ← huser, Function.update_self]
  invoked := h.invoked.trans (by rw [hinvoked])

theorem advances_starting (h : s.client.Settled) (hstate : s.client.writeStream.state = .starting) :
    ∃ s', Advances s s' (s.client.waiting s.client.currentUser) [] ∧ s'.client.writeStream.isOpen = true := by
  have hmem : s.client.writeStream.closeCount ∈ s.client.writeStream.credentialRequests := by
    have hcredentials := h.linked.credentials
    rw [if_pos hstate] at hcredentials
    exact List.count_pos_iff.mp (by omega)
  obtain ⟨client', hreceived, hopen, houtcome⟩ := credentialsReceived_spec h hmem none
  let f : FirestoreClient Q → Option (FirestoreClient Q) := fun client =>
    let closeCount := s.client.writeStream.closeCount
    (client.takeCredentials closeCount).credentialsReceived closeCount none
  have hreceived : f s.client = some client' := hreceived
  have he : s.Enabled (.credentials s.client.writeStream.closeCount none) := hmem
  have hnext : s.next (.credentials s.client.writeStream.closeCount none) = some { s with client := client' } :=
    onClient_eq hreceived
  exact ⟨_, .of_outcome he rfl hnext houtcome rfl rfl rfl, (hopen rfl rfl).1⟩

theorem advances_open (h : s.client.Settled) (hstarted : s.client.writeStream.isStarted = true) :
    ∃ s', Advances s s' (s.client.waiting s.client.currentUser) [] ∧ s'.client.writeStream.isOpen = true := by
  cases hstate : s.client.writeStream.state with
  | open_ => exact ⟨s, .refl h, by simp [WriteStream.isOpen, hstate]⟩
  | starting => exact advances_starting h hstate
  | backoff =>
    obtain ⟨client', helapsed, hstarting, houtcome⟩ := backoffElapsed_spec h hstate
    have he : s.Enabled .backoffElapsed := by
      show s.client.writeStream.backoffTimer = true
      rw [h.linked.backoff, hstate]
      rfl
    have hnext : s.next .backoffElapsed = some { s with client := client' } := onClient_eq helapsed
    have hfirst : Advances s { s with client := client' } _ _ := .of_outcome he trivial hnext houtcome rfl rfl rfl
    obtain ⟨s', hadvances, hopen⟩ := advances_starting hfirst.settled hstarting
    have hwaiting : client'.waiting client'.currentUser = s.client.waiting s.client.currentUser := by
      rw [houtcome.user]
      exact hfirst.waiting
    exact ⟨s', hwaiting ▸ hfirst.trans hadvances, hopen⟩
  | initial => simp [WriteStream.isStarted, WriteStream.isOpen, hstate] at hstarted
  | error => simp [WriteStream.isStarted, WriteStream.isOpen, hstate] at hstarted

theorem exists_answer (request : WriteRequest) : ∃ response, request.Answers response := by
  refine ⟨⟨[], 1, (request.writes.getD []).map fun _ => ⟨1⟩⟩, ?_⟩
  intro mutations hmem
  have hmem : request.writes = some mutations := hmem
  simp [hmem]

theorem advances_answer (h : s.client.Settled) (hopen : s.client.writeStream.isOpen = true)
    (hne : s.client.waiting s.client.currentUser ≠ []) :
    ∃ s', Advances s s' (s.client.waiting s.client.currentUser) [] ∧ s'.Enabled .read ∧
      s'.client.writeStream.handshakeComplete = s.client.writeStream.handshakeComplete := by
  obtain ⟨g, hg⟩ := h.linked.grpc hopen
  by_cases hresponses : g.responses = []
  · have hrequests : g.requests ≠ [] := by
      intro hnil
      by_cases hshake : s.client.writeStream.handshakeComplete = true
      · have hwriting := h.linked.writing g hg hshake
        have hempty : s.client.writePipeline = [] := by simpa [hnil, requestsOf] using hwriting.symm
        exact hne ((h.waiting_eq_nil (h.enabled (isStarted_of_isOpen hopen))).mpr hempty)
      · have hshaking := h.linked.shaking g hg (by simpa using hshake)
        simp [hnil] at hshaking
    obtain ⟨request, requests, hcons⟩ := List.exists_cons_of_ne_nil hrequests
    obtain ⟨response, hanswers⟩ := exists_answer request
    have he : s.Enabled (.respond response) := by
      refine ⟨g, hg, request, ?_, hanswers⟩
      rw [hresponses, hcons]
      rfl
    have hclient : (s.respond response).client = { s.client with writeStream := { s.client.writeStream with
        grpcStream := some { g with responses := g.responses ++ [response] } } } := by
      unfold respond answered
      rw [hg]
    have hwritten : (s.respond response).written = s.written := by
      unfold respond
      rw [hg]
    refine ⟨s.respond response,
      ⟨.single ⟨_, ⟨he, rfl⟩, trivial⟩, respond_settled h he, ?_, ?_, hwritten, ?_, ?_⟩, ?_, ?_⟩
    · rw [hclient]
    · rw [hclient]
    · rw [hclient]
      rfl
    · rw [hclient, List.append_nil]
    · show ∃ g' ∈ (s.respond response).client.writeStream.grpcStream, g'.responses ≠ []
      rw [hclient]
      exact ⟨_, rfl, by simp⟩
    · rw [hclient]
  · exact ⟨s, .refl h, ⟨g, hg, hresponses⟩, rfl⟩

theorem advances_handshake (h : s.client.Settled) (hopen : s.client.writeStream.isOpen = true)
    (hne : s.client.waiting s.client.currentUser ≠ []) :
    ∃ s', Advances s s' (s.client.waiting s.client.currentUser) [] ∧
      s'.client.writeStream.handshakeComplete = true := by
  by_cases hshake : s.client.writeStream.handshakeComplete = true
  · exact ⟨s, .refl h, hshake⟩
  · obtain ⟨s₁, hadvances, he, hshake₁⟩ := advances_answer h hopen hne
    obtain ⟨request, requests, response, responses, hg, hread⟩ := read_eq hadvances.settled he
    obtain ⟨client', hresult, hdone, houtcome⟩ :=
      read_handshake_spec hadvances.settled (hshake₁.trans (by simpa using hshake)) hg
    have hnext : s₁.next .read = some { s₁ with client := client' } := onClient_eq (hread.trans hresult)
    have hsecond : Advances s₁ { s₁ with client := client' } _ _ :=
      .of_outcome he trivial hnext houtcome rfl rfl rfl
    refine ⟨{ s₁ with client := client' }, ?_, hdone⟩
    rw [← hadvances.waiting, ← hadvances.user]
    exact hadvances.trans hsecond

theorem advances_acknowledged (h : s.client.Settled) (hshake : s.client.writeStream.handshakeComplete = true)
    {entry : Option Nat × List Mutation} (hwaiting : s.client.waiting s.client.currentUser = entry :: entries) :
    ∃ s', Advances s s' entries (Async.Delivery.report entry.1 none) ∧
      s'.client.writeStream.handshakeComplete = true := by
  obtain ⟨s₁, hadvances, he, hshake₁⟩ := advances_answer h (h.handshake hshake) (by rw [hwaiting]; simp)
  obtain ⟨request, requests, response, responses, hg, hread⟩ := read_eq hadvances.settled he
  obtain ⟨client', batch, later, entry', entries', hresult, _, _, _, hwaiting', hdone, houtcome⟩ :=
    read_result_spec hadvances.settled (hshake₁.trans hshake) hg
  rw [hadvances.user, hadvances.waiting, hwaiting, List.cons.injEq] at hwaiting'
  obtain ⟨rfl, rfl⟩ := hwaiting'
  have hnext : s₁.next .read = some { s₁ with client := client' } := onClient_eq (hread.trans hresult)
  have hsecond : Advances s₁ { s₁ with client := client' } _ _ := .of_outcome he trivial hnext houtcome rfl rfl rfl
  exact ⟨_, hadvances.trans hsecond, hdone⟩

theorem advances_all (h : s.client.Settled) (hshake : s.client.writeStream.handshakeComplete = true)
    (hwaiting : s.client.waiting s.client.currentUser = entries) :
    ∃ s', Advances s s' [] ((entries.filterMap Prod.fst).map fun n => (n, none)) := by
  induction entries generalizing s with
  | nil =>
    have hrefl := Advances.refl h
    rw [hwaiting] at hrefl
    exact ⟨s, hrefl⟩
  | cons entry entries ih =>
    obtain ⟨s₁, hadvances, hshake₁⟩ := advances_acknowledged h hshake hwaiting
    obtain ⟨s', hrest⟩ := ih hadvances.settled hshake₁ (by rw [hadvances.user, hadvances.waiting])
    have hreports : ((entry :: entries).filterMap Prod.fst).map (fun n => (n, none)) =
        Async.Delivery.report entry.1 none ++ (entries.filterMap Prod.fst).map fun n =>
          ((n, none) : Nat × Status) := by
      rw [List.filterMap_cons]
      cases entry.1 <;> rfl
    exact ⟨s', hreports ▸ hadvances.trans hrest⟩

end

/-- Wherever a session has got to, if the network is enabled there is a run in
which the backend answers, and after which none of the user's writes waits: their
callbacks have been invoked with success, in their order. -/
theorem writes_can_be_delivered (hr : (sessions Q).Reachable s) (henabled : s.client.isNetworkEnabled = true) :
    ∃ s', (sessions Q).Steps (fun _ event _ => Answering event) s s' ∧ s'.written = s.written ∧
      s'.client.waiting s.client.currentUser = [] ∧
      s'.client.invoked = s.client.invoked ++
        ((s.client.waiting s.client.currentUser).filterMap Prod.fst).map fun n => (n, none) := by
  have h := settled_of_reachable hr
  by_cases hnone : s.client.waiting s.client.currentUser = []
  · exact ⟨s, .refl, rfl, hnone, by simp [hnone]⟩
  have hstarted : s.client.writeStream.isStarted = true := by
    apply h.needed henabled
    rw [← h.pipeline]
    exact fun hempty => hnone ((h.waiting_eq_nil henabled).mpr hempty)
  obtain ⟨s₁, hfirst, hopen⟩ := advances_open h hstarted
  have hwaiting₁ : s₁.client.waiting s₁.client.currentUser = s.client.waiting s.client.currentUser := by
    rw [hfirst.user, hfirst.waiting]
  obtain ⟨s₂, hsecond, hshake⟩ := advances_handshake hfirst.settled hopen (by rw [hwaiting₁]; exact hnone)
  have hwaiting₂ : s₂.client.waiting s₂.client.currentUser = s.client.waiting s.client.currentUser := by
    rw [hsecond.user, hsecond.waiting, hwaiting₁]
  obtain ⟨s₃, hthird⟩ := advances_all hsecond.settled hshake hwaiting₂
  have hall := hfirst.trans (hsecond.trans hthird)
  exact ⟨s₃, hall.steps, hall.written, hall.waiting, hall.invoked⟩

theorem writes_can_be_delivered_ann : ∃ s s', (sessions MemoryPersistence).Reachable s ∧ s.client.invoked = [] ∧
    s.client.writeStream.isOpen = false ∧
      (sessions MemoryPersistence).Steps (fun _ event _ => Answering event) s s' ∧
    s'.client.waiting s.client.currentUser = [] := by
  obtain ⟨s, hr, _, hp⟩ := annSession_run (annWrites ++ [.respond (committedAt 7), .finish (some .unavailable)])
    (fun s => decide (s.client.isNetworkEnabled = true ∧ s.client.invoked = [] ∧
      s.client.writeStream.isOpen = false)) (by decide)
  have hp := of_decide_eq_true hp
  obtain ⟨s', hsteps, _, hwaiting, _⟩ := writes_can_be_delivered hr hp.1
  exact ⟨s, s', hr, hp.2.1, hp.2.2, hsteps, hwaiting⟩

/-! ## Retries -/

def applyWrites (docs : MaybeDocumentMap) (writes : List Mutation) : MaybeDocumentMap :=
  writes.foldl (fun docs mutation =>
    Function.update docs mutation.key (mutation.applyToLocalView (docs mutation.key))) docs

def typesOf (writes : List Mutation) : List (DocumentKey × MutationType) :=
  writes.map fun mutation => (mutation.key, mutation.type)

theorem applyWrites_eq {writes : List Mutation} (hu : ∀ mutation ∈ writes, mutation.precondition = .none)
    (docs : MaybeDocumentMap) : applyWrites docs writes = Async.replay (Async.actAt MutationType.act)
    (typesOf writes) docs := by
  unfold applyWrites typesOf
  induction writes generalizing docs with
  | nil => rfl
  | cons mutation writes ih =>
    rw [List.foldl_cons, List.map_cons, Async.replay_cons, ih fun m hm => hu m (by simp [hm])]
    unfold Mutation.applyToLocalView
    rw [hu mutation (by simp)]
    rfl

theorem applyAll_eq {log : List (List Mutation)}
    (hu : ∀ writes ∈ log, ∀ mutation ∈ writes, mutation.precondition = .none) (docs : MaybeDocumentMap) :
    log.foldl applyWrites docs =
      Async.replay (fun writes => Async.replay (Async.actAt MutationType.act) (typesOf writes)) log docs := by
  induction log generalizing docs with
  | nil => rfl
  | cons writes log ih =>
    rw [List.foldl_cons, Async.replay_cons, ih fun w hw => hu w (by simp [hw]),
      applyWrites_eq (hu writes (by simp))]

/-- Once no write waits and none was rejected, the commits, if all are of writes of
this session, have made of the documents what each write does once, in the order
of the callbacks. Commits were repeated where their answer was lost. -/
theorem resends_harmless (hr : (sessions Q).Reachable s) (hquiet : ∀ w ∈ s.written, s.client.waiting w.1 = [])
    (hok : ∀ r ∈ s.client.invoked, r.2 = none) (hcalls : ∀ entry ∈ s.committed, entry.1 ≠ none)
    (hu : ∀ w ∈ s.written, ∀ mutation ∈ w.2, mutation.precondition = .none) (docs : MaybeDocumentMap) :
    (s.committed.map Prod.snd).foldl applyWrites docs =
      (s.client.invoked.filterMap fun r => (s.written[r.1]?).map Prod.snd).foldl applyWrites docs := by
  have hgood := good_of_reachable hr
  have hwritten : ∀ (n : Nat) writes, (s.written[n]?).map Prod.snd = some writes →
      ∀ mutation ∈ writes, mutation.precondition = .none := by
    intro n writes hn
    obtain ⟨w, hw, rfl⟩ := Option.map_eq_some_iff.mp hn
    exact hu w (List.mem_of_getElem? hw)
  have hall : ∀ entry ∈ s.committed, ∃ n ∈ s.delivery.succeeded, entry.1 = some n := by
    intro entry hentry
    obtain ⟨n, hn⟩ := Option.ne_none_iff_exists'.mp (hcalls entry hentry)
    exact ⟨n, hgood.succeeded_of_committed hquiet hok hentry hn, hn⟩
  have hsucceeded : s.delivery.succeeded = s.client.invoked.map Prod.fst := by
    unfold Async.Delivery.State.succeeded
    rw [List.filter_eq_self.mpr]
    · rfl
    · intro r hr
      rw [hok r hr]
      rfl
  rw [applyAll_eq, applyAll_eq]
  · rw [show s.committed = s.delivery.committed from rfl,
      hgood.replay ((act_absorbing.at.logs).comp typesOf) hall, hsucceeded, List.filterMap_map]
    rfl
  · intro writes hwrites
    obtain ⟨r, _, hwrites⟩ := List.mem_filterMap.mp hwrites
    exact hwritten r.1 writes hwrites
  · intro writes hwrites
    obtain ⟨entry, hentry, rfl⟩ := List.mem_map.mp hwrites
    obtain ⟨n, _, hn⟩ := hall entry hentry
    exact hwritten n entry.2 (hgood.committed entry hentry n hn)

/-- Ann's write is committed twice: the first answer is lost. -/
theorem resends_harmless_ann : ∃ s, (sessions MemoryPersistence).Reachable s ∧
    s.committed.map Prod.fst = [some 0, some 0] ∧ s.client.invoked.map Prod.fst = [0] ∧
    ∀ docs, (s.committed.map Prod.snd).foldl applyWrites docs =
      (s.client.invoked.filterMap fun r => (s.written[r.1]?).map Prod.snd).foldl applyWrites docs := by
  obtain ⟨s, hr, _, hp⟩ :=
    annSession_run (annWrites ++ [.respond (committedAt 7), .finish (some .unavailable), .backoffElapsed,
      .credentials 1 none, .respond (committedAt 1), .read, .respond (committedAt 8), .read])
    (fun s => decide (s.committed.map Prod.fst = [some 0, some 0] ∧ s.client.invoked.map Prod.fst = [0] ∧
      (∀ w ∈ s.written, (s.client.waiting w.1).isEmpty = true) ∧ (∀ r ∈ s.client.invoked, r.2 = none) ∧
      (∀ entry ∈ s.committed, entry.1 ≠ none) ∧ ∀ w ∈ s.written, ∀ mutation ∈ w.2,
        mutation.precondition = .none)) (by decide)
  obtain ⟨hcommitted, hinvoked, hquiet, hok, hcalls, hu⟩ := of_decide_eq_true hp
  exact ⟨s, hr, hcommitted, hinvoked,
    resends_harmless hr (fun w hw => List.isEmpty_iff.mp (hquiet w hw)) hok hcalls hu⟩

/-! ## Documents -/

/-- A cached document never goes back to an older version, in any run without
an event that removes it. -/
theorem cached_versions_grow (hr : (sessions Q).Reachable s) {key : DocumentKey}
    (h : (sessions Q).Steps (fun t event _ => ¬ t.Removes key event) s s') {doc : MaybeDocument}
    (hdoc : s.client.localStore.remoteDocumentCache key = some doc) :
    ∃ doc', s'.client.localStore.remoteDocumentCache key = some doc' ∧ doc.version ≤ doc'.version := by
  have hkeep : s'.client.Settled ∧
      ∃ doc', s'.client.localStore.remoteDocumentCache key = some doc' ∧ doc.version ≤ doc'.version := by
    apply Async.System.Steps.keep (I := fun t : Session Q => t.client.Settled ∧
      ∃ doc', t.client.localStore.remoteDocumentCache key = some doc' ∧ doc.version ≤ doc'.version) _ h
    · exact ⟨settled_of_reachable hr, doc, hdoc, le_rfl⟩
    · rintro t event t' ⟨hsettled, doc₁, hdoc₁, hle₁⟩ hst hremoves
      have hnext := next_of_step hsettled hst
      obtain ⟨doc₂, hdoc₂, hle₂⟩ := hnext.cache key hremoves doc₁ hdoc₁
      exact ⟨hnext.settled, doc₂, hdoc₂, hle₁.trans hle₂⟩
  exact hkeep.2

theorem cached_versions_grow_ann : ∃ (s s' : Session MemoryPersistence) (doc doc' : MaybeDocument),
    (sessions MemoryPersistence).Reachable s ∧
    s.client.localStore.remoteDocumentCache ["users", "ann"] = some doc ∧ doc.version = 7 ∧
    s'.client.localStore.remoteDocumentCache ["users", "ann"] = some doc' ∧ s'.written.length = 2 ∧
      doc.version ≤ doc'.version := by
  obtain ⟨s, hr, hs, hp⟩ := annSession_run (annWrites ++ [.respond (committedAt 7), .read])
    (fun s => (s.client.localStore.remoteDocumentCache ["users", "ann"]).any fun doc => doc.version = 7) (by decide)
  obtain ⟨doc, hdoc, hversion⟩ := (Option.any_eq_true _ _).mp hp
  have hlater : (run (annWrites ++ [.respond (committedAt 7), .read]) annSession >>= run
      [.write annEmailBatch.mutations, .respond (committedAt 9), .read]).any (fun s => s.written.length = 2) =
        true := by decide
  rw [hs] at hlater
  obtain ⟨s', hs', hlength⟩ := (Option.any_eq_true _ _).mp hlater
  have hsteps := steps_of_run (fun t event _ => ¬ t.Removes ["users", "ann"] event) hs' (by
    intro event hmem _ _
    simp only [List.mem_cons, List.not_mem_nil, or_false] at hmem
    rcases hmem with rfl | rfl | rfl <;> exact id)
  obtain ⟨doc', hdoc', hle⟩ := cached_versions_grow hr hsteps hdoc
  exact ⟨s, s', doc, doc', hr, hdoc, of_decide_eq_true hversion, hdoc', of_decide_eq_true hlength, hle⟩

theorem unconditional_kept (h : s.client.Settled) (hu : s.Unconditional)
    (hsteps : (sessions Q).Steps (fun _ event _ => ∀ mutation ∈ event.writes, mutation.precondition = .none) s s') :
    s'.client.Settled ∧ s'.Unconditional := by
  apply Async.System.Steps.keep (I := fun t : Session Q => t.client.Settled ∧ t.Unconditional) _ hsteps ⟨h, hu⟩
  rintro t event t' ⟨hsettled, hu⟩ hst hwrites
  have hnext := next_of_step hsettled hst
  refine ⟨hnext.settled, ?_⟩
  intro u entry hmem
  rcases hnext.waiting u entry hmem with hmem | rfl
  · exact hu u entry hmem
  · exact hwrites

/-- The data that reads show of a document stays the same in any run without an
event that touches the document, while batches that write it are sent, lost,
sent again, committed and acknowledged. -/
theorem shown_data_kept (hr : (sessions Q).Reachable s) {key : DocumentKey} (hu : s.Unconditional)
    (h : (sessions Q).Steps (fun t event _ => ¬ t.Touches key event ∧
      ∀ mutation ∈ event.writes, mutation.precondition = .none) s s') :
    ∃ shown shown', s.client.localStore.readDocument key = some shown ∧
      s'.client.localStore.readDocument key = some shown' ∧ dataOf shown' = dataOf shown := by
  have hsettled := settled_of_reachable hr
  have hkeep : (s'.client.Settled ∧ s'.Unconditional) ∧
      dataOf (s'.client.localStore.view key) = dataOf (s.client.localStore.view key) := by
    apply Async.System.Steps.keep (I := fun t : Session Q => (t.client.Settled ∧ t.Unconditional) ∧
      dataOf (t.client.localStore.view key) = dataOf (s.client.localStore.view key)) _ h ⟨⟨hsettled, hu⟩, rfl⟩
    rintro t event t' ⟨⟨hsettled, hu⟩, hdata⟩ hst ⟨htouches, hwrites⟩
    exact ⟨unconditional_kept hsettled hu (.single ⟨event, hst, hwrites⟩),
      ((next_of_step hsettled hst).shown key htouches hu).trans hdata⟩
  exact ⟨_, _, LocalStore.readDocument_eq hsettled.valid key, LocalStore.readDocument_eq hkeep.1.1.valid key,
    hkeep.2⟩

theorem shown_data_kept_ann : ∃ (s s' : Session MemoryPersistence) (shown shown' : Option MaybeDocument),
    (sessions MemoryPersistence).Reachable s ∧ s.next .read = some s' ∧
    s.client.invoked = [] ∧ s'.client.invoked = [(0, none)] ∧
    s.client.localStore.readDocument ["users", "ann"] = some shown ∧
    s'.client.localStore.readDocument ["users", "ann"] = some shown' ∧ dataOf shown' = dataOf shown := by
  obtain ⟨s, hr, hs, hp⟩ := annSession_run (annWrites ++ [.respond (committedAt 7)])
    (fun s => decide (s.Enabled .read ∧ s.client.invoked = [] ∧
      (s.client.localStore.remoteDocumentCache ["users", "ann"]).isNone = true ∧
      (s.next .read).any (fun s' => s'.client.invoked = [(0, none)]) = true)) (by decide)
  obtain ⟨he, hinvoked, hcache, hnext⟩ := of_decide_eq_true hp
  obtain ⟨s', hs', hinvoked'⟩ := (Option.any_eq_true _ _).mp hnext
  have hu : s.Unconditional := by
    refine (unconditional_kept (settled_of_reachable annSession_reachable) ?_ (steps_of_run _ hs ?_)).2
    · intro u entry hmem
      cases hmem
    · have hwrites : ∀ event ∈ annWrites ++ [.respond (committedAt 7)], ∀ mutation ∈ event.writes,
          mutation.precondition = .none := by decide
      exact fun event hmem _ _ => hwrites event hmem
  have htouches : ¬ s.Touches ["users", "ann"] .read := by
    rintro ⟨_, _, _, _, _, _, _, _, _, doc, hdoc, _⟩
    rw [Option.isNone_iff_eq_none.mp hcache] at hdoc
    cases hdoc
  have hsteps : (sessions MemoryPersistence).Steps (fun t event _ => ¬ t.Touches ["users", "ann"] event ∧
      ∀ mutation ∈ event.writes, mutation.precondition = .none) s s' :=
    .single ⟨.read, ⟨he, hs'⟩, htouches, fun _ hmem => by cases hmem⟩
  obtain ⟨shown, shown', hread, hread', hdata⟩ := shown_data_kept hr hu hsteps
  exact ⟨s, s', shown, shown', hr, hs', hinvoked, of_decide_eq_true hinvoked', hread, hread', hdata⟩

end Session

end Firestore

end ToDoList
