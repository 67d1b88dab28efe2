import ToDoList.Firestore.ClientSteps

/-!
# Sessions

A client, the program that writes through it, and a backend that may answer
late or amiss, end the stream with any error at any time, and lose what was on
it. The session keeps what has been written and what has been committed.
-/

namespace ToDoList

namespace Firestore

open MutationQueue LawfulMutationQueue

structure Session (Q : Type) where
  client : FirestoreClient Q
  written : List (User × List Mutation)
  /-- Each commit with the callback that it should be reported to, if there is one. -/
  committed : List (Option Nat × List Mutation)

/-- `unexpected` is an answer that no request waits for, or that has not a result
for each of its mutations. -/
inductive ClientEvent
  | write (mutations : List Mutation)
  | enableNetwork
  | disableNetwork
  | credentialChange (user : User)
  | credentials (closeCount : Nat) (maybeToken : Status)
  | backoffElapsed
  | idleElapsed
  | respond (response : WriteResponse)
  | read
  | unexpected (response : WriteResponse)
  | finish (status : Status)
  | watch (remoteEvent : RemoteEvent)
  | limbo (key : DocumentKey)
  | collect (orphaned : List DocumentKey)

namespace FirestoreClient

variable {Q : Type}

/-- What `FirestoreClient` makes, before the network is enabled. -/
def new (localStore : LocalStore Q) (user : User) : FirestoreClient Q where
  localStore := localStore
  currentUser := user
  mutationCallbacks := fun _ _ => none
  invoked := []
  isNetworkEnabled := false
  writePipeline := []
  writeStream := .new

def takeCredentials (closeCount : Nat) (client : FirestoreClient Q) : FirestoreClient Q :=
  { client with
    writeStream :=
      { client.writeStream with credentialRequests := client.writeStream.credentialRequests.erase closeCount } }

def answered (response : WriteResponse) (client : FirestoreClient Q) : FirestoreClient Q :=
  match client.writeStream.grpcStream with
  | none => client
  | some grpcStream =>
    { client with writeStream := { client.writeStream with
        grpcStream := some { grpcStream with responses := grpcStream.responses ++ [response] } } }

/-- The first answer is taken from the connection, and the request that it is for. -/
def read [MutationQueue Q] (client : FirestoreClient Q) : Option (FirestoreClient Q) :=
  match client.writeStream.grpcStream with
  | some ⟨requests, response :: responses⟩ =>
    onStreamRead response { client with
      writeStream := { client.writeStream with grpcStream := some ⟨requests.tail, responses⟩ } }
  | _ => some client

def callAt (client : FirestoreClient Q) (i : Nat) : Option Nat :=
  (client.writePipeline[i]?).bind fun batch => client.mutationCallbacks client.currentUser batch.batchId

end FirestoreClient

namespace Session

variable {Q : Type}

/-- The backend answers the next request. If there are writes in it they are committed. -/
def respond (response : WriteResponse) (s : Session Q) : Session Q :=
  match s.client.writeStream.grpcStream with
  | none => s
  | some grpcStream =>
    let i := grpcStream.responses.length
    { s with
      client := s.client.answered response
      committed := s.committed ++
        (((grpcStream.requests[i]?).bind WriteRequest.writes).map fun writes =>
          (s.client.callAt i, writes)).toList }

def onClient (f : FirestoreClient Q → Option (FirestoreClient Q)) (s : Session Q) : Option (Session Q) :=
  (f s.client).map fun client => { s with client }

variable [MutationQueue Q]

/-- `none` is a failed assertion. -/
def next (s : Session Q) : ClientEvent → Option (Session Q)
  | .write mutations =>
    (s.client.writeMutations mutations s.written.length).map fun client =>
      { s with client, written := s.written ++ [(s.client.currentUser, mutations)] }
  | .enableNetwork => s.onClient FirestoreClient.enableNetwork
  | .disableNetwork => s.onClient FirestoreClient.disableNetwork
  | .credentialChange user => s.onClient (FirestoreClient.handleCredentialChange user)
  | .credentials closeCount maybeToken =>
    s.onClient fun client => (client.takeCredentials closeCount).credentialsReceived closeCount maybeToken
  | .backoffElapsed => s.onClient (FirestoreClient.onStream WriteStream.backoffElapsed)
  | .idleElapsed => s.onClient FirestoreClient.stop
  | .respond response => some (s.respond response)
  | .read => s.onClient FirestoreClient.read
  | .unexpected response => s.onClient fun client => (client.answered response).read
  | .finish status => s.onClient (FirestoreClient.close status)
  | .watch remoteEvent => s.onClient (FirestoreClient.watchSnapshot remoteEvent)
  | .limbo key => s.onClient (FirestoreClient.limboRejected key)
  | .collect orphaned => some { s with client := s.client.collectGarbage orphaned }

/-- What may happen next. A batch of no writes is not made. -/
def Enabled (s : Session Q) : ClientEvent → Prop
  | .write mutations => mutations ≠ []
  | .credentials closeCount _ => closeCount ∈ s.client.writeStream.credentialRequests
  | .backoffElapsed => s.client.writeStream.backoffTimer = true
  | .idleElapsed => s.client.writeStream.idlenessTimer = true
  | .respond response => ∃ grpcStream ∈ s.client.writeStream.grpcStream,
      ∃ request ∈ grpcStream.requests[grpcStream.responses.length]?, request.Answers response
  | .read => ∃ grpcStream ∈ s.client.writeStream.grpcStream, grpcStream.responses ≠ []
  | .unexpected response => ∃ grpcStream ∈ s.client.writeStream.grpcStream, grpcStream.responses = [] ∧
      ∀ request ∈ grpcStream.requests.head?, ¬ request.Answers response
  | .finish _ => s.client.writeStream.grpcStream.isSome = true
  | _ => True

instance (request : WriteRequest) (response : WriteResponse) : Decidable (request.Answers response) :=
  inferInstanceAs (Decidable (∀ mutations ∈ request.writes,
    mutations.length = response.result.mutationResults.length))

instance (s : Session Q) : (event : ClientEvent) → Decidable (s.Enabled event)
  | .write mutations => decidable_of_iff (mutations.isEmpty = false) (by simp [Enabled])
  | .credentials closeCount _ => inferInstanceAs (Decidable (closeCount ∈ s.client.writeStream.credentialRequests))
  | .backoffElapsed => inferInstanceAs (Decidable (s.client.writeStream.backoffTimer = true))
  | .idleElapsed => inferInstanceAs (Decidable (s.client.writeStream.idlenessTimer = true))
  | .respond response => inferInstanceAs (Decidable (∃ grpcStream ∈ s.client.writeStream.grpcStream,
      ∃ request ∈ grpcStream.requests[grpcStream.responses.length]?, request.Answers response))
  | .read => decidable_of_iff (∃ grpcStream ∈ s.client.writeStream.grpcStream, grpcStream.responses.isEmpty = false)
      (by simp [Enabled])
  | .unexpected response => decidable_of_iff (∃ grpcStream ∈ s.client.writeStream.grpcStream,
      grpcStream.responses.isEmpty = true ∧ ∀ request ∈ grpcStream.requests.head?, ¬ request.Answers response)
      (by simp [Enabled])
  | .finish _ => inferInstanceAs (Decidable (s.client.writeStream.grpcStream.isSome = true))
  | .enableNetwork => isTrue trivial
  | .disableNetwork => isTrue trivial
  | .credentialChange _ => isTrue trivial
  | .watch _ => isTrue trivial
  | .limbo _ => isTrue trivial
  | .collect _ => isTrue trivial

def run : List ClientEvent → Session Q → Option (Session Q)
  | [], s => some s
  | event :: events, s => if s.Enabled event then (s.next event).bind (run events) else none

end Session

section
variable (Q : Type) [LawfulMutationQueue Q]

def sessions : Async.System (Session Q) ClientEvent where
  init s := s.client = .new s.client.localStore s.client.currentUser ∧ s.client.Ready ∧ s.written = [] ∧
    s.committed = []
  step s event s' := s.Enabled event ∧ s.next event = some s'

end

namespace Session

open FirestoreClient

variable {Q : Type} [LawfulMutationQueue Q] {s s' : Session Q}

/-! ## Settled sessions -/

theorem new_settled {localStore : LocalStore Q} {u : User} (hr : (FirestoreClient.new localStore u).Ready) :
    (FirestoreClient.new localStore u).Settled where
  valid := hr.valid
  user := hr.user
  registered := fun _ _ hne => absurd rfl hne
  pipeline := rfl
  linked := new_linked []
  handshake := by intro hshake; cases hshake
  needed := by intro hnetwork; cases hnetwork
  enabled := by
    intro hstarted
    simp [FirestoreClient.new, WriteStream.new, WriteStream.isStarted, WriteStream.isOpen] at hstarted

theorem respond_settled (h : s.client.Settled) {response : WriteResponse} (he : s.Enabled (.respond response)) :
    (s.respond response).client.Settled := by
  obtain ⟨g, hg, request, hrequest, hanswers⟩ := he
  have hlinked := h.linked
  unfold respond answered
  rw [show s.client.writeStream.grpcStream = some g from hg]
  refine ⟨⟨h.valid, h.user⟩, h.registered, h.pipeline, ?_, h.handshake, h.needed, h.enabled⟩
  constructor
  · exact hlinked.isOpen.trans (by rw [show s.client.writeStream.grpcStream = some g from hg]; rfl)
  · intro g' hg'
    cases hg'
    intro i r hr
    by_cases hi : i < g.responses.length
    · rw [List.getElem?_append_left hi] at hr
      exact hlinked.answered g hg i r hr
    · have hlast : i = g.responses.length := by
        have := (List.getElem?_eq_some_iff.mp hr).1
        rw [List.length_append, List.length_singleton] at this
        omega
      subst hlast
      rw [List.getElem?_concat_length, Option.some.injEq] at hr
      exact ⟨request, hrequest, hr ▸ hanswers⟩
  · intro g' hg' hshake
    cases hg'
    exact hlinked.shaking g hg hshake
  · intro g' hg' hshake
    cases hg'
    exact hlinked.writing g hg hshake
  · exact hlinked.waiting
  · exact hlinked.idle
  · exact hlinked.backoff
  · exact hlinked.credentials
  · exact hlinked.closes

/-! ## Sessions as deliveries -/

def delivery (s : Session Q) : Async.Delivery.State User (List Mutation) Error where
  sender := s.client.currentUser
  pending := s.client.waiting
  answers := s.client.answers
  reported := s.client.invoked
  written := s.written
  committed := s.committed

/-- Only permanent errors reject writes. -/
def deliveries : Async.System (Async.Delivery.State User (List Mutation) Error)
    (Async.Delivery.Event User (List Mutation) Error) :=
  (Async.Delivery.system User (List Mutation) Error).restrict fun _ e _ =>
    ∀ error, e = .reject error → Datastore.isPermanentWriteError (some error) = some true

end Session

def ClientEvent.writes : ClientEvent → List Mutation
  | write mutations => mutations
  | _ => []

namespace Session

open FirestoreClient

variable {Q : Type} [LawfulMutationQueue Q] {s s' : Session Q}

def Pinned (s : Session Q) (key : DocumentKey) : Prop :=
  ∃ u, ∃ entry ∈ s.client.waiting u, ∃ mutation ∈ entry.2, mutation.key = key

def Removes (s : Session Q) (key : DocumentKey) : ClientEvent → Prop
  | .watch remoteEvent => remoteEvent.Removes key
  | .limbo removed => removed = key
  | .collect orphaned => key ∈ orphaned ∧ ¬ s.Pinned key
  | _ => False

/-- What is shown of a document may change when it is written, when the backend
tells of it, when a write to it is rejected or the user changes, when an answer
comes later than a newer version of the document, and when it is collected. -/
def Touches (s : Session Q) (key : DocumentKey) : ClientEvent → Prop
  | .write mutations => key ∈ mutations.map (·.key)
  | .credentialChange user => user ≠ s.client.currentUser
  | .watch remoteEvent => key ∈ remoteEvent.documentUpdates.map Prod.fst
  | .limbo removed => removed = key
  | .finish status => s.client.writeStream.handshakeComplete = true ∧
      ∃ error, status = some error ∧ Datastore.isPermanentWriteError (some error) = some true ∧
      ∃ entry ∈ (s.client.waiting s.client.currentUser).head?, ∃ mutation ∈ entry.2, mutation.key = key
  | .read => s.client.writeStream.handshakeComplete = true ∧
      ∃ grpcStream ∈ s.client.writeStream.grpcStream, ∃ response ∈ grpcStream.responses.head?,
        ∃ batch ∈ s.client.localStore.pending.head?,
        ∃ version ∈ batch.docVersions response.result key, ∃ doc ∈ s.client.localStore.remoteDocumentCache key,
          version ≤ doc.version
  | .collect orphaned => key ∈ orphaned ∧ ¬ s.Pinned key
  | _ => False

def Unconditional (s : Session Q) : Prop :=
  ∀ u, ∀ entry ∈ s.client.waiting u, ∀ mutation ∈ entry.2, mutation.precondition = .none

structure Next (s : Session Q) (event : ClientEvent) (s' : Session Q) : Prop where
  settled : s'.client.Settled
  delivery : s'.delivery = s.delivery ∨ ∃ e, deliveries.step s.delivery e s'.delivery
  waiting : ∀ u, ∀ entry ∈ s'.client.waiting u, entry ∈ s.client.waiting u ∨ event = .write entry.2
  cache : ∀ key, ¬ s.Removes key event → ∀ doc, s.client.localStore.remoteDocumentCache key = some doc →
    ∃ doc', s'.client.localStore.remoteDocumentCache key = some doc' ∧ doc.version ≤ doc'.version
  shown : ∀ key, ¬ s.Touches key event → s.Unconditional →
    dataOf (s'.client.localStore.view key) = dataOf (s.client.localStore.view key)

section
variable {client client' : FirestoreClient Q} {entries : List (Option Nat × List Mutation)}
    {reports : List (Nat × Status)}
  {answers : Nat}

theorem delivery_eq (h : Outcome client client' entries reports answers) (written : List (User × List Mutation))
    (committed : List (Option Nat × List Mutation)) :
    delivery ⟨client', written, committed⟩ =
      ⟨client.currentUser, Function.update client.waiting client.currentUser entries,
      answers, client.invoked ++ reports, written, committed⟩ := by
  unfold delivery
  simp only [h.user, h.waiting, h.answers, h.invoked]

theorem waiting_of_outcome (h : Outcome client client' entries reports answers)
    (hentries : ∀ entry ∈ entries, entry ∈ client.waiting client.currentUser) (u : User) :
    ∀ entry ∈ client'.waiting u, entry ∈ client.waiting u := by
  intro entry hmem
  rw [h.waiting] at hmem
  by_cases hu : u = client.currentUser
  · subst hu
    rw [Function.update_self] at hmem
    exact hentries entry hmem
  · rw [Function.update_of_ne hu] at hmem
    exact hmem

theorem kept_of_outcome (h : Outcome client client' entries reports answers) (key : DocumentKey)
    {doc : MaybeDocument}
    (hdoc : client.localStore.remoteDocumentCache key = some doc) :
    ∃ doc', client'.localStore.remoteDocumentCache key = some doc' ∧ doc.version ≤ doc'.version :=
  ⟨doc, by rw [h.cache, hdoc], le_rfl⟩

theorem view_of_outcome (h : Outcome client client' entries reports answers) (key : DocumentKey) :
    client'.localStore.view key = overlay key entries (client.localStore.remoteDocumentCache key) := by
  rw [view_eq h.settled.toReady, h.waiting, h.user, Function.update_self, h.cache]

theorem Next.stay {event : ClientEvent} (hr : s.client.Ready)
    (h : Outcome s.client client' (s.client.waiting s.client.currentUser) [] s.client.answers) :
    Next s event { s with client := client' } where
  settled := h.settled
  delivery := by
    left
    rw [delivery_eq h, Function.update_eq_self, List.append_nil]
    rfl
  waiting := fun u entry hmem => .inl (waiting_of_outcome h (fun _ he => he) u entry hmem)
  cache := fun key _ _ hdoc => kept_of_outcome h key hdoc
  shown := fun key _ _ => by rw [view_of_outcome h, view_eq hr]

theorem Next.reset {event : ClientEvent} (hr : s.client.Ready)
    (h : Outcome s.client client' (s.client.waiting s.client.currentUser) [] 0) :
    Next s event { s with client := client' } where
  settled := h.settled
  delivery := by
    right
    refine ⟨.reset, ?_, by simp⟩
    rw [delivery_eq h, Function.update_eq_self, List.append_nil]
    exact .reset
  waiting := fun u entry hmem => .inl (waiting_of_outcome h (fun _ he => he) u entry hmem)
  cache := fun key _ _ hdoc => kept_of_outcome h key hdoc
  shown := fun key _ _ => by rw [view_of_outcome h, view_eq hr]

theorem overlay_append (key : DocumentKey) (l r : List (Option Nat × List Mutation))
    (maybeDoc : Option MaybeDocument) :
    overlay key (l ++ r) maybeDoc = overlay key r (overlay key l maybeDoc) := List.foldl_append

theorem overlay_other {key : DocumentKey} {entry : Option Nat × List Mutation}
    (h : ∀ mutation ∈ entry.2, mutation.key ≠ key) (maybeDoc : Option MaybeDocument) :
    overlay key [entry] maybeDoc = maybeDoc := by
  unfold overlay
  rw [List.foldl_cons, List.foldl_nil]
  revert h
  induction entry.2 with
  | nil => exact fun _ => rfl
  | cons mutation mutations ih =>
    intro h
    rw [List.foldl_cons, if_neg (h mutation (by simp))]
    exact ih fun m hm => h m (by simp [hm])

end

omit [LawfulMutationQueue Q] in
theorem onClient_eq {f : FirestoreClient Q → Option (FirestoreClient Q)} {client' : FirestoreClient Q}
    (h : f s.client = some client') : s.onClient f = some { s with client := client' } := by
  unfold onClient
  rw [h]
  rfl

theorem next_write (h : s.client.Settled) {mutations : List Mutation} (hne : mutations ≠ []) :
    ∃ s', s.next (.write mutations) = some s' ∧ Next s (.write mutations) s' := by
  obtain ⟨client', hwrite, houtcome⟩ := writeMutations_spec h hne s.written.length
  refine ⟨{ s with client := client', written := s.written ++ [(s.client.currentUser, mutations)] }, ?_,
    houtcome.settled, ?_,
    ?_, fun key _ _ hdoc => kept_of_outcome houtcome key hdoc, ?_⟩
  · unfold next
    simp only [hwrite, Option.map_some]
  · right
    refine ⟨.write mutations, ?_, by simp⟩
    rw [delivery_eq houtcome, List.append_nil]
    exact .write mutations
  · intro u entry hmem
    rw [show client'.waiting = _ from houtcome.waiting] at hmem
    by_cases hu : u = s.client.currentUser
    · subst hu
      rw [Function.update_self] at hmem
      rcases List.mem_append.mp hmem with hmem | hmem
      · exact .inl hmem
      · rw [List.mem_singleton.mp hmem]
        exact .inr rfl
    · rw [Function.update_of_ne hu] at hmem
      exact .inl hmem
  · intro key htouches _
    rw [view_of_outcome houtcome, view_eq h.toReady, overlay_append, overlay_other]
    intro mutation hmem hkey
    exact htouches (List.mem_map.mpr ⟨mutation, hmem, hkey⟩)

theorem next_enableNetwork (h : s.client.Settled) :
    ∃ s', s.next .enableNetwork = some s' ∧ Next s .enableNetwork s' := by
  obtain ⟨client', henable, houtcome⟩ := enableNetwork_spec h
  refine ⟨{ s with client := client' }, ?_, houtcome.settled, ?_,
    fun u entry hmem => .inl (waiting_of_outcome houtcome (fun _ he => he) u entry hmem),
    fun key _ _ hdoc => kept_of_outcome houtcome key hdoc,
      fun key _ _ => by rw [view_of_outcome houtcome, view_eq h.toReady]⟩
  · exact onClient_eq henable
  · left
    rw [delivery_eq houtcome, List.append_nil]
    show (⟨_, Function.update s.client.waiting s.client.currentUser (s.client.waiting s.client.currentUser), _,
      _, _, _⟩ :
      Async.Delivery.State User (List Mutation) Error) = _
    rw [Function.update_eq_self]
    rfl

theorem next_disableNetwork (h : s.client.Settled) :
    ∃ s', s.next .disableNetwork = some s' ∧ Next s .disableNetwork s' := by
  obtain ⟨client', hdisable, houtcome⟩ := disableNetwork_spec h.toReady h.registered h.linked h.handshake
  refine ⟨{ s with client := client' }, ?_, houtcome.settled, ?_,
    fun u entry hmem => .inl (waiting_of_outcome houtcome (fun _ he => he) u entry hmem),
    fun key _ _ hdoc => kept_of_outcome houtcome key hdoc,
      fun key _ _ => by rw [view_of_outcome houtcome, view_eq h.toReady]⟩
  · exact onClient_eq hdisable
  · right
    refine ⟨.reset, ?_, by simp⟩
    rw [delivery_eq houtcome, List.append_nil]
    show Async.Delivery.Step s.delivery .reset
      ⟨_, Function.update s.client.waiting s.client.currentUser (s.client.waiting s.client.currentUser), _, _, _, _⟩
    rw [Function.update_eq_self]
    exact .reset

theorem next_credentialChange (h : s.client.Settled) (u : User) :
    ∃ s', s.next (.credentialChange u) = some s' ∧ Next s (.credentialChange u) s' := by
  obtain ⟨client', hchange, houtcome⟩ := handleCredentialChange_spec h u
  refine ⟨{ s with client := client' }, ?_, houtcome.settled, ?_,
    fun u entry hmem => .inl (waiting_of_outcome houtcome (fun _ he => he) u entry hmem),
    fun key _ _ hdoc => kept_of_outcome houtcome key hdoc, fun key htouches _ => ?_⟩
  · exact onClient_eq hchange
  · right
    refine ⟨.switch u, ?_, by simp⟩
    rw [delivery_eq houtcome, List.append_nil]
    show Async.Delivery.Step s.delivery (.switch u)
      ⟨_, Function.update s.client.waiting u (s.client.waiting u), _, _, _, _⟩
    rw [Function.update_eq_self]
    exact .switch u
  · obtain rfl : u = s.client.currentUser := not_not.mp htouches
    rw [view_of_outcome houtcome, view_eq h.toReady]

theorem next_credentials (h : s.client.Settled) {closeCount : Nat}
    (hmem : closeCount ∈ s.client.writeStream.credentialRequests) (maybeToken : Status) :
    ∃ s', s.next (.credentials closeCount maybeToken) = some s' ∧
      Next s (.credentials closeCount maybeToken) s' := by
  obtain ⟨client', hreceived, _, houtcome⟩ := credentialsReceived_spec h hmem maybeToken
  let f : FirestoreClient Q → Option (FirestoreClient Q) := fun client =>
    (client.takeCredentials closeCount).credentialsReceived closeCount maybeToken
  have hreceived : f s.client = some client' := hreceived
  exact ⟨{ s with client := client' }, onClient_eq hreceived, .stay h.toReady houtcome⟩

theorem next_backoffElapsed (h : s.client.Settled) (htimer : s.client.writeStream.backoffTimer = true) :
    ∃ s', s.next .backoffElapsed = some s' ∧ Next s .backoffElapsed s' := by
  have hstate : s.client.writeStream.state = .backoff := by
    rw [h.linked.backoff] at htimer
    exact of_decide_eq_true htimer
  obtain ⟨client', helapsed, _, houtcome⟩ := backoffElapsed_spec h hstate
  exact ⟨{ s with client := client' }, onClient_eq helapsed, .stay h.toReady houtcome⟩

theorem next_idleElapsed (h : s.client.Settled) (htimer : s.client.writeStream.idlenessTimer = true) :
    ∃ s', s.next .idleElapsed = some s' ∧ Next s .idleElapsed s' := by
  obtain ⟨client', hstop, houtcome⟩ := stopped_outcome h (h.linked.idle htimer).2.2
  exact ⟨{ s with client := client' }, onClient_eq hstop, .reset h.toReady houtcome⟩

/-! ## Answers and errors -/

theorem pending_unconditional (h : s.client.Settled) (hu : s.Unconditional) :
    ∀ batch ∈ s.client.localStore.pending, batch.Unconditional := by
  intro batch hmem
  rw [h.toReady.pending] at hmem
  exact hu s.client.currentUser _ (List.mem_map.mpr ⟨batch, hmem, rfl⟩)

theorem committed_entry (h : s.client.Settled) {g : GrpcStream} (hg : s.client.writeStream.grpcStream = some g)
    (hshake : s.client.writeStream.handshakeComplete = true) {i : Nat} {request : WriteRequest}
    (hrequest : g.requests[i]? = some request) :
    ∃ writes, request.writes = some writes ∧
      (s.client.waiting s.client.currentUser)[i]? = some (s.client.callAt i, writes) := by
  have hwriting := h.linked.writing g hg hshake
  have henabled := h.enabled (isStarted_of_isOpen (h.handshake hshake))
  have hget : ((requestsOf s.client.writePipeline)[i]?) = some request.writes := by
    rw [← hwriting, List.getElem?_map, hrequest]
    rfl
  obtain ⟨batch, hbatch, hwrites⟩ := Option.map_eq_some_iff.mp (List.getElem?_map .. ▸ hget)
  refine ⟨batch.mutations, hwrites.symm, ?_⟩
  have hqueue : (batches s.client.localStore.mutationQueue s.client.currentUser)[i]? = some batch := by
    have hpipeline := h.pipeline
    unfold pipelineOf at hpipeline
    rw [if_pos henabled] at hpipeline
    rw [hpipeline, h.toReady.pending] at hbatch
    have hi := (List.getElem?_eq_some_iff.mp hbatch).1
    rw [List.getElem?_take_of_lt (by rw [List.length_take] at hi; omega)] at hbatch
    exact hbatch
  unfold waiting callAt
  rw [List.getElem?_map, hqueue, hbatch]
  rfl

theorem next_respond (h : s.client.Settled) {response : WriteResponse} (he : s.Enabled (.respond response)) :
    Next s (.respond response) (s.respond response) := by
  have hsame : (s.respond response).client.localStore = s.client.localStore := by
    unfold respond answered
    cases s.client.writeStream.grpcStream <;> rfl
  have hwaiting : (s.respond response).client.waiting = s.client.waiting := by
    unfold respond answered
    cases s.client.writeStream.grpcStream <;> rfl
  refine ⟨respond_settled h he, ?_, fun u entry hmem => .inl (hwaiting ▸ hmem), ?_, fun key _ _ => by rw [hsame]⟩
  · obtain ⟨g, hg, request, hrequest, _⟩ := he
    have hg : s.client.writeStream.grpcStream = some g := hg
    have hrequest : g.requests[g.responses.length]? = some request := hrequest
    by_cases hshake : s.client.writeStream.handshakeComplete = true
    · right
      obtain ⟨writes, hwrites, hentry⟩ := committed_entry h hg hshake hrequest
      have hanswers : s.client.answers = g.responses.length := by
        unfold answers
        simp [hshake, hg]
      have hdelivery : (s.respond response).delivery = { s.delivery with
          answers := s.delivery.answers + 1
          committed := s.delivery.committed ++ [(s.client.callAt g.responses.length, writes)] } := by
        unfold respond answered delivery answers waiting
        simp [hg, hrequest, hwrites, hshake]
      refine ⟨.commit, ?_, by simp⟩
      rw [hdelivery]
      apply Async.Delivery.Step.commit
      show (s.client.waiting s.client.currentUser)[s.client.answers]? = _
      rw [hanswers]
      exact hentry
    · left
      have hwrites : request.writes = none := by
        have hshaking := h.linked.shaking g hg (by simpa using hshake)
        have hget : (g.requests.map WriteRequest.writes)[g.responses.length]? = some request.writes := by
          rw [List.getElem?_map, hrequest]
          rfl
        rw [hshaking] at hget
        simpa using List.mem_of_getElem? hget
      unfold respond answered delivery answers waiting
      simp [hg, hrequest, hwrites, hshake]
  · intro key _ doc hdoc
    exact ⟨doc, by rw [hsame]; exact hdoc, le_rfl⟩

theorem read_eq (h : s.client.Settled) (he : s.Enabled .read) : ∃ request requests response responses,
    s.client.writeStream.grpcStream = some ⟨request :: requests, response :: responses⟩ ∧
      s.client.read = onStreamRead response { s.client with
        writeStream := { s.client.writeStream with grpcStream := some ⟨requests, responses⟩ } } := by
  obtain ⟨⟨requests, responses⟩, hg, hne⟩ := he
  have hg : s.client.writeStream.grpcStream = some ⟨requests, responses⟩ := hg
  obtain ⟨response, responses, rfl⟩ := List.exists_cons_of_ne_nil hne
  obtain ⟨request, hrequest, _⟩ := h.linked.answered _ hg 0 response rfl
  cases requests with
  | nil => cases hrequest
  | cons first later =>
    refine ⟨first, later, response, responses, hg, ?_⟩
    unfold FirestoreClient.read
    rw [hg]
    rfl

theorem next_read (h : s.client.Settled) (he : s.Enabled .read) :
    ∃ s', s.next .read = some s' ∧ Next s .read s' := by
  obtain ⟨request, requests, response, responses, hg, hread⟩ := read_eq h he
  by_cases hshake : s.client.writeStream.handshakeComplete = true
  · obtain ⟨client', batch, later, entry, entries, hresult, hpending, hpending', hlen, hwaiting, _, houtcome⟩ :=
      read_result_spec h hshake hg
    refine ⟨{ s with client := client' }, onClient_eq (hread.trans hresult), houtcome.settled, ?_, ?_, ?_, ?_⟩
    · right
      refine ⟨.acknowledge, ?_, by simp⟩
      rw [delivery_eq houtcome]
      apply Async.Delivery.Step.acknowledge hwaiting
      show s.client.answers = _
      unfold answers
      simp [hshake, hg]
    · intro u entry' hmem
      refine .inl (waiting_of_outcome houtcome ?_ u entry' hmem)
      intro e he
      show e ∈ s.client.waiting s.client.currentUser
      rw [hwaiting]
      exact List.mem_cons_of_mem _ he
    · intro key _ doc hdoc
      obtain ⟨doc', hdoc', hle⟩ := MutationBatch.acknowledgedDocument_version batch response.result key doc
      refine ⟨doc', ?_, hle⟩
      rw [houtcome.cache, ← hdoc', ← hdoc]
      rfl
    · intro key htouches hu
      have hcache : client'.localStore.remoteDocumentCache key =
          batch.acknowledgedDocument response.result key (s.client.localStore.remoteDocumentCache key) := by
        rw [houtcome.cache]
        rfl
      apply LocalStore.acknowledged_view (pending_unconditional h hu) hpending hlen hpending' hcache
      intro version hversion doc hdoc
      by_contra hnot
      apply htouches
      exact ⟨hshake, _, hg, response, rfl,
        batch, by rw [hpending]; rfl, version, hversion, doc, hdoc, Nat.le_of_not_lt hnot⟩
  · have hshake : s.client.writeStream.handshakeComplete = false := by simpa using hshake
    obtain ⟨client', hresult, _, houtcome⟩ := read_handshake_spec h hshake hg
    refine ⟨{ s with client := client' }, onClient_eq (hread.trans hresult), .stay h.toReady ?_⟩
    have hanswers : s.client.answers = 0 := by
      unfold answers
      simp [hshake]
    rw [hanswers]
    exact houtcome

theorem handshakeComplete_of_unexpected (h : s.client.Settled) {response : WriteResponse}
    (he : s.Enabled (.unexpected response)) : s.client.writeStream.handshakeComplete = true := by
  obtain ⟨g, hg, _, hno⟩ := he
  by_contra hshake
  have hshaking : g.requests.map WriteRequest.writes = [none] := h.linked.shaking g hg (by simpa using hshake)
  obtain ⟨request, requests, hcons⟩ := List.exists_cons_of_ne_nil fun hnil : g.requests = [] => by
    rw [hnil] at hshaking
    cases hshaking
  rw [hcons] at hshaking hno
  apply hno request rfl
  intro mutations hmem
  rw [(List.cons.inj hshaking).1] at hmem
  cases hmem

/-- An answer amiss fails the assertion on the pipeline, or the one on the number of results. -/
theorem onWriteStreamMutationResult_eq_none {client : FirestoreClient Q} {requests : List WriteRequest}
    {response : WriteResponse} (hwriting : requests.map WriteRequest.writes = requestsOf client.writePipeline)
    (hno : ∀ request ∈ requests.head?, ¬ request.Answers response) :
    client.onWriteStreamMutationResult response.result = none := by
  unfold onWriteStreamMutationResult
  cases hpipeline : client.writePipeline with
  | nil => rfl
  | cons batch rest =>
    rw [hpipeline] at hwriting
    cases requests with
    | nil => cases hwriting
    | cons request requests =>
      have hlen : batch.mutations.length ≠ response.result.mutationResults.length := by
        intro hlen
        apply hno request rfl
        intro mutations hmem
        rw [(List.cons.inj hwriting).1] at hmem
        cases hmem
        exact hlen
      unfold handleSuccessfulWrite
      simp only [LocalStore.acknowledgeBatch_eq_none hlen]
      rfl

theorem next_unexpected (h : s.client.Settled) {response : WriteResponse} (he : s.Enabled (.unexpected response)) :
    s.next (.unexpected response) = none := by
  have hshake := handshakeComplete_of_unexpected h he
  obtain ⟨⟨requests, responses⟩, hg, hresponses, hno⟩ := he
  have hg : s.client.writeStream.grpcStream = some ⟨requests, responses⟩ := hg
  have hresponses : responses = [] := hresponses
  subst hresponses
  have hwriting : requests.map WriteRequest.writes = requestsOf s.client.writePipeline :=
    h.linked.writing _ hg hshake
  have hread : (s.client.answered response).read = onStreamRead response { s.client with
      writeStream := { s.client.writeStream with grpcStream := some ⟨requests.tail, []⟩ } } := by
    unfold answered FirestoreClient.read
    rw [hg]
    rfl
  show ((s.client.answered response).read).map _ = none
  rw [hread, Option.map_eq_none_iff]
  unfold onStreamRead
  split
  · unfold notifyStreamResponse
    simp only [hshake, if_true]
    exact onWriteStreamMutationResult_eq_none hwriting hno
  · rfl

theorem next_finish_error (h : s.client.Settled) (hgrpc : s.client.writeStream.grpcStream.isSome = true)
    (error : Error) :
    ∃ s', s.next (.finish (some error)) = some s' ∧ Next s (.finish (some error)) s' := by
  have hopen : s.client.writeStream.isOpen = true := by
    rw [h.linked.isOpen]
    exact hgrpc
  have hstarted := isStarted_of_isOpen hopen
  obtain ⟨client', hclose, houtcome⟩ :=
    close_error_spec h.toReady h.registered h.pipeline h.linked.closes hstarted (h.enabled hstarted) error
  rcases houtcome with houtcome | ⟨hshake, hpermanent, entry, entries, hwaiting, houtcome⟩
  · exact ⟨{ s with client := client' }, onClient_eq hclose, .reset h.toReady houtcome⟩
  · refine ⟨{ s with client := client' }, onClient_eq hclose, houtcome.settled, ?_,
      fun u entry' hmem => .inl (waiting_of_outcome houtcome ?_ u entry' hmem),
      fun key _ _ hdoc => kept_of_outcome houtcome key hdoc, ?_⟩
    · right
      refine ⟨.reject error, ?_, ?_⟩
      · rw [delivery_eq houtcome]
        exact .reject error hwaiting
      · intro error' herror
        cases herror
        exact hpermanent
    · intro e he
      rw [hwaiting]
      exact List.mem_cons_of_mem _ he
    · intro key htouches _
      rw [view_of_outcome houtcome, view_eq h.toReady, hwaiting, ← List.singleton_append, overlay_append,
        overlay_other]
      intro mutation hmem hkey
      exact htouches ⟨hshake, error, rfl, hpermanent, entry, by rw [hwaiting]; rfl, mutation, hmem, hkey⟩

theorem next_finish_ok (h : s.client.Settled) (hgrpc : s.client.writeStream.grpcStream.isSome = true)
    (hnone : s.client.waiting s.client.currentUser = []) :
    ∃ s', s.next (.finish none) = some s' ∧ Next s (.finish none) s' := by
  have hopen : s.client.writeStream.isOpen = true := by
    rw [h.linked.isOpen]
    exact hgrpc
  have hempty := (h.waiting_eq_nil (h.enabled (isStarted_of_isOpen hopen))).mp hnone
  obtain ⟨client', hstop, houtcome⟩ := stopped_outcome h hempty
  exact ⟨{ s with client := client' }, onClient_eq hstop, .reset h.toReady houtcome⟩

theorem next_watch (h : s.client.Settled) (remoteEvent : RemoteEvent) :
    ∃ s', s.next (.watch remoteEvent) = some s' ∧ Next s (.watch remoteEvent) s' := by
  obtain ⟨cache, version, hwatch, hkeeps, hframe⟩ := watchSnapshot_spec h remoteEvent
  refine ⟨_, onClient_eq hwatch, h.cached cache version, .inl rfl, fun _ _ hmem => .inl hmem, ?_, ?_⟩
  · intro key hremoves doc hdoc
    exact hkeeps key doc hdoc hremoves
  · intro key htouches _
    rw [view_eq (h.cached cache version).toReady, view_eq h.toReady]
    exact congrArg (fun maybeDoc => dataOf (overlay key _ maybeDoc)) (hframe key htouches)

theorem next_limbo (h : s.client.Settled) (key : DocumentKey) :
    ∃ s', s.next (.limbo key) = some s' ∧ Next s (.limbo key) s' := by
  obtain ⟨cache, version, hlimbo, hframe⟩ := limboRejected_spec h key
  refine ⟨_, onClient_eq hlimbo, h.cached cache version, .inl rfl, fun _ _ hmem => .inl hmem, ?_, ?_⟩
  · intro other hother doc hdoc
    exact ⟨doc, (hframe other (Ne.symm hother)).trans hdoc, le_rfl⟩
  · intro other hother _
    rw [view_eq (h.cached cache version).toReady, view_eq h.toReady]
    exact congrArg (fun maybeDoc => dataOf (overlay other _ maybeDoc)) (hframe other (Ne.symm hother))

theorem pinned_iff (h : s.client.Settled) (key : DocumentKey) :
    mutationQueuesContainKey key s.client.localStore.mutationQueue = true ↔ s.Pinned key := by
  rw [contain_eq h.valid]
  refine exists_congr fun u => ?_
  unfold waiting
  simp only [List.mem_map, exists_exists_and_eq_and]
  refine exists_congr fun batch => and_congr_right fun _ => ?_
  unfold MutationBatch.affects
  simp

theorem next_collect (h : s.client.Settled) (orphaned : List DocumentKey) :
    ∃ s', s.next (.collect orphaned) = some s' ∧ Next s (.collect orphaned) s' := by
  have hkept : ∀ key, ¬ (key ∈ orphaned ∧ ¬ s.Pinned key) →
      (s.client.collectGarbage orphaned).localStore.remoteDocumentCache key =
        s.client.localStore.remoteDocumentCache key := by
    intro key hkey
    unfold collectGarbage
    rw [LocalStore.removeOrphanedDocuments_cache, if_neg]
    rintro ⟨hmem, hnot⟩
    refine hkey ⟨hmem, fun hpinned => ?_⟩
    rw [(pinned_iff h key).mpr hpinned] at hnot
    cases hnot
  have hsettled : (s.client.collectGarbage orphaned).Settled :=
    h.cached _ s.client.localStore.lastRemoteSnapshotVersion
  refine ⟨_, rfl, hsettled, .inl rfl, fun _ _ hmem => .inl hmem, ?_, ?_⟩
  · intro key hremoves doc hdoc
    exact ⟨doc, (hkept key hremoves).trans hdoc, le_rfl⟩
  · intro key htouches _
    rw [view_eq hsettled.toReady, view_eq h.toReady]
    exact congrArg (fun maybeDoc => dataOf (overlay key _ maybeDoc)) (hkept key htouches)

/-- Whatever happens, the step ends, unless the backend answers amiss, or ends the
stream without an error while writes wait. -/
theorem next_spec (h : s.client.Settled) {event : ClientEvent} (he : s.Enabled event)
    (hok : event = .finish none → s.client.waiting s.client.currentUser = [])
    (hexpected : ∀ response, event ≠ .unexpected response) :
    ∃ s', s.next event = some s' ∧ Next s event s' := by
  cases event with
  | write mutations => exact next_write h he
  | enableNetwork => exact next_enableNetwork h
  | disableNetwork => exact next_disableNetwork h
  | credentialChange u => exact next_credentialChange h u
  | credentials closeCount maybeToken => exact next_credentials h he maybeToken
  | backoffElapsed => exact next_backoffElapsed h he
  | idleElapsed => exact next_idleElapsed h he
  | respond response => exact ⟨_, rfl, next_respond h he⟩
  | read => exact next_read h he
  | unexpected response => exact absurd rfl (hexpected response)
  | finish status =>
    cases status with
    | none => exact next_finish_ok h he (hok rfl)
    | some error => exact next_finish_error h he error
  | watch remoteEvent => exact next_watch h remoteEvent
  | limbo key => exact next_limbo h key
  | collect orphaned => exact next_collect h orphaned

end Session

end Firestore

end ToDoList
