import ToDoList.Async.Delivery
import ToDoList.Firestore.WritePipeline

/-!
# The steps of the client

Between the functions that the worker queue runs, the client is settled. For
each of them: it ends without a failed assertion, the client is settled again,
and what it makes of the writes that wait.
-/

namespace ToDoList

namespace Firestore

open MutationQueue LawfulMutationQueue

namespace FirestoreClient

variable {Q : Type} [LawfulMutationQueue Q]

/-- A callback that has not been invoked belongs to a batch that is pending. -/
def Registered (client : FirestoreClient Q) : Prop :=
  ∀ u batchId, client.mutationCallbacks u batchId ≠ none →
    ∃ batch ∈ batches client.localStore.mutationQueue u, batch.batchId = batchId

structure Settled (client : FirestoreClient Q) : Prop extends Ready client where
  registered : client.Registered
  pipeline : client.writePipeline = client.pipelineOf
  linked : Linked client.writeStream client.writePipeline
  handshake : client.writeStream.handshakeComplete = true → client.writeStream.isOpen = true
  needed : client.isNetworkEnabled = true → client.pipelineOf ≠ [] → client.writeStream.isStarted = true
  enabled : client.writeStream.isStarted = true → client.isNetworkEnabled = true

/-- The writes of a user that wait, each with the call that reports it. -/
def waiting (client : FirestoreClient Q) (u : User) : List (Option Nat × List Mutation) :=
  (batches client.localStore.mutationQueue u).map fun batch =>
    (client.mutationCallbacks u batch.batchId, batch.mutations)

/-- How many of them have an answer on the way. -/
def answers (client : FirestoreClient Q) : Nat :=
  if client.writeStream.handshakeComplete then
    ((client.writeStream.grpcStream.map GrpcStream.responses).getD []).length
  else 0

/-- What a step makes of the writes of the user. -/
structure Changes (client client' : FirestoreClient Q) (waiting : List (Option Nat × List Mutation))
    (reports : List (Nat × Status)) : Prop where
  user : client'.currentUser = client.currentUser
  network : client'.isNetworkEnabled = client.isNetworkEnabled
  waiting : client'.waiting = Function.update client.waiting client.currentUser waiting
  invoked : client'.invoked = client.invoked ++ reports
  cache : client'.localStore.remoteDocumentCache = client.localStore.remoteDocumentCache

structure Outcome (client client' : FirestoreClient Q) (waiting : List (Option Nat × List Mutation))
    (reports : List (Nat × Status)) (answers : Nat) : Prop extends Changes client client' waiting reports where
  settled : client'.Settled
  answers : client'.answers = answers

section
variable {client : FirestoreClient Q}

theorem Ready.pending (h : client.Ready) :
    client.localStore.pending = batches client.localStore.mutationQueue client.currentUser := by
  unfold LocalStore.pending
  rw [h.user]

omit [LawfulMutationQueue Q] in
theorem answers_of_closed (h : Linked client.writeStream client.writePipeline)
    (hclosed : client.writeStream.isOpen = false) :
    client.answers = 0 := by
  unfold answers
  rw [(h.closed hclosed).1]
  simp

omit [LawfulMutationQueue Q] in
theorem answers_of_same {writeStream : WriteStream} (h : SameStream client.writeStream writeStream)
    (pipeline : List MutationBatch) :
    answers { client with writePipeline := pipeline, writeStream } = client.answers := by
  unfold answers
  simp only [h.handshake, h.responses]

theorem Filled.settled {writeStream : WriteStream} (h : client.Filled writeStream) (hr : client.Ready)
    (hregistered : client.Registered)
    (hhandshake : client.writeStream.handshakeComplete = true → client.writeStream.isOpen = true) :
    Settled { client with writePipeline := client.pipelineOf, writeStream } where
  valid := hr.valid
  user := hr.user
  registered := hregistered
  pipeline := rfl
  linked := h.linked
  handshake := by
    show writeStream.handshakeComplete = true → writeStream.isOpen = true
    rw [h.same.handshake, h.same.isOpen]
    exact hhandshake
  needed := h.needed
  enabled := h.enabled

/-- What the writes that wait make of a document. -/
def overlay (key : DocumentKey) (waiting : List (Option Nat × List Mutation)) (maybeDoc : Option MaybeDocument) :
    Option MaybeDocument :=
  waiting.foldl (fun maybeDoc entry => entry.2.foldl
    (fun maybeDoc mutation => if mutation.key = key then mutation.applyToLocalView maybeDoc
      else maybeDoc) maybeDoc) maybeDoc

theorem view_eq (h : client.Ready) (key : DocumentKey) : client.localStore.view key =
    overlay key (client.waiting client.currentUser) (client.localStore.remoteDocumentCache key) := by
  unfold LocalStore.view LocalStore.getDocumentIn overlay waiting
  rw [h.pending, List.foldl_map]
  rfl

/-! ## Callbacks -/

omit [LawfulMutationQueue Q] in
theorem notifyUser_eq (batchId : BatchId) (status : Status) : client.notifyUser batchId status =
    { client with
      invoked :=
        client.invoked ++ Async.Delivery.report (client.mutationCallbacks client.currentUser batchId) status
      mutationCallbacks := Function.update client.mutationCallbacks client.currentUser
        (Function.update (client.mutationCallbacks client.currentUser) batchId none) } := by
  unfold notifyUser
  cases hcallback : client.mutationCallbacks client.currentUser batchId with
  | some callback => rfl
  | none =>
    have hnone : Function.update (client.mutationCallbacks client.currentUser) batchId none =
        client.mutationCallbacks client.currentUser := by
      rw [← hcallback, Function.update_eq_self]
    rw [hnone, Function.update_eq_self]
    simp [Async.Delivery.report]

omit [LawfulMutationQueue Q] in
theorem insertCallback_eq {batchId : BatchId} (hfresh : client.mutationCallbacks client.currentUser batchId = none)
    (callback : Nat) : insertCallback batchId callback client =
    { client with
      mutationCallbacks := Function.update client.mutationCallbacks client.currentUser
        (Function.update (client.mutationCallbacks client.currentUser) batchId (some callback)) } := by
  unfold insertCallback
  rw [hfresh]

theorem ids_differ {q : Q} (h : Valid q) {u : User} {l r : List MutationBatch} {batch : MutationBatch}
    (hbatches : batches q u = l ++ batch :: r) : ∀ other ∈ l ++ r, other.batchId ≠ batch.batchId := by
  have hsorted := sorted h u
  rw [hbatches, List.pairwise_append] at hsorted
  obtain ⟨_, hr, hl⟩ := hsorted
  intro other hmem
  rcases List.mem_append.mp hmem with hmem | hmem
  · have := hl other hmem batch (by simp)
    unfold BatchId at *
    omega
  · have := (List.pairwise_cons.mp hr).1 other hmem
    unfold BatchId at *
    omega

theorem map_callbacks_congr {callbacks : BatchId → Option Nat} {batchId : BatchId} {callback : Option Nat}
    {l : List MutationBatch} (h : ∀ other ∈ l, other.batchId ≠ batchId) :
    l.map (fun batch => (Function.update callbacks batchId callback batch.batchId, batch.mutations)) =
      l.map fun batch => (callbacks batch.batchId, batch.mutations) := by
  apply List.map_congr_left
  intro other hmem
  rw [Function.update_of_ne (h other hmem)]

section
variable {client' : FirestoreClient Q} {batch : MutationBatch}

theorem waiting_add (hvalid : Valid client'.localStore.mutationQueue) {callback : Nat}
    (hbatches : batches client'.localStore.mutationQueue = Function.update (batches client.localStore.mutationQueue)
      client.currentUser (batches client.localStore.mutationQueue client.currentUser ++ [batch]))
    (hcallbacks : client'.mutationCallbacks = Function.update client.mutationCallbacks client.currentUser
      (Function.update (client.mutationCallbacks client.currentUser) batch.batchId (some callback))) :
    client'.waiting = Function.update client.waiting client.currentUser
      (client.waiting client.currentUser ++ [(some callback, batch.mutations)]) := by
  have hdiffer := ids_differ hvalid (u := client.currentUser) (r := []) (by rw [hbatches, Function.update_self])
  rw [List.append_nil] at hdiffer
  funext u
  unfold waiting
  rw [hbatches, hcallbacks]
  by_cases hu : u = client.currentUser
  · subst hu
    simp only [Function.update_self, List.map_append, List.map_singleton]
    rw [map_callbacks_congr hdiffer]
  · simp only [Function.update_of_ne hu]

theorem waiting_remove (hvalid : Valid client.localStore.mutationQueue) {rest : List MutationBatch}
    (hqueue : batches client.localStore.mutationQueue client.currentUser = batch :: rest)
    (hbatches : batches client'.localStore.mutationQueue = Function.update (batches client.localStore.mutationQueue)
      client.currentUser rest)
    (hcallbacks : client'.mutationCallbacks = Function.update client.mutationCallbacks client.currentUser
      (Function.update (client.mutationCallbacks client.currentUser) batch.batchId none)) :
    client'.waiting =
      Function.update client.waiting client.currentUser (client.waiting client.currentUser).tail := by
  have hdiffer := ids_differ hvalid (l := []) hqueue
  rw [List.nil_append] at hdiffer
  funext u
  unfold waiting
  rw [hbatches, hcallbacks]
  by_cases hu : u = client.currentUser
  · subst hu
    simp only [Function.update_self, hqueue, List.map_cons, List.tail_cons]
    rw [map_callbacks_congr hdiffer]
  · simp only [Function.update_of_ne hu]

theorem Registered.add (h : client.Registered) {callback : Nat}
    (hbatches : batches client'.localStore.mutationQueue = Function.update (batches client.localStore.mutationQueue)
      client.currentUser (batches client.localStore.mutationQueue client.currentUser ++ [batch]))
    (hcallbacks : client'.mutationCallbacks = Function.update client.mutationCallbacks client.currentUser
      (Function.update (client.mutationCallbacks client.currentUser) batch.batchId (some callback))) :
    client'.Registered := by
  intro u batchId hne
  rw [hcallbacks] at hne
  rw [hbatches]
  by_cases hu : u = client.currentUser
  · subst hu
    simp only [Function.update_self] at hne ⊢
    by_cases hid : batchId = batch.batchId
    · exact ⟨batch, by simp, hid.symm⟩
    · rw [Function.update_of_ne hid] at hne
      obtain ⟨other, hmem, hother⟩ := h _ _ hne
      exact ⟨other, List.mem_append_left _ hmem, hother⟩
  · rw [Function.update_of_ne hu] at hne ⊢
    exact h u batchId hne

theorem Registered.remove (h : client.Registered) {rest : List MutationBatch}
    (hqueue : batches client.localStore.mutationQueue client.currentUser = batch :: rest)
    (hbatches : batches client'.localStore.mutationQueue = Function.update (batches client.localStore.mutationQueue)
      client.currentUser rest)
    (hcallbacks : client'.mutationCallbacks = Function.update client.mutationCallbacks client.currentUser
      (Function.update (client.mutationCallbacks client.currentUser) batch.batchId none)) :
    client'.Registered := by
  intro u batchId hne
  rw [hcallbacks] at hne
  rw [hbatches]
  by_cases hu : u = client.currentUser
  · subst hu
    simp only [Function.update_self] at hne ⊢
    by_cases hid : batchId = batch.batchId
    · rw [hid, Function.update_self] at hne
      exact absurd rfl hne
    · rw [Function.update_of_ne hid] at hne
      obtain ⟨other, hmem, hother⟩ := h _ _ hne
      rw [hqueue] at hmem
      rcases List.mem_cons.mp hmem with rfl | hmem
      · exact absurd hother.symm hid
      · exact ⟨other, hmem, hother⟩
  · rw [Function.update_of_ne hu] at hne ⊢
    exact h u batchId hne

end

/-! ## Writes of the program -/

theorem Filled.outcome {before : FirestoreClient Q} {writeStream : WriteStream}
    {entries : List (Option Nat × List Mutation)}
    {reports : List (Nat × Status)} (h : client.Filled writeStream) (hr : client.Ready)
    (hregistered : client.Registered)
    (hhandshake : client.writeStream.handshakeComplete = true → client.writeStream.isOpen = true)
    (hchanges : Changes before client entries reports) :
    Outcome before { client with
      writePipeline := client.pipelineOf, writeStream } entries reports client.answers where
  user := hchanges.user
  network := hchanges.network
  waiting := hchanges.waiting
  invoked := hchanges.invoked
  cache := hchanges.cache
  settled := h.settled hr hregistered hhandshake
  answers := answers_of_same h.same _

theorem writeMutations_spec (h : client.Settled) {mutations : List Mutation} (hne : mutations ≠ [])
    (callback : Nat) :
    ∃ client', client.writeMutations mutations callback = some client' ∧
      Outcome client client' (client.waiting client.currentUser ++
        [(some callback, mutations)]) [] client.answers := by
  obtain ⟨batch, mutationQueue, changes, hwrite, hm, hvalid, huser, hbatches, _⟩ :=
    LocalStore.writeLocally_spec h.valid hne
  let stored : FirestoreClient Q := { client with localStore := { client.localStore with mutationQueue } }
  have hpending := LocalStore.pending_of_update stored.localStore huser hbatches
  rw [h.toReady.pending, h.user] at hbatches
  have hfresh : stored.mutationCallbacks stored.currentUser batch.batchId = none := by
    by_contra hnot
    obtain ⟨other, hmem, hother⟩ := h.registered _ _ hnot
    have hqueue : batches mutationQueue client.currentUser =
        batches client.localStore.mutationQueue client.currentUser ++ batch :: [] := by
      rw [hbatches, Function.update_self]
    exact ids_differ hvalid hqueue other (List.mem_append_left _ hmem) hother
  let written : FirestoreClient Q := { stored with
    mutationCallbacks := Function.update client.mutationCallbacks client.currentUser
      (Function.update (client.mutationCallbacks client.currentUser) batch.batchId (some callback)) }
  have hready : written.Ready := ⟨hvalid, huser.trans h.user⟩
  have hpipeline : written.writePipeline = if written.isNetworkEnabled then
      written.localStore.pending.take (min kMaxPendingWrites client.localStore.pending.length) else [] := by
    show client.writePipeline = if client.isNetworkEnabled then stored.localStore.pending.take _ else []
    rw [h.pipeline, pipelineOf, hpending, List.take_append_of_le_length (Nat.min_le_right _ _),
      ← List.take_eq_take_min]
  obtain ⟨writeStream, hfill, hfilled⟩ :=
    fillWritePipeline_spec hready h.linked (Nat.min_le_left _ _) hpipeline h.enabled
  refine ⟨_, ?_, hfilled.outcome hready (h.registered.add hbatches rfl) h.handshake
    ⟨rfl, rfl, ?_, (List.append_nil _).symm, rfl⟩⟩
  · unfold writeMutations
    simp only [hwrite, Option.bind_eq_bind, Option.bind_some]
    show (insertCallback batch.batchId callback stored).fillWritePipeline = _
    rw [insertCallback_eq hfresh]
    exact hfill
  · rw [← hm]
    exact waiting_add hvalid hbatches rfl

/-! ## The end of a stream -/

theorem stop_spec (hl : Linked client.writeStream client.writePipeline)
    (hhandshake : client.writeStream.handshakeComplete = true → client.writeStream.isOpen = true)
    (hneeded : client.isNetworkEnabled = true → client.writePipeline = []) :
    ∃ writeStream, client.stop = some { client with writeStream } ∧ writeStream.isStarted = false ∧
      writeStream.handshakeComplete = false ∧ ∀ pipeline, Linked writeStream pipeline := by
  by_cases hstarted : client.writeStream.isStarted = true
  · obtain ⟨_, hstopped⟩ := linked_closing hl.closes none []
    refine ⟨{ client.writeStream.closing none with handshakeComplete := false }, ?_, hstopped, rfl, ?_⟩
    · have hshould :
        FirestoreClient.shouldStartWriteStream { client with writeStream := client.writeStream.closing none } =
          false := by
        by_cases henabled : client.isNetworkEnabled = true
        · simp [shouldStartWriteStream, hneeded henabled]
        · simp [shouldStartWriteStream, canUseNetwork, henabled]
      unfold stop close onWriteStreamClose
      simp [hstarted, hshould, guard]
    · intro pipeline
      exact (linked_closing hl.closes none pipeline).1.reset (isOpen_eq_false hstopped)
  · have hstopped : client.writeStream.isStarted = false := by simpa using hstarted
    have hclosed := isOpen_eq_false hstopped
    obtain ⟨hgrpc, hidle⟩ := hl.closed hclosed
    refine ⟨client.writeStream, ?_, hstopped, ?_, ?_⟩
    · unfold stop close
      simp [hstopped]
    · by_contra hnot
      rw [hhandshake (by simpa using hnot)] at hclosed
      cases hclosed
    · intro pipeline
      apply linked_of_closed hclosed hgrpc hidle
      · intro hnot
        exact absurd hnot hstarted
      · exact hl.backoff
      · exact hl.credentials
      · exact hl.closes

theorem onWriteStreamClose_error (client : FirestoreClient Q) (error : Error) :
    client.onWriteStreamClose (some error) =
      (if client.writePipeline = [] then some client
        else if client.writeStream.handshakeComplete then client.handleWriteError (some error)
        else client.handleHandshakeError (some error)).bind fun handled =>
          if handled.shouldStartWriteStream then handled.startWriteStream else some handled := by
  unfold onWriteStreamClose
  by_cases hempty : client.writePipeline = []
  · simp [hempty, guard]
  · by_cases hshake : client.writeStream.handshakeComplete = true
    · simp [hempty, hshake, guard]
    · simp [hempty, hshake, guard]

theorem close_error_of_handled (closed : FirestoreClient Q) (hstarted : client.writeStream.isStarted = true)
    {error : Error}
    (hclosing : closed = { client with writeStream := client.writeStream.closing (some error) })
    (handled : FirestoreClient Q)
    (hhandled : (if closed.writePipeline = [] then some closed
      else if closed.writeStream.handshakeComplete then closed.handleWriteError (some error)
      else closed.handleHandshakeError (some error)) = some handled)
    (hr : handled.Ready) (hregistered : handled.Registered) (hpipeline : handled.writePipeline = handled.pipelineOf)
    (hl : Linked handled.writeStream handled.writePipeline) (hclosed : handled.writeStream.isOpen = false)
    (henabled : client.isNetworkEnabled = true) {entries : List (Option Nat × List Mutation)}
    {reports : List (Nat × Status)}
    (hchanges : Changes client handled entries reports) :
    ∃ client', client.close (some error) = some client' ∧ Outcome client client' entries reports 0 := by
  obtain ⟨writeStream, hrestart, hlinked, hsame, hneeded, _⟩ := restart_spec hl
  have hreset := hlinked.reset (hsame.isOpen.trans hclosed)
  refine ⟨{ handled with writeStream := { writeStream with handshakeComplete := false } }, ?_, ?_⟩
  · have hclose : closed.onWriteStreamClose (some error) = some { handled with writeStream } := by
      rw [onWriteStreamClose_error, hhandled]
      exact hrestart
    rw [hclosing] at hclose
    unfold close
    simp [hstarted, hclose]
  · refine ⟨⟨hchanges.user, hchanges.network, hchanges.waiting, hchanges.invoked, hchanges.cache⟩, ?_, ?_⟩
    · exact ⟨⟨hr.valid, hr.user⟩, hregistered, hpipeline,
        hreset, by simp, fun hnetwork hne => hneeded hnetwork (hpipeline ▸ hne),
        fun _ => hchanges.network.trans henabled⟩
    · simp [answers]

theorem same_batches (other : FirestoreClient Q) (hr : client.Ready) (hregistered : client.Registered)
    (hpipeline : client.writePipeline = client.pipelineOf) (hvalid : Valid other.localStore.mutationQueue)
    (hqueue : user other.localStore.mutationQueue = user client.localStore.mutationQueue)
    (hbatches : batches other.localStore.mutationQueue = batches client.localStore.mutationQueue)
    (huser : other.currentUser = client.currentUser) (hnetwork : other.isNetworkEnabled = client.isNetworkEnabled)
    (hcallbacks : other.mutationCallbacks = client.mutationCallbacks) (hinvoked : other.invoked = client.invoked)
    (hcache : other.localStore.remoteDocumentCache = client.localStore.remoteDocumentCache)
    (hsame : other.writePipeline = client.writePipeline) :
    other.Ready ∧ other.Registered ∧ other.writePipeline = other.pipelineOf ∧
      Changes client other (client.waiting client.currentUser) [] := by
  have hwaiting : other.waiting = client.waiting := by
    unfold waiting
    rw [hbatches, hcallbacks]
  refine ⟨⟨hvalid, by rw [hqueue, hr.user, huser]⟩, ?_, ?_, huser, hnetwork, ?_, ?_, ?_⟩
  · unfold Registered
    rw [hbatches, hcallbacks]
    exact hregistered
  · unfold pipelineOf LocalStore.pending at hpipeline ⊢
    rw [hsame, hnetwork, hqueue, hbatches]
    exact hpipeline
  · rw [hwaiting, Function.update_eq_self]
  · rw [hinvoked, List.append_nil]
  · exact hcache

theorem batch_answered (answered : FirestoreClient Q) {batch : MutationBatch} {rest : List MutationBatch}
    {status : Status}
    (hr : client.Ready) (hregistered : client.Registered) (hpending : client.localStore.pending = batch :: rest)
    (hvalid : Valid answered.localStore.mutationQueue)
    (hqueue : user answered.localStore.mutationQueue = user client.localStore.mutationQueue)
    (hbatches :
      batches answered.localStore.mutationQueue = Function.update (batches client.localStore.mutationQueue)
      (user client.localStore.mutationQueue) rest)
    (huser : answered.currentUser = client.currentUser)
    (hnetwork : answered.isNetworkEnabled = client.isNetworkEnabled)
    (hcallbacks : answered.mutationCallbacks = Function.update client.mutationCallbacks client.currentUser
      (Function.update (client.mutationCallbacks client.currentUser) batch.batchId none))
    (hinvoked : answered.invoked = client.invoked ++
      Async.Delivery.report (client.mutationCallbacks client.currentUser batch.batchId) status)
    (hcache : answered.localStore.remoteDocumentCache = client.localStore.remoteDocumentCache) :
    answered.Ready ∧ answered.Registered ∧ answered.localStore.pending = rest ∧
      ∃ entry entries, client.waiting client.currentUser = entry :: entries ∧
        Changes client answered entries (Async.Delivery.report entry.1 status) := by
  have hrest := LocalStore.pending_of_update answered.localStore hqueue hbatches
  rw [hr.pending] at hpending
  rw [hr.user] at hbatches
  have hwaiting := waiting_remove hr.valid hpending hbatches hcallbacks
  have hfirst : client.waiting client.currentUser =
    (client.mutationCallbacks client.currentUser batch.batchId, batch.mutations) ::
      rest.map fun batch => (client.mutationCallbacks client.currentUser batch.batchId, batch.mutations) := by
    unfold waiting
    rw [hpending, List.map_cons]
  rw [hfirst, List.tail_cons] at hwaiting
  refine ⟨⟨hvalid, ?_⟩, hregistered.remove hpending hbatches hcallbacks, hrest, _, _, hfirst, huser, hnetwork,
    hwaiting, hinvoked,
    hcache⟩
  rw [hqueue, hr.user, huser]

theorem pipelineOf_tail (hpipeline : client.writePipeline = client.pipelineOf)
    (henabled : client.isNetworkEnabled = true)
    {batch : MutationBatch} {rest : List MutationBatch} (hfront : client.writePipeline = batch :: rest) :
    ∃ later, client.localStore.pending = batch :: later ∧ rest = later.take (kMaxPendingWrites - 1) := by
  rw [hpipeline, pipelineOf, if_pos henabled] at hfront
  cases hpending : client.localStore.pending with
  | nil => simp [hpending] at hfront
  | cons first later =>
    rw [hpending, kMaxPendingWrites, List.take_succ_cons, List.cons.injEq] at hfront
    obtain ⟨rfl, rfl⟩ := hfront
    exact ⟨later, rfl, rfl⟩

theorem handleWriteError_spec (hr : client.Ready) (hregistered : client.Registered)
    (hpipeline : client.writePipeline = client.pipelineOf) (henabled : client.isNetworkEnabled = true)
    (hl : Linked client.writeStream client.writePipeline) (hstopped : client.writeStream.isStarted = false)
    (hne : client.writePipeline ≠ []) {error : Error}
    (herror : Datastore.isPermanentWriteError (some error) = some true) :
    ∃ handled, client.handleWriteError (some error) = some handled ∧ handled.Ready ∧ handled.Registered ∧
      handled.writePipeline = handled.pipelineOf ∧ Linked handled.writeStream handled.writePipeline ∧
      handled.writeStream.isOpen = false ∧ ∃ entry entries, client.waiting client.currentUser = entry :: entries ∧
        Changes client handled entries (Async.Delivery.report entry.1 (some error)) := by
  obtain ⟨batch, rest, hfront⟩ := List.exists_cons_of_ne_nil hne
  obtain ⟨later, hpending, hrest⟩ := pipelineOf_tail hpipeline henabled hfront
  obtain ⟨writeStream, hinhibit, hlinked, hsame, hstopped'⟩ := hl.inhibitBackoff hstopped rest
  obtain ⟨changes, mutationQueue, hreject, hvalid, hqueue, hbatches⟩ :=
    LocalStore.rejectBatch_spec hr.valid hpending
  let rejected : FirestoreClient Q := { client with
    localStore := { client.localStore with mutationQueue }
    invoked := client.invoked ++
      Async.Delivery.report (client.mutationCallbacks client.currentUser batch.batchId) (some error)
    mutationCallbacks := Function.update client.mutationCallbacks client.currentUser
      (Function.update (client.mutationCallbacks client.currentUser) batch.batchId none)
    writePipeline := rest
    writeStream }
  have hrejected : handleRejectedWrite batch.batchId (some error)
    { client with writePipeline := rest, writeStream } =
      some rejected := by
    unfold handleRejectedWrite
    simp only [hreject, Option.bind_eq_bind, Option.bind_some]
    rw [notifyUser_eq]
  obtain ⟨hready, hregistered', hpending', entry, entries, hwaiting, hchanges⟩ :=
    batch_answered rejected hr hregistered hpending hvalid hqueue hbatches rfl rfl rfl rfl rfl
  have hpipeline' : rejected.writePipeline =
      if rejected.isNetworkEnabled then rejected.localStore.pending.take (kMaxPendingWrites - 1) else [] := by
    rw [show rejected.isNetworkEnabled = true from henabled, if_pos rfl, hpending']
    exact hrest
  obtain ⟨writeStream', hfill, hfilled⟩ := fillWritePipeline_spec hready hlinked (Nat.sub_le _ _) hpipeline'
    (fun hnot => absurd (hstopped' ▸ hnot) (by simp))
  refine ⟨{ rejected with writePipeline := rejected.pipelineOf, writeStream := writeStream' }, ?_,
    ⟨hready.valid, hready.user⟩, hregistered', rfl, hfilled.linked, ?_, entry, entries, hwaiting,
    hchanges.user, hchanges.network, hchanges.waiting, hchanges.invoked, hchanges.cache⟩
  · unfold handleWriteError onStream
    simp only [herror, hfront, hinhibit, Option.bind_eq_bind, Option.bind_some, Option.map_some, if_true, hrejected]
    exact hfill
  · rw [hfilled.same.isOpen]
    exact isOpen_eq_false hstopped'

theorem handleHandshakeError_spec (hr : client.Ready) (hl : Linked client.writeStream client.writePipeline)
    (error : Error) :
    ∃ lastStreamToken mutationQueue, client.handleHandshakeError (some error) = some { client with
        writeStream := { client.writeStream with lastStreamToken }
        localStore := { client.localStore with mutationQueue } } ∧
      Valid mutationQueue ∧ user mutationQueue = user client.localStore.mutationQueue ∧
      batches mutationQueue = batches client.localStore.mutationQueue ∧
      Linked { client.writeStream with lastStreamToken } client.writePipeline := by
  obtain ⟨permanent, hpermanent⟩ : ∃ permanent, Datastore.isPermanentError (some error) = some permanent := by
    cases error <;> exact ⟨_, rfl⟩
  unfold handleHandshakeError
  simp only [hpermanent, Option.bind_eq_bind, Option.bind_some]
  cases permanent with
  | true =>
    obtain ⟨hvalid, huser, hbatches, _⟩ := token_eq hr.valid []
    exact ⟨[], MutationQueue.setLastStreamToken [] client.localStore.mutationQueue, rfl, hvalid, huser,
      hbatches, hl.token _⟩
  | false => exact ⟨client.writeStream.lastStreamToken, client.localStore.mutationQueue, rfl, hr.valid, rfl,
    rfl, hl.token _⟩

/-- The first write is rejected when the error is permanent and came after the handshake. -/
theorem close_error_spec (hr : client.Ready) (hregistered : client.Registered)
    (hpipeline : client.writePipeline = client.pipelineOf)
    (hcloses : ∀ closeCount ∈ client.writeStream.credentialRequests, closeCount ≤ client.writeStream.closeCount)
    (hstarted : client.writeStream.isStarted = true) (henabled : client.isNetworkEnabled = true) (error : Error) :
    ∃ client', client.close (some error) = some client' ∧
      (Outcome client client' (client.waiting client.currentUser) [] 0 ∨
        client.writeStream.handshakeComplete = true ∧ Datastore.isPermanentWriteError (some error) = some true ∧
        ∃ entry entries, client.waiting client.currentUser = entry :: entries ∧
          Outcome client client' entries (Async.Delivery.report entry.1 (some error)) 0) := by
  obtain ⟨hlinked, hstopped⟩ := linked_closing hcloses (some error) client.writePipeline
  have hclosed := isOpen_eq_false hstopped
  let closed : FirestoreClient Q := { client with writeStream := client.writeStream.closing (some error) }
  obtain ⟨hready, hregistered', hpipeline', hsame⟩ :=
    same_batches closed hr hregistered hpipeline hr.valid rfl rfl rfl rfl rfl rfl rfl rfl
  have hof := close_error_of_handled closed hstarted rfl
  by_cases hempty : client.writePipeline = []
  · obtain ⟨client', hclose, houtcome⟩ :=
      hof closed (if_pos hempty) hready hregistered' hpipeline' hlinked hclosed henabled hsame
    exact ⟨client', hclose, .inl houtcome⟩
  rw [if_neg (show ¬ closed.writePipeline = [] from hempty)] at hof
  by_cases hshake : closed.writeStream.handshakeComplete = true
  · rw [if_pos hshake] at hof
    obtain ⟨permanent, hpermanent⟩ : ∃ permanent, Datastore.isPermanentWriteError (some error) =
      some permanent := by
      cases error <;> exact ⟨_, rfl⟩
    cases permanent with
    | true =>
      obtain ⟨handled, hhandle, hready', hregistered', hpipeline', hlinked', hclosed', entry, entries, hwaiting,
        hchanges⟩ :=
        handleWriteError_spec hready hregistered hpipeline henabled hlinked hstopped hempty hpermanent
      obtain ⟨client', hclose, houtcome⟩ :=
        hof handled hhandle hready' hregistered' hpipeline' hlinked' hclosed' henabled
        ⟨hchanges.user, hchanges.network, hchanges.waiting, hchanges.invoked, hchanges.cache⟩
      exact ⟨client', hclose, .inr ⟨hshake, hpermanent, entry, entries, hwaiting, houtcome⟩⟩
    | false =>
      have hhandle : closed.handleWriteError (some error) = some closed := by
        unfold handleWriteError
        simp [hpermanent]
      obtain ⟨client', hclose, houtcome⟩ :=
        hof closed hhandle hready hregistered' hpipeline' hlinked hclosed henabled hsame
      exact ⟨client', hclose, .inl houtcome⟩
  · rw [if_neg hshake] at hof
    obtain ⟨lastStreamToken, mutationQueue, hhandle, hvalid, hqueue, hbatches, hlinked'⟩ :=
      handleHandshakeError_spec hready hlinked error
    let handled : FirestoreClient Q := { closed with
      writeStream := { closed.writeStream with lastStreamToken }
      localStore := { closed.localStore with mutationQueue } }
    obtain ⟨hready', hregistered', hpipeline', hsame'⟩ :=
      same_batches handled hr hregistered hpipeline hvalid hqueue hbatches rfl rfl rfl rfl rfl rfl
    obtain ⟨client', hclose, houtcome⟩ :=
      hof handled hhandle hready' hregistered' hpipeline' hlinked' hclosed henabled hsame'
    exact ⟨client', hclose, .inl houtcome⟩

/-! ## Answers -/

omit [LawfulMutationQueue Q] in
theorem writeAll_spec {sent : List MutationBatch} (pipeline : List MutationBatch)
    (hl : Linked client.writeStream sent)
    (hopen : client.writeStream.isOpen = true) (hshake : client.writeStream.handshakeComplete = true) :
    ∃ writeStream,
      pipeline.foldlM (fun client write => client.onStream (WriteStream.writeMutations write.mutations)) client =
        some { client with writeStream } ∧
      Linked writeStream (sent ++ pipeline) ∧ SameStream client.writeStream writeStream := by
  induction pipeline generalizing client sent with
  | nil => exact ⟨client.writeStream, rfl, by rw [List.append_nil]; exact hl, .refl _⟩
  | cons batch pipeline ih =>
    obtain ⟨writeStream, hwrite, hlinked, hsame⟩ := hl.write hopen hshake batch
    let written : FirestoreClient Q := { client with writeStream }
    have hopen' : written.writeStream.isOpen = true := hsame.isOpen.trans hopen
    have hshake' : written.writeStream.handshakeComplete = true := hsame.handshake.trans hshake
    have hlinked : Linked written.writeStream (sent ++ [batch]) := hlinked
    obtain ⟨writeStream', hfold, hlinked', hsame'⟩ := ih hlinked hopen' hshake'
    refine ⟨writeStream', ?_, ?_, hsame.trans hsame'⟩
    · rw [List.foldlM_cons, show client.onStream (WriteStream.writeMutations batch.mutations) =
        some written from ?_]
      · exact hfold
      · unfold onStream
        rw [hwrite]
        rfl
    · rw [List.append_assoc] at hlinked'
      exact hlinked'

theorem onStreamRead_result (hopen : client.writeStream.isOpen = true)
    (hshake : client.writeStream.handshakeComplete = true)
    (response : WriteResponse) : client.onStreamRead response = onWriteStreamMutationResult response.result
      { client with writeStream := { client.writeStream with lastStreamToken := response.streamToken } } := by
  unfold onStreamRead notifyStreamResponse
  rw [if_pos (isStarted_of_isOpen hopen)]
  exact if_pos hshake

theorem onStreamRead_handshake (hopen : client.writeStream.isOpen = true)
    (hshake : client.writeStream.handshakeComplete = false) (response : WriteResponse) :
    client.onStreamRead response = onWriteStreamHandshakeComplete
      { client with writeStream :=
        { client.writeStream with lastStreamToken := response.streamToken, handshakeComplete := true } } := by
  unfold onStreamRead notifyStreamResponse
  rw [if_pos (isStarted_of_isOpen hopen)]
  exact if_neg (by simp [hshake])

section
variable {request : WriteRequest} {requests : List WriteRequest} {response : WriteResponse}
    {responses : List WriteResponse}

theorem read_handshake_spec (h : client.Settled) (hshake : client.writeStream.handshakeComplete = false)
    (hg : client.writeStream.grpcStream = some ⟨request :: requests, response :: responses⟩) :
    ∃ client', onStreamRead response { client with
        writeStream := { client.writeStream with grpcStream := some ⟨requests, responses⟩ } } = some client' ∧
      client'.writeStream.handshakeComplete = true ∧
        Outcome client client' (client.waiting client.currentUser) [] 0 := by
  obtain ⟨rfl, rfl, hlinked⟩ := h.linked.shake hshake hg response.streamToken
  have hopen : client.writeStream.isOpen = true := by
    rw [h.linked.isOpen, hg]
    rfl
  obtain ⟨hvalid, hqueue, hbatches, _⟩ := token_eq h.valid response.streamToken
  let shaken : FirestoreClient Q := { client with
    localStore := client.localStore.setLastStreamToken response.streamToken
    writeStream := { client.writeStream with
      grpcStream := some ⟨[], []⟩, handshakeComplete := true, lastStreamToken := response.streamToken } }
  have hlinked : Linked shaken.writeStream [] := hlinked
  obtain ⟨writeStream, hwrite, hlinked', hsame⟩ := writeAll_spec client.writePipeline hlinked hopen rfl
  obtain ⟨hready, hregistered, hpipeline, hchanges⟩ :=
    same_batches { shaken with writeStream } h.toReady h.registered h.pipeline
    hvalid hqueue hbatches rfl rfl rfl rfl rfl rfl
  have hopen' : writeStream.isOpen = true := hsame.isOpen.trans hopen
  refine ⟨{ shaken with writeStream }, ?_, hsame.handshake, hchanges, ?_, ?_⟩
  · rw [onStreamRead_handshake]
    · exact hwrite
    · exact hopen
    · exact hshake
  · exact ⟨hready, hregistered, hpipeline, hlinked', fun _ => hopen', fun _ _ => isStarted_of_isOpen hopen',
      fun _ => h.enabled (isStarted_of_isOpen hopen)⟩
  · have hresponses : writeStream.grpcStream.map GrpcStream.responses = some [] := hsame.responses
    unfold answers
    rw [hresponses]
    simp

def cached (client : FirestoreClient Q) (batch : MutationBatch) (result : MutationBatchResult) :
    FirestoreClient Q :=
  { client with localStore := { client.localStore with
    remoteDocumentCache :=
      fun key => batch.acknowledgedDocument result key (client.localStore.remoteDocumentCache key) } }

theorem read_result_spec (h : client.Settled) (hshake : client.writeStream.handshakeComplete = true)
    (hg : client.writeStream.grpcStream = some ⟨request :: requests, response :: responses⟩) :
    ∃ client' batch later entry entries, onStreamRead response { client with
        writeStream := { client.writeStream with grpcStream := some ⟨requests, responses⟩ } } = some client' ∧
      client.localStore.pending = batch :: later ∧ client'.localStore.pending = later ∧
      batch.mutations.length = response.result.mutationResults.length ∧
      client.waiting client.currentUser = entry :: entries ∧ client'.writeStream.handshakeComplete = true ∧
      Outcome (client.cached batch response.result) client' entries (Async.Delivery.report entry.1 none)
        responses.length := by
  obtain ⟨batch, rest, hfront, hlen, hlinked⟩ := h.linked.read hshake hg
  have hopen : client.writeStream.isOpen = true := h.handshake hshake
  have henabled := h.enabled (isStarted_of_isOpen hopen)
  obtain ⟨later, hpending, hrest⟩ := pipelineOf_tail h.pipeline henabled hfront
  obtain ⟨changes, mutationQueue, hack, hvalid, hqueue, hbatches⟩ :=
    LocalStore.acknowledgeBatch_spec h.valid hpending hlen response.streamToken
  have hready : (client.cached batch response.result).Ready := ⟨h.valid, h.user⟩
  let acknowledged : FirestoreClient Q := { client with
    localStore := { (client.cached batch response.result).localStore with mutationQueue }
    invoked :=
      client.invoked ++ Async.Delivery.report (client.mutationCallbacks client.currentUser batch.batchId) none
    mutationCallbacks := Function.update client.mutationCallbacks client.currentUser
      (Function.update (client.mutationCallbacks client.currentUser) batch.batchId none)
    writePipeline := rest
    writeStream := { client.writeStream with
      grpcStream := some ⟨requests, responses⟩, lastStreamToken := response.streamToken } }
  obtain ⟨hready, hregistered, hpending', entry, entries, hwaiting, hchanges⟩ :=
    batch_answered acknowledged hready h.registered hpending hvalid hqueue hbatches rfl rfl rfl rfl rfl
  have hpipeline : acknowledged.writePipeline =
      if acknowledged.isNetworkEnabled then acknowledged.localStore.pending.take (kMaxPendingWrites - 1)
        else [] := by
    rw [show acknowledged.isNetworkEnabled = true from henabled, if_pos rfl, hpending']
    exact hrest
  obtain ⟨writeStream, hfill, hfilled⟩ := fillWritePipeline_spec hready (hlinked.token response.streamToken)
    (Nat.sub_le _ _)
    hpipeline (fun _ => henabled)
  refine ⟨{ acknowledged with writePipeline := acknowledged.pipelineOf, writeStream }, batch, later, entry,
    entries, ?_,
    hpending, hpending', hlen, hwaiting, hfilled.same.handshake.trans hshake, ?_⟩
  · rw [onStreamRead_result]
    · unfold onWriteStreamMutationResult handleSuccessfulWrite
      simp only [hfront, notifyUser_eq, hack, Option.bind_eq_bind, Option.bind_some]
      exact hfill
    · exact hopen
    · exact hshake
  · have hanswers : acknowledged.answers = responses.length := by
      unfold answers
      simp [acknowledged, hshake]
    rw [← hanswers]
    exact hfilled.outcome hready hregistered (fun _ => hopen) hchanges

end

/-! ## Timers and credentials -/

theorem backoffElapsed_spec (h : client.Settled) (hstate : client.writeStream.state = .backoff) :
    ∃ client', client.onStream WriteStream.backoffElapsed = some client' ∧ client'.writeStream.state = .starting ∧
      Outcome client client' (client.waiting client.currentUser) [] client.answers := by
  have hclosed := isOpen_of_state hstate (by simp)
  have hstarted : client.writeStream.isStarted = true := by
    unfold WriteStream.isStarted
    simp [hstate]
  obtain ⟨hgrpc, hidle⟩ := h.linked.closed hclosed
  have hcredentials := h.linked.credentials
  rw [hstate, if_neg (by simp)] at hcredentials
  let elapsed : FirestoreClient Q := { client with writeStream := { client.writeStream with
    state := .starting
    backoffTimer := false
    credentialRequests := client.writeStream.credentialRequests ++ [client.writeStream.closeCount] } }
  have hlinked : Linked elapsed.writeStream elapsed.writePipeline := by
    apply linked_of_closed
    · exact isOpen_of_state rfl (by simp)
    · exact hgrpc
    · exact hidle
    · intro _
      apply h.linked.waiting hstarted
      intro hopen
      rw [hclosed] at hopen
      cases hopen
    · rfl
    · rw [List.count_append, hcredentials]
      simp [elapsed]
    · intro closeCount hmem
      rcases List.mem_append.mp hmem with hmem | hmem
      · exact h.linked.closes closeCount hmem
      · exact (List.mem_singleton.mp hmem).le
  have hnot : elapsed.writeStream.handshakeComplete = true → elapsed.writeStream.isOpen = true := by
    intro hshake
    have hopen := h.handshake hshake
    rw [hclosed] at hopen
    cases hopen
  obtain ⟨hready, hregistered, hpipeline, hchanges⟩ :=
    same_batches elapsed h.toReady h.registered h.pipeline h.valid rfl rfl rfl rfl rfl rfl rfl rfl
  refine ⟨elapsed, ?_, rfl, hchanges, ?_, rfl⟩
  · unfold onStream WriteStream.backoffElapsed
    rw [if_pos hstate]
    simp [WriteStream.start, WriteStream.requestCredentials, WriteStream.isStarted, elapsed]
  · exact ⟨hready, hregistered, hpipeline, hlinked, hnot, fun _ _ => by simp [WriteStream.isStarted, elapsed],
      fun _ => h.enabled hstarted⟩

theorem credentialsReceived_spec (h : client.Settled) {closeCount : Nat}
    (hmem : closeCount ∈ client.writeStream.credentialRequests) (maybeToken : Status) :
    ∃ client', credentialsReceived closeCount maybeToken { client with
        writeStream := { client.writeStream with
          credentialRequests := client.writeStream.credentialRequests.erase closeCount } } = some client' ∧
      (closeCount = client.writeStream.closeCount → maybeToken = none →
        client'.writeStream.isOpen = true ∧ client'.writeStream.handshakeComplete = false) ∧
      Outcome client client' (client.waiting client.currentUser) [] client.answers := by
  let erased : FirestoreClient Q := { client with
    writeStream :=
      { client.writeStream with credentialRequests := client.writeStream.credentialRequests.erase closeCount } }
  have hcredentials := h.linked.credentials
  have hcloses : ∀ c ∈ erased.writeStream.credentialRequests, c ≤ erased.writeStream.closeCount :=
    fun c hc => h.linked.closes c (List.mem_of_mem_erase hc)
  obtain ⟨hready, hregistered, hpipeline, hchanges⟩ :=
    same_batches erased h.toReady h.registered h.pipeline h.valid rfl rfl rfl rfl rfl rfl rfl rfl
  by_cases hcurrent : closeCount = client.writeStream.closeCount
  · have hstate : client.writeStream.state = .starting := by
      by_contra hnot
      rw [if_neg hnot, List.count_eq_zero] at hcredentials
      exact hcredentials (hcurrent ▸ hmem)
    have hclosed := isOpen_of_state hstate (by simp)
    have hshake : client.writeStream.handshakeComplete = false := by
      by_contra hnot
      have hopen := h.handshake (by simpa using hnot)
      rw [hclosed] at hopen
      cases hopen
    have hstarted : client.writeStream.isStarted = true := by
      unfold WriteStream.isStarted
      simp [hstate]
    have henabled := h.enabled hstarted
    have hresume : credentialsReceived closeCount maybeToken erased =
      erased.resumeStartWithCredentials maybeToken :=
      if_pos hcurrent.symm
    rw [answers_of_closed h.linked hclosed, show credentialsReceived closeCount maybeToken { client with
      writeStream := { client.writeStream with
        credentialRequests := client.writeStream.credentialRequests.erase closeCount } } = _ from hresume]
    unfold resumeStartWithCredentials
    rw [if_pos (show erased.writeStream.state = .starting from hstate)]
    cases maybeToken with
    | none =>
      obtain ⟨writeStream, hwrite, hopen, hshake', hlinked⟩ := h.linked.opened hstate hshake
      refine ⟨{ erased with writeStream }, ?_, fun _ _ => ⟨hopen, hshake'⟩,
        ⟨hchanges.user, hchanges.network, hchanges.waiting, hchanges.invoked, hchanges.cache⟩, ?_, ?_⟩
      · subst hcurrent
        simp only [ne_eq, not_true_eq_false, if_false, onStream]
        exact congrArg (Option.map fun writeStream => { erased with writeStream }) hwrite
      · exact ⟨⟨hready.valid, hready.user⟩, hregistered, hpipeline, hlinked, fun _ => hopen,
          fun _ _ => isStarted_of_isOpen hopen, fun _ => henabled⟩
      · unfold answers
        simp [hshake']
    | some error =>
      obtain ⟨client', hclose, houtcome⟩ :=
        close_error_spec hready hregistered hpipeline hcloses hstarted henabled error
      refine ⟨client', hclose, fun _ hnot => absurd hnot (by simp), ?_⟩
      rcases houtcome with houtcome | ⟨hnot, _⟩
      · exact ⟨⟨houtcome.user, houtcome.network, houtcome.waiting, houtcome.invoked, houtcome.cache⟩,
          houtcome.settled,
          houtcome.answers⟩
      · have hnot : client.writeStream.handshakeComplete = true := hnot
        rw [hshake] at hnot
        cases hnot
  · refine ⟨erased, ?_, fun hnot => absurd hnot hcurrent, hchanges, ?_, rfl⟩
    · exact if_neg (Ne.symm hcurrent)
    · refine ⟨hready, hregistered, hpipeline, ?_, h.handshake, h.needed, h.enabled⟩
      refine ⟨h.linked.isOpen, h.linked.answered, h.linked.shaking, h.linked.writing, h.linked.waiting,
        h.linked.idle,
        h.linked.backoff, ?_, hcloses⟩
      rw [← hcredentials]
      exact List.count_erase_of_ne (Ne.symm hcurrent)

/-! ## Stopping and finishing -/

theorem stopped_outcome (h : client.Settled) (hempty : client.writePipeline = []) :
    ∃ client', client.stop = some client' ∧ Outcome client client' (client.waiting client.currentUser) [] 0 := by
  obtain ⟨writeStream, hstop, hstopped, hshake, hlinked⟩ := stop_spec h.linked h.handshake (fun _ => hempty)
  obtain ⟨hready, hregistered, hpipeline, hchanges⟩ :=
    same_batches { client with writeStream } h.toReady h.registered h.pipeline
    h.valid rfl rfl rfl rfl rfl rfl rfl rfl
  have hnone : client.pipelineOf = [] := by rw [← h.pipeline, hempty]
  refine ⟨_, hstop, hchanges, ?_, ?_⟩
  · refine ⟨hready, hregistered, hpipeline, hlinked _, ?_, fun _ hne => absurd hnone hne, ?_⟩
    · intro hnot
      rw [show writeStream.handshakeComplete = false from hshake] at hnot
      cases hnot
    · intro hnot
      rw [show writeStream.isStarted = false from hstopped] at hnot
      cases hnot
  · unfold answers
    simp [hshake]

theorem pipelineOf_eq_nil (henabled : client.isNetworkEnabled = true) :
    client.pipelineOf = [] ↔ client.localStore.pending = [] := by
  unfold pipelineOf kMaxPendingWrites
  rw [if_pos henabled]
  simp

theorem Settled.waiting_eq_nil (h : client.Settled) (henabled : client.isNetworkEnabled = true) :
    client.waiting client.currentUser = [] ↔ client.writePipeline = [] := by
  rw [h.pipeline, pipelineOf_eq_nil henabled, h.toReady.pending]
  unfold waiting
  exact List.map_eq_nil_iff

/-- The backend may not end the stream without an error while writes wait. -/
theorem close_ok_eq_none (h : client.Settled) (hopen : client.writeStream.isOpen = true) :
    client.close none = none ↔ client.waiting client.currentUser ≠ [] := by
  have hstarted := isStarted_of_isOpen hopen
  have henabled := h.enabled hstarted
  rw [ne_eq, h.waiting_eq_nil henabled]
  by_cases hempty : client.writePipeline = []
  · obtain ⟨client', hstop, _⟩ := stopped_outcome h hempty
    unfold stop at hstop
    simp [hstop, hempty]
  · obtain ⟨_, hstopped⟩ := linked_closing h.linked.closes none []
    have hshould :
      FirestoreClient.shouldStartWriteStream { client with writeStream := client.writeStream.closing none } =
        true := by
      unfold shouldStartWriteStream canUseNetwork
      simp [henabled, hstopped, hempty]
    unfold close onWriteStreamClose
    simp [hstarted, hshould, hempty, guard]

/-! ## The network -/

theorem enableNetwork_spec (h : client.Settled) :
    ∃ client', client.enableNetwork = some client' ∧
      Outcome { client with
        isNetworkEnabled := true } client' (client.waiting client.currentUser) [] client.answers := by
  let enabled : FirestoreClient Q := { client with
    isNetworkEnabled := true
    writeStream :=
      { client.writeStream with lastStreamToken := getLastStreamToken client.localStore.mutationQueue } }
  have hpipeline : enabled.writePipeline = if enabled.isNetworkEnabled then
      enabled.localStore.pending.take (if client.isNetworkEnabled then kMaxPendingWrites else 0) else [] := by
    show client.writePipeline = client.localStore.pending.take _
    rw [h.pipeline]
    unfold pipelineOf
    split <;> simp
  have hmax : (if client.isNetworkEnabled then kMaxPendingWrites else 0) ≤ kMaxPendingWrites := by
    split <;> omega
  have hready : enabled.Ready := ⟨h.valid, h.user⟩
  obtain ⟨writeStream, hfill, hfilled⟩ :=
    fillWritePipeline_spec hready (h.linked.token _) hmax hpipeline (fun _ => rfl)
  refine ⟨_, hfill, ?_⟩
  exact hfilled.outcome hready h.registered h.handshake
    ⟨rfl, rfl, (Function.update_eq_self _ _).symm, (List.append_nil _).symm, rfl⟩

theorem disableNetwork_spec (hr : client.Ready) (hregistered : client.Registered)
    (hl : Linked client.writeStream client.writePipeline)
    (hhandshake : client.writeStream.handshakeComplete = true → client.writeStream.isOpen = true) :
    ∃ client', client.disableNetwork = some client' ∧
      Outcome { client with isNetworkEnabled := false } client' (client.waiting client.currentUser) [] 0 := by
  let disabled : FirestoreClient Q := { client with isNetworkEnabled := false }
  have hl : Linked disabled.writeStream disabled.writePipeline := hl
  obtain ⟨writeStream, hstop, hstopped, hshake, hlinked⟩ := stop_spec hl hhandshake (by intro hnot; cases hnot)
  refine ⟨{ disabled with writePipeline := [], writeStream }, ?_,
    ⟨rfl, rfl, (Function.update_eq_self _ _).symm, (List.append_nil _).symm, rfl⟩, ?_, ?_⟩
  · unfold disableNetwork
    rw [show stop { client with isNetworkEnabled := false } = _ from hstop]
    rfl
  · refine ⟨⟨hr.valid, hr.user⟩, hregistered, rfl, hlinked [], ?_, (by intro hnot; cases hnot), ?_⟩
    · intro hnot
      rw [show writeStream.handshakeComplete = false from hshake] at hnot
      cases hnot
    · intro hnot
      rw [show writeStream.isStarted = false from hstopped] at hnot
      cases hnot
  · unfold answers
    simp [hshake]

theorem restartNetwork_spec (hr : client.Ready) (hregistered : client.Registered)
    (hl : Linked client.writeStream client.writePipeline)
    (hhandshake : client.writeStream.handshakeComplete = true → client.writeStream.isOpen = true)
    (henabled : client.writeStream.isStarted = true → client.isNetworkEnabled = true)
    (hempty : client.isNetworkEnabled = false → client.writePipeline = []) :
    ∃ client', client.restartNetwork = some client' ∧
      Outcome client client' (client.waiting client.currentUser) [] 0 := by
  unfold restartNetwork canUseNetwork
  by_cases hnetwork : client.isNetworkEnabled = true
  · obtain ⟨disabled, hdisable, houtcome⟩ := disableNetwork_spec hr hregistered hl hhandshake
    obtain ⟨enabled, henable, houtcome'⟩ := enableNetwork_spec houtcome.settled
    have huser : disabled.currentUser = client.currentUser := houtcome.user
    have hwaiting : disabled.waiting = client.waiting := houtcome.waiting.trans (Function.update_eq_self _ _)
    have hinvoked : disabled.invoked = client.invoked := houtcome.invoked.trans (List.append_nil _)
    refine ⟨enabled, ?_, ⟨houtcome'.user.trans huser, ?_, ?_, ?_, ?_⟩, houtcome'.settled, ?_⟩
    · rw [if_pos hnetwork, hdisable]
      exact henable
    · rw [hnetwork]
      exact houtcome'.network
    · rw [houtcome'.waiting]
      show Function.update disabled.waiting disabled.currentUser (disabled.waiting disabled.currentUser) = _
      rw [Function.update_eq_self, Function.update_eq_self, hwaiting]
    · rw [← hinvoked]
      exact houtcome'.invoked
    · exact houtcome'.cache.trans houtcome.cache
    · rw [houtcome'.answers, houtcome.answers]
  · have hnetwork : client.isNetworkEnabled = false := by simpa using hnetwork
    have hstopped : client.writeStream.isStarted = false := by
      by_contra hnot
      have hnot := henabled (by simpa using hnot)
      rw [hnetwork] at hnot
      cases hnot
    have hnone : client.pipelineOf = [] := by
      unfold pipelineOf
      rw [hnetwork]
      rfl
    refine ⟨client, by simp [hnetwork],
      ⟨rfl, rfl, (Function.update_eq_self _ _).symm, (List.append_nil _).symm, rfl⟩, ?_, ?_⟩
    · refine ⟨hr, hregistered, (hempty hnetwork).trans hnone.symm, hl, hhandshake,
        fun _ hne => absurd hnone hne, henabled⟩
    · exact answers_of_closed hl (isOpen_eq_false hstopped)

theorem handleCredentialChange_spec (h : client.Settled) (newUser : User) :
    ∃ client', client.handleCredentialChange newUser = some client' ∧
      Outcome { client with currentUser := newUser } client' (client.waiting newUser) [] 0 := by
  have hempty : client.isNetworkEnabled = false → client.writePipeline = [] := by
    intro hnetwork
    rw [h.pipeline]
    unfold pipelineOf
    rw [hnetwork]
    rfl
  unfold handleCredentialChange
  by_cases hsame : client.currentUser = newUser
  · subst hsame
    obtain ⟨client', hrestart, houtcome⟩ :=
      restartNetwork_spec h.toReady h.registered h.linked h.handshake h.enabled hempty
    exact ⟨client', by simpa using hrestart, houtcome⟩
  · obtain ⟨changes, mutationQueue, hchange, hvalid, huser, hbatches⟩ :=
      LocalStore.handleUserChange_spec h.valid newUser
    let changed : FirestoreClient Q := { client with
      currentUser := newUser
      localStore := { client.localStore with mutationQueue } }
    have hregistered : changed.Registered := by
      unfold Registered
      rw [show batches changed.localStore.mutationQueue = batches client.localStore.mutationQueue from hbatches]
      exact h.registered
    have hwaiting : changed.waiting = client.waiting := by
      unfold waiting
      rw [show batches changed.localStore.mutationQueue = batches client.localStore.mutationQueue from hbatches]
    have hready : changed.Ready := ⟨hvalid, huser⟩
    obtain ⟨client', hrestart, houtcome⟩ :=
      restartNetwork_spec hready hregistered h.linked h.handshake h.enabled hempty
    refine ⟨client', ?_, ⟨houtcome.user, houtcome.network, ?_, houtcome.invoked, houtcome.cache⟩, houtcome.settled,
      houtcome.answers⟩
    · simpa [hsame, hchange] using hrestart
    · rw [houtcome.waiting, hwaiting]
      rfl

/-! ## Remote events -/

theorem watchSnapshot_spec (h : client.Settled) (remoteEvent : RemoteEvent) :
    ∃ cache version, client.watchSnapshot remoteEvent = some { client with
        localStore :=
          { client.localStore with remoteDocumentCache := cache, lastRemoteSnapshotVersion := version } } ∧
      remoteEvent.Keeps client.localStore.remoteDocumentCache cache ∧
      ∀ key, key ∉ remoteEvent.documentUpdates.map Prod.fst →
        cache key = client.localStore.remoteDocumentCache key := by
  unfold watchSnapshot
  by_cases hraised : remoteEvent.snapshotVersion ≠ 0 ∧
      client.localStore.lastRemoteSnapshotVersion ≤ remoteEvent.snapshotVersion
  · obtain ⟨changes, cache, version, happly, hkeeps, _, hframe⟩ :=
      LocalStore.applyRemoteEvent_spec h.valid (.inl hraised)
    refine ⟨cache, version, ?_, hkeeps, hframe⟩
    rw [if_pos hraised]
    simp [happly]
  · refine ⟨client.localStore.remoteDocumentCache, client.localStore.lastRemoteSnapshotVersion, ?_,
      fun _ doc hdoc _ => ⟨doc, hdoc, le_rfl⟩, fun _ _ => rfl⟩
    rw [if_neg hraised]

theorem limboRejected_spec (h : client.Settled) (key : DocumentKey) :
    ∃ cache version, client.limboRejected key = some { client with
        localStore :=
          { client.localStore with remoteDocumentCache := cache, lastRemoteSnapshotVersion := version } } ∧
      ∀ other ≠ key, cache other = client.localStore.remoteDocumentCache other := by
  have hdeliverable : client.localStore.Deliverable ⟨0, [(key, .noDocument 0 false)], by simp⟩ :=
    .inr ⟨rfl, by simp [MaybeDocument.isRemoval]⟩
  obtain ⟨changes, cache, version, happly, _, _, hframe⟩ := LocalStore.applyRemoteEvent_spec h.valid hdeliverable
  refine ⟨cache, version, ?_, ?_⟩
  · unfold limboRejected
    simp [happly]
  · intro other hother
    apply hframe
    simpa using hother

theorem Settled.cached (h : client.Settled) (cache : MaybeDocumentMap) (version : SnapshotVersion) :
    Settled { client with
      localStore :=
        { client.localStore with remoteDocumentCache := cache, lastRemoteSnapshotVersion := version } } :=
  ⟨⟨h.valid, h.user⟩, h.registered, h.pipeline, h.linked, h.handshake, h.needed, h.enabled⟩

end

end FirestoreClient

end Firestore

end ToDoList
