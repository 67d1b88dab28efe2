import ToDoList.Async.System
import ToDoList.Firestore.FirestoreClient

/-!
# The write pipeline

The pipeline has the first batches of the queue, and the open stream has one
request for each of them. No assertion of the client fails, whatever happens on
the network.
-/

namespace ToDoList

namespace Firestore

open MutationQueue LawfulMutationQueue

/-! ## The stream and the pipeline -/

def WriteRequest.writes : WriteRequest → Option (List Mutation)
  | handshake => none
  | mutations ms _ => some ms

/-- The backend gives a result for each mutation. -/
def WriteRequest.Answers (request : WriteRequest) (response : WriteResponse) : Prop :=
  ∀ mutations ∈ request.writes, mutations.length = response.result.mutationResults.length

def GrpcStream.Answered (grpcStream : GrpcStream) : Prop :=
  ∀ (i : Nat) (response : WriteResponse), grpcStream.responses[i]? = some response →
    ∃ request : WriteRequest, grpcStream.requests[i]? = some request ∧ request.Answers response

def requestsOf (pipeline : List MutationBatch) : List (Option (List Mutation)) :=
  pipeline.map fun batch => some batch.mutations

structure Linked (stream : WriteStream) (pipeline : List MutationBatch) : Prop where
  isOpen : stream.isOpen = stream.grpcStream.isSome
  answered : ∀ grpcStream ∈ stream.grpcStream, grpcStream.Answered
  shaking : ∀ grpcStream ∈ stream.grpcStream, stream.handshakeComplete = false →
    grpcStream.requests.map WriteRequest.writes = [none]
  writing : ∀ grpcStream ∈ stream.grpcStream, stream.handshakeComplete = true →
    grpcStream.requests.map WriteRequest.writes = requestsOf pipeline
  waiting : stream.isStarted = true → (stream.isOpen = true → stream.handshakeComplete = false) → pipeline ≠ []
  idle : stream.idlenessTimer = true → stream.isOpen = true ∧ stream.handshakeComplete = true ∧ pipeline = []
  backoff : stream.backoffTimer = decide (stream.state = .backoff)
  credentials : stream.credentialRequests.count stream.closeCount = if stream.state = .starting then 1 else 0
  closes : ∀ closeCount ∈ stream.credentialRequests, closeCount ≤ stream.closeCount

structure SameStream (stream stream' : WriteStream) : Prop where
  isOpen : stream'.isOpen = stream.isOpen
  handshake : stream'.handshakeComplete = stream.handshakeComplete
  responses : stream'.grpcStream.map GrpcStream.responses = stream.grpcStream.map GrpcStream.responses

theorem SameStream.refl (stream : WriteStream) : SameStream stream stream := ⟨rfl, rfl, rfl⟩

theorem SameStream.trans {s t u : WriteStream} (h : SameStream s t) (h' : SameStream t u) : SameStream s u :=
  ⟨h'.isOpen.trans h.isOpen, h'.handshake.trans h.handshake, h'.responses.trans h.responses⟩

section
variable {stream : WriteStream} {pipeline : List MutationBatch}

theorem isStarted_of_isOpen (h : stream.isOpen = true) : stream.isStarted = true := by
  unfold WriteStream.isStarted
  simp [h]

theorem isOpen_eq_false (h : stream.isStarted = false) : stream.isOpen = false := by
  unfold WriteStream.isStarted at h
  rw [Bool.or_eq_false_iff] at h
  exact h.2

theorem isOpen_of_state {state : StreamState} (hstate : stream.state = state) (hne : state ≠ .open_) :
    stream.isOpen = false := by
  unfold WriteStream.isOpen
  rw [hstate]
  exact decide_eq_false hne

/-- A stream that is not open has no connection to speak of. -/
theorem linked_of_closed (hclosed : stream.isOpen = false) (hgrpc : stream.grpcStream = none)
    (hidle : stream.idlenessTimer = false) (hwaiting : stream.isStarted = true → pipeline ≠ [])
    (hbackoff : stream.backoffTimer = decide (stream.state = .backoff))
    (hcredentials : stream.credentialRequests.count stream.closeCount = if stream.state = .starting then 1 else 0)
    (hcloses : ∀ closeCount ∈ stream.credentialRequests, closeCount ≤ stream.closeCount) :
      Linked stream pipeline where
  isOpen := by rw [hclosed, hgrpc]; rfl
  answered := by intro g hg; rw [hgrpc] at hg; cases hg
  shaking := by intro g hg; rw [hgrpc] at hg; cases hg
  writing := by intro g hg; rw [hgrpc] at hg; cases hg
  waiting := fun hstarted _ => hwaiting hstarted
  idle := by intro hnot; rw [hidle] at hnot; cases hnot
  backoff := hbackoff
  credentials := hcredentials
  closes := hcloses

theorem new_linked (pipeline : List MutationBatch) : Linked .new pipeline := by
  apply linked_of_closed <;> simp [WriteStream.new, WriteStream.isOpen, WriteStream.isStarted]

theorem GrpcStream.Answered.append {g : GrpcStream} (h : g.Answered) (request : WriteRequest) :
    GrpcStream.Answered { g with requests := g.requests ++ [request] } := by
  intro i response hi
  obtain ⟨r, hr, hanswers⟩ := h i response hi
  exact ⟨r, by rw [List.getElem?_append_left (List.getElem?_eq_some_iff.mp hr).1]; exact hr, hanswers⟩

theorem Linked.grpc (h : Linked stream pipeline) (hopen : stream.isOpen = true) :
    ∃ g, stream.grpcStream = some g := by
  rw [h.isOpen] at hopen
  exact Option.isSome_iff_exists.mp hopen

theorem Linked.write (h : Linked stream pipeline) (hopen : stream.isOpen = true)
    (hshake : stream.handshakeComplete = true)
    (batch : MutationBatch) :
    ∃ stream', stream.writeMutations batch.mutations = some stream' ∧ Linked stream' (pipeline ++ [batch]) ∧
      SameStream stream stream' := by
  obtain ⟨g, hg⟩ := h.grpc hopen
  have hwrite : stream.writeMutations batch.mutations = some { stream with
      idlenessTimer := false
      grpcStream :=
        some { g with requests := g.requests ++ [.mutations batch.mutations stream.lastStreamToken] } } := by
    unfold WriteStream.writeMutations WriteStream.write
    simp [hopen, hshake, hg]
  refine ⟨_, hwrite, ?_, ?_⟩
  · constructor
    · exact hopen
    · intro g' hg'
      cases hg'
      exact (h.answered g hg).append _
    · intro _ _ hnot
      simp [hshake] at hnot
    · intro g' hg' _
      cases hg'
      simp [requestsOf, h.writing g hg hshake, WriteRequest.writes]
    · intro _ hnot
      have hnot : stream.handshakeComplete = false := hnot hopen
      rw [hshake] at hnot
      cases hnot
    · intro hidle
      cases hidle
    · exact h.backoff
    · exact h.credentials
    · exact h.closes
  · exact ⟨rfl, rfl, by simp [hg]⟩

theorem Linked.add (h : Linked stream pipeline) (hnot : ¬ (stream.isOpen = true ∧ stream.handshakeComplete = true))
    (batch : MutationBatch) : Linked stream (pipeline ++ [batch]) where
  isOpen := h.isOpen
  answered := h.answered
  shaking := h.shaking
  writing := by
    intro g hg hshake
    have hopen := h.isOpen
    rw [hg] at hopen
    exact absurd ⟨hopen, hshake⟩ hnot
  waiting := by intro _ _; simp
  idle := by
    intro hidle
    obtain ⟨hopen, hshake, _⟩ := h.idle hidle
    exact absurd ⟨hopen, hshake⟩ hnot
  backoff := h.backoff
  credentials := h.credentials
  closes := h.closes

theorem Linked.markIdle (h : Linked stream []) : Linked stream.markIdle [] ∧ SameStream stream stream.markIdle := by
  unfold WriteStream.markIdle
  by_cases hidle : (stream.isOpen && !stream.idlenessTimer) = true
  · rw [if_pos hidle]
    have hopen : stream.isOpen = true := by
      rw [Bool.and_eq_true] at hidle
      exact hidle.1
    have hshake : stream.handshakeComplete = true := by
      by_contra hnot
      exact h.waiting (isStarted_of_isOpen hopen) (fun _ => by simpa using hnot) rfl
    exact ⟨⟨h.isOpen, h.answered, h.shaking, h.writing, h.waiting, fun _ => ⟨hopen, hshake, rfl⟩, h.backoff,
      h.credentials, h.closes⟩, rfl, rfl, rfl⟩
  · rw [if_neg hidle]
    exact ⟨h, .refl stream⟩

theorem Linked.closed (h : Linked stream pipeline) (hclosed : stream.isOpen = false) :
    stream.grpcStream = none ∧ stream.idlenessTimer = false := by
  constructor
  · simpa [hclosed] using h.isOpen
  · by_contra hidle
    have hopen := (h.idle (by simpa using hidle)).1
    rw [hclosed] at hopen
    cases hopen

theorem Linked.start (h : Linked stream pipeline) (hne : pipeline ≠ []) (hnot : stream.isStarted = false) :
    ∃ stream', stream.start = some stream' ∧ Linked stream' pipeline ∧ SameStream stream stream' ∧
      stream'.isStarted = true := by
  have hclosed := isOpen_eq_false hnot
  obtain ⟨hgrpc, hidle⟩ := h.closed hclosed
  have hcredentials := h.credentials
  have hbackoff := h.backoff
  cases hstate : stream.state with
  | initial =>
    refine ⟨{ stream with state := .starting, credentialRequests := stream.credentialRequests ++
      [stream.closeCount] },
      by simp [WriteStream.start, WriteStream.requestCredentials, hstate], ?_, ⟨?_, rfl, rfl⟩, ?_⟩
    · apply linked_of_closed
      · simp [WriteStream.isOpen]
      · exact hgrpc
      · exact hidle
      · exact fun _ => hne
      · simpa [hstate] using hbackoff
      · simp [List.count_append, hcredentials, hstate]
      · intro closeCount hmem
        rcases List.mem_append.mp hmem with hmem | hmem
        · exact h.closes closeCount hmem
        · exact (List.mem_singleton.mp hmem).le
    · rw [hclosed]
      simp [WriteStream.isOpen]
    · simp [WriteStream.isStarted]
  | error =>
    refine ⟨{ stream with state := .backoff, backoffTimer := true },
      by simp [WriteStream.start, WriteStream.backoffAndTryRestarting, hstate], ?_, ⟨?_, rfl, rfl⟩, ?_⟩
    · apply linked_of_closed
      · simp [WriteStream.isOpen]
      · exact hgrpc
      · exact hidle
      · exact fun _ => hne
      · simp
      · simpa [hstate] using hcredentials
      · exact h.closes
    · rw [hclosed]
      simp [WriteStream.isOpen]
    · simp [WriteStream.isStarted]
  | starting => simp [WriteStream.isStarted, hstate] at hnot
  | open_ => simp [WriteStream.isOpen, hstate] at hclosed
  | backoff => simp [WriteStream.isStarted, hstate] at hnot

/-- What was on the connection is lost, whatever it was. -/
theorem linked_closing (hcloses : ∀ closeCount ∈ stream.credentialRequests, closeCount ≤ stream.closeCount)
    (status : Status) (pipeline : List MutationBatch) :
    Linked (stream.closing status) pipeline ∧ (stream.closing status).isStarted = false := by
  have hstopped : (stream.closing status).isStarted = false := by
    unfold WriteStream.closing WriteStream.isStarted WriteStream.isOpen
    split <;> rfl
  refine ⟨?_, hstopped⟩
  apply linked_of_closed
  · exact isOpen_eq_false hstopped
  · rfl
  · rfl
  · intro hstarted
    rw [hstopped] at hstarted
    cases hstarted
  · unfold WriteStream.closing
    split <;> rfl
  · have hfresh : stream.closeCount + 1 ∉ stream.credentialRequests := by
      intro hmem
      have := hcloses _ hmem
      omega
    unfold WriteStream.closing
    rw [List.count_eq_zero_of_not_mem hfresh]
    split <;> rfl
  · intro closeCount hmem
    exact (hcloses closeCount hmem).trans (Nat.le_succ _)

theorem Linked.inhibitBackoff (h : Linked stream pipeline) (hnot : stream.isStarted = false)
    (pipeline' : List MutationBatch) :
    ∃ stream', stream.inhibitBackoff = some stream' ∧ Linked stream' pipeline' ∧ SameStream stream stream' ∧
      stream'.isStarted = false := by
  have hclosed := isOpen_eq_false hnot
  obtain ⟨hgrpc, hidle⟩ := h.closed hclosed
  have hcredentials := h.credentials
  have hbackoff := h.backoff
  have hstate : stream.state ≠ .starting ∧ stream.state ≠ .backoff := by
    unfold WriteStream.isStarted at hnot
    simp only [Bool.or_eq_false_iff, decide_eq_false_iff_not] at hnot
    exact hnot.1
  have hstopped : WriteStream.isStarted { stream with state := .initial } = false := by
    simp [WriteStream.isStarted, WriteStream.isOpen]
  refine ⟨{ stream with
    state := .initial }, by simp [WriteStream.inhibitBackoff, hnot], ?_, ⟨?_, rfl, rfl⟩, hstopped⟩
  · apply linked_of_closed
    · exact isOpen_eq_false hstopped
    · exact hgrpc
    · exact hidle
    · intro hstarted
      rw [hstopped] at hstarted
      cases hstarted
    · rw [hbackoff]
      simpa using hstate.2
    · rw [hcredentials, if_neg hstate.1, if_neg (by simp)]
    · exact h.closes
  · rw [hclosed]
    exact isOpen_eq_false hstopped

theorem Linked.token (h : Linked stream pipeline) (lastStreamToken : ByteString) :
    Linked { stream with lastStreamToken } pipeline :=
  ⟨h.isOpen, h.answered, h.shaking, h.writing, h.waiting, h.idle, h.backoff, h.credentials, h.closes⟩

theorem Linked.reset (h : Linked stream pipeline) (hclosed : stream.isOpen = false) :
    Linked { stream with handshakeComplete := false } pipeline := by
  obtain ⟨hgrpc, hidle⟩ := h.closed hclosed
  apply linked_of_closed
  · exact hclosed
  · exact hgrpc
  · exact hidle
  · intro hstarted
    apply h.waiting hstarted
    intro hopen
    rw [hclosed] at hopen
    cases hopen
  · exact h.backoff
  · exact h.credentials
  · exact h.closes

theorem Linked.opened (h : Linked stream pipeline) (hstate : stream.state = .starting)
    (hshake : stream.handshakeComplete = false) :
    ∃ stream', WriteStream.writeHandshake (WriteStream.onStreamStart
        { stream with credentialRequests := stream.credentialRequests.erase stream.closeCount }) = some stream' ∧
      stream'.isOpen = true ∧ stream'.handshakeComplete = false ∧ Linked stream' pipeline := by
  have hcredentials := h.credentials
  have hbackoff := h.backoff
  rw [hstate] at hcredentials hbackoff
  refine ⟨{ stream with
    state := .open_
    idlenessTimer := false
    grpcStream := some ⟨[.handshake], []⟩
    credentialRequests := stream.credentialRequests.erase stream.closeCount }, ?_, rfl, hshake, ?_⟩
  · simp [WriteStream.writeHandshake, WriteStream.onStreamStart, WriteStream.write, WriteStream.isOpen, hshake]
  · constructor
    · rfl
    · intro g hg
      cases hg
      intro i response hi
      simp at hi
    · intro g hg _
      cases hg
      rfl
    · intro g _ hnot
      have hnot : stream.handshakeComplete = true := hnot
      rw [hshake] at hnot
      cases hnot
    · intro _ _
      apply h.waiting
      · unfold WriteStream.isStarted
        simp [hstate]
      · intro hopen
        rw [isOpen_of_state hstate (by simp)] at hopen
        cases hopen
    · intro hidle
      cases hidle
    · rw [hbackoff]
      rfl
    · rw [List.count_erase_self, hcredentials]
      rfl
    · intro closeCount hmem
      exact h.closes closeCount (List.mem_of_mem_erase hmem)

section
variable {request : WriteRequest} {requests : List WriteRequest} {response : WriteResponse}
    {responses : List WriteResponse}

theorem GrpcStream.Answered.tail (h : GrpcStream.Answered ⟨request :: requests, response :: responses⟩) :
    GrpcStream.Answered ⟨requests, responses⟩ := fun i r hr => h (i + 1) r hr

theorem Linked.read (h : Linked stream pipeline) (hshake : stream.handshakeComplete = true)
    (hg : stream.grpcStream = some ⟨request :: requests, response :: responses⟩) :
    ∃ batch rest, pipeline = batch :: rest ∧ batch.mutations.length = response.result.mutationResults.length ∧
      Linked { stream with grpcStream := some ⟨requests, responses⟩ } rest := by
  have hwriting := h.writing _ hg hshake
  have hanswered := h.answered _ hg
  have hopen : stream.isOpen = true := by
    rw [h.isOpen, hg]
    rfl
  cases pipeline with
  | nil => simp [requestsOf] at hwriting
  | cons batch rest =>
    simp only [requestsOf, List.map_cons, List.cons.injEq] at hwriting
    refine ⟨batch, rest, rfl, ?_, ?_⟩
    · obtain ⟨first, hfirst, hanswers⟩ := hanswered 0 response rfl
      cases hfirst
      exact hanswers _ hwriting.1
    · constructor
      · exact h.isOpen.trans (by rw [hg]; rfl)
      · intro g hg'
        cases hg'
        exact hanswered.tail
      · intro _ _ hnot
        rw [hshake] at hnot
        cases hnot
      · intro g hg' _
        cases hg'
        exact hwriting.2
      · intro _ hnot
        rw [hshake] at hnot
        cases hnot hopen
      · intro hidle
        cases (h.idle hidle).2.2
      · exact h.backoff
      · exact h.credentials
      · exact h.closes

/-- The first answer on a stream is to the handshake, and is the only one there yet. -/
theorem Linked.shake (h : Linked stream pipeline) (hshake : stream.handshakeComplete = false)
    (hg : stream.grpcStream = some ⟨request :: requests, response :: responses⟩) (lastStreamToken : ByteString) :
    requests = [] ∧ responses = [] ∧
      Linked { stream with grpcStream := some ⟨[], []⟩, handshakeComplete := true, lastStreamToken } [] := by
  have hshaking := h.shaking _ hg hshake
  have hnone : requests = [] := by simpa using congrArg List.tail hshaking
  subst hnone
  have hanswers : responses = [] := by
    cases responses with
    | nil => rfl
    | cons second responses =>
      obtain ⟨r, hr, _⟩ := h.answered _ hg 1 second rfl
      cases hr
  refine ⟨rfl, hanswers, ?_⟩
  have hopen : stream.isOpen = true := by
    rw [h.isOpen, hg]
    rfl
  constructor
  · exact h.isOpen.trans (by rw [hg]; rfl)
  · intro g hg'
    cases hg'
    intro i r hr
    simp at hr
  · intro _ _ hnot
    cases hnot
  · intro g hg' _
    cases hg'
    rfl
  · intro _ hnot
    cases hnot hopen
  · exact fun _ => ⟨hopen, rfl, rfl⟩
  · exact h.backoff
  · exact h.credentials
  · exact h.closes

end

end

/-! ## Filling the pipeline -/

theorem next_of_sorted {l : List MutationBatch} (hl : l.Pairwise fun a b => a.batchId < b.batchId)
    (hpos : ∀ batch ∈ l, 0 < batch.batchId) {k : Nat} (hk : k ≤ l.length) :
    l.find? (fun batch =>
      (((l.take k).getLast?.map MutationBatch.batchId).getD kBatchIdUnknown) < batch.batchId) = l[k]? := by
  apply Ordered.find?_of_threshold
  intro i hi
  rw [decide_eq_true_eq]
  cases k with
  | zero =>
    have := hpos _ (List.getElem_mem hi)
    simp only [List.take_zero, List.getLast?_nil, Option.map_none, Option.getD_none, kBatchIdUnknown]
    unfold BatchId at *
    omega
  | succ j =>
    have hj : j < l.length := by omega
    rw [List.take_succ_eq_append_getElem hj, List.getLast?_concat, Option.map_some, Option.getD_some]
    rw [List.pairwise_iff_getElem] at hl
    rcases Nat.lt_trichotomy i j with hij | rfl | hij
    · have := hl i j hi hj hij
      unfold BatchId at *
      omega
    · simp
    · have := hl j i hj hi hij
      unfold BatchId at *
      omega

namespace FirestoreClient

variable {Q : Type} [LawfulMutationQueue Q]

structure Ready (client : FirestoreClient Q) : Prop where
  valid : Valid client.localStore.mutationQueue
  user : user client.localStore.mutationQueue = client.currentUser

def pipelineOf (client : FirestoreClient Q) : List MutationBatch :=
  if client.isNetworkEnabled then client.localStore.pending.take kMaxPendingWrites else []

section
variable {client : FirestoreClient Q}

omit [LawfulMutationQueue Q] in
theorem addToWritePipeline_spec (hadd : client.canAddToWritePipeline = true)
    (hl : Linked client.writeStream client.writePipeline) (batch : MutationBatch) :
    ∃ writeStream, client.addToWritePipeline batch =
        some { client with writePipeline := client.writePipeline ++ [batch], writeStream } ∧
      Linked writeStream (client.writePipeline ++ [batch]) ∧ SameStream client.writeStream writeStream := by
  unfold addToWritePipeline onStream
  rw [if_pos hadd]
  by_cases hready : (client.writeStream.isOpen && client.writeStream.handshakeComplete) = true
  · have hboth := hready
    rw [Bool.and_eq_true] at hboth
    obtain ⟨writeStream, hwrite, hlinked, hsame⟩ := hl.write hboth.1 hboth.2 batch
    refine ⟨writeStream, ?_, hlinked, hsame⟩
    simp only [hready, if_true, hwrite, Option.map_some]
  · refine ⟨client.writeStream, ?_, hl.add ?_ batch, .refl _⟩
    · simp only [hready]
      rfl
    · intro hboth
      exact hready (by rw [hboth.1, hboth.2]; rfl)

theorem fillLoop_spec (hr : client.Ready) (henabled : client.isNetworkEnabled = true) (turns : Nat) {k : Nat}
    (hpipeline : client.writePipeline = client.localStore.pending.take k)
    (hk : k ≤ client.localStore.pending.length)
    (hmax : k ≤ kMaxPendingWrites) (hturns : kMaxPendingWrites ≤ k + turns)
    (hl : Linked client.writeStream client.writePipeline) :
    ∃ writeStream,
      fillLoop turns ((client.writePipeline.getLast?.map MutationBatch.batchId).getD kBatchIdUnknown) client =
        some { client with writePipeline := client.localStore.pending.take kMaxPendingWrites, writeStream } ∧
      Linked writeStream (client.localStore.pending.take kMaxPendingWrites) ∧
        SameStream client.writeStream writeStream := by
  induction turns generalizing client k with
  | zero =>
    have hfull : k = kMaxPendingWrites := by omega
    subst hfull
    refine ⟨client.writeStream, ?_, ?_, .refl _⟩
    · rw [← hpipeline]
      rfl
    · rw [← hpipeline]
      exact hl
  | succ turns ih =>
    have hlen : client.writePipeline.length = k := by rw [hpipeline, List.length_take, Nat.min_eq_left hk]
    unfold fillLoop
    by_cases hfull : k = kMaxPendingWrites
    · have hadd : client.canAddToWritePipeline = false := by
        simp [canAddToWritePipeline, hlen, hfull]
      refine ⟨client.writeStream, ?_, ?_, .refl _⟩
      · rw [hadd, ← hfull, ← hpipeline]
        rfl
      · rw [← hfull, ← hpipeline]
        exact hl
    have hadd : client.canAddToWritePipeline = true := by
      have : k < kMaxPendingWrites := by omega
      simp [canAddToWritePipeline, canUseNetwork, henabled, hlen, this]
    have hnext : nextMutationBatchAfterBatchId
        ((client.writePipeline.getLast?.map MutationBatch.batchId).getD kBatchIdUnknown)
          client.localStore.mutationQueue =
        some client.localStore.pending[k]? := by
      rw [next_eq hr.valid, hpipeline]
      exact congrArg some (next_of_sorted (sorted hr.valid _) (positive hr.valid _) hk)
    rw [if_pos hadd, hnext]
    by_cases hlast : k = client.localStore.pending.length
    · have hall : client.writePipeline = client.localStore.pending.take kMaxPendingWrites := by
        rw [hpipeline, List.take_of_length_le (by omega), List.take_of_length_le (by omega)]
      rw [List.getElem?_eq_none (by omega), ← hall]
      by_cases hempty : client.writePipeline = []
      · rw [hempty] at hl ⊢
        obtain ⟨hlinked, hsame⟩ := hl.markIdle
        refine ⟨client.writeStream.markIdle, ?_, hlinked, hsame⟩
        simp
      · refine ⟨client.writeStream, ?_, hl, .refl _⟩
        simp [hempty]
    · have hlt : k < client.localStore.pending.length := by omega
      obtain ⟨writeStream, hstep, hlinked, hsame⟩ := addToWritePipeline_spec hadd hl client.localStore.pending[k]
      have hpipeline' : client.writePipeline ++ [client.localStore.pending[k]] =
        client.localStore.pending.take (k + 1) := by
        rw [hpipeline, List.take_succ_eq_append_getElem hlt]
      rw [List.getElem?_eq_getElem hlt]
      let filled : FirestoreClient Q :=
        { client with writePipeline := client.writePipeline ++ [client.localStore.pending[k]], writeStream }
      have hready : filled.Ready := ⟨hr.valid, hr.user⟩
      obtain ⟨writeStream', hloop, hlinked', hsame'⟩ :=
        ih hready henabled hpipeline' (by show k + 1 ≤ client.localStore.pending.length; omega) (by omega)
          (by omega) hlinked
      refine ⟨writeStream', ?_, hlinked', hsame.trans hsame'⟩
      have hlast : (filled.writePipeline.getLast?.map MutationBatch.batchId).getD kBatchIdUnknown =
          client.localStore.pending[k].batchId := by
        simp [filled]
      rw [hlast] at hloop
      show (client.addToWritePipeline client.localStore.pending[k] >>= fillLoop turns _) = _
      rw [hstep]
      exact hloop

omit [LawfulMutationQueue Q] in
theorem restart_spec (hl : Linked client.writeStream client.writePipeline) :
    ∃ writeStream, (if client.shouldStartWriteStream then client.startWriteStream else some client) =
        some { client with writeStream } ∧
      Linked writeStream client.writePipeline ∧ SameStream client.writeStream writeStream ∧
      (client.isNetworkEnabled = true → client.writePipeline ≠ [] → writeStream.isStarted = true) ∧
      (writeStream.isStarted = true → client.writeStream.isStarted = true ∨ client.isNetworkEnabled = true) := by
  by_cases hstart : client.shouldStartWriteStream = true
  · have hneeds := hstart
    simp only [shouldStartWriteStream, canUseNetwork, Bool.and_eq_true, Bool.not_eq_true',
      List.isEmpty_eq_false_iff] at hneeds
    obtain ⟨writeStream, hstarted, hlinked, hsame, his⟩ := hl.start hneeds.2 hneeds.1.2
    refine ⟨writeStream, ?_, hlinked, hsame, fun _ _ => his, fun _ => .inr hneeds.1.1⟩
    rw [if_pos hstart]
    unfold startWriteStream onStream
    rw [if_pos hstart, hstarted]
    rfl
  · refine ⟨client.writeStream, by rw [if_neg hstart], hl, .refl _, ?_, .inl⟩
    intro henabled hne
    by_contra hnot
    apply hstart
    unfold shouldStartWriteStream canUseNetwork
    rw [henabled, List.isEmpty_eq_false_iff.mpr hne]
    simpa using hnot

/-- What filling the pipeline makes of the stream. -/
structure Filled (client : FirestoreClient Q) (writeStream : WriteStream) : Prop where
  linked : Linked writeStream client.pipelineOf
  same : SameStream client.writeStream writeStream
  needed : client.isNetworkEnabled = true → client.pipelineOf ≠ [] → writeStream.isStarted = true
  enabled : writeStream.isStarted = true → client.isNetworkEnabled = true

theorem fillWritePipeline_spec (hr : client.Ready) (hl : Linked client.writeStream client.writePipeline) {k : Nat}
    (hmax : k ≤ kMaxPendingWrites) (hpipeline : client.writePipeline =
      if client.isNetworkEnabled then client.localStore.pending.take k else [])
    (henabled : client.writeStream.isStarted = true → client.isNetworkEnabled = true) :
    ∃ writeStream, client.fillWritePipeline = some { client with writePipeline := client.pipelineOf, writeStream } ∧
      client.Filled writeStream := by
  unfold fillWritePipeline
  by_cases hnetwork : client.isNetworkEnabled = true
  · have hall : client.pipelineOf = client.localStore.pending.take kMaxPendingWrites := by
      unfold pipelineOf
      rw [if_pos hnetwork]
    have htake :
      client.writePipeline = client.localStore.pending.take (min k client.localStore.pending.length) := by
      rw [hpipeline, if_pos hnetwork, ← List.take_eq_take_min]
    obtain ⟨writeStream, hloop, hlinked, hsame⟩ := fillLoop_spec hr hnetwork kMaxPendingWrites htake (by omega)
      (by omega)
      (by omega) hl
    rw [← hall] at hloop hlinked
    simp only [hloop, Option.bind_eq_bind, Option.bind_some]
    let filled : FirestoreClient Q := { client with writePipeline := client.pipelineOf, writeStream }
    have hlinked : Linked filled.writeStream filled.writePipeline := hlinked
    obtain ⟨writeStream', hstart, hlinked', hsame', hneeded, _⟩ := restart_spec hlinked
    exact ⟨writeStream', hstart, hlinked', hsame.trans hsame', hneeded, fun _ => hnetwork⟩
  · have hnil : client.writePipeline = [] := by rw [hpipeline, if_neg hnetwork]
    have hof : client.pipelineOf = [] := by
      unfold pipelineOf
      rw [if_neg hnetwork]
    have hsame : ({ client with writePipeline := client.pipelineOf } : FirestoreClient Q) =
      client := by rw [hof, ← hnil]
    refine ⟨client.writeStream, ?_, ?_, .refl _, fun hnot => absurd hnot hnetwork, henabled⟩
    · rw [hsame]
      simp [kMaxPendingWrites, fillLoop, canAddToWritePipeline, shouldStartWriteStream, canUseNetwork, hnetwork]
    · rw [hof, ← hnil]
      exact hl

end

end FirestoreClient

end Firestore

end ToDoList
