import ToDoList.Firestore.WriteStream

/-!
# The client

The sync engine stores the writes of the program and invokes their callbacks.
The remote store sends them: the first batches of the mutation queue are in the
write pipeline. All this runs on one worker queue, a function at a time.
-/

namespace ToDoList

namespace Firestore

open MutationQueue

/-- A callback is the number of the write it belongs to. -/
structure FirestoreClient (Q : Type) where
  localStore : LocalStore Q
  currentUser : User
  mutationCallbacks : User → BatchId → Option Nat
  /-- The callbacks that have been invoked, and with what. -/
  invoked : List (Nat × Status)
  isNetworkEnabled : Bool
  writePipeline : List MutationBatch
  writeStream : WriteStream

namespace FirestoreClient

def kMaxPendingWrites : Nat := 10

variable {Q : Type} [MutationQueue Q]

/-! ## The write pipeline -/

def canUseNetwork (client : FirestoreClient Q) : Bool := client.isNetworkEnabled

def canAddToWritePipeline (client : FirestoreClient Q) : Bool :=
  client.canUseNetwork && client.writePipeline.length < kMaxPendingWrites

def shouldStartWriteStream (client : FirestoreClient Q) : Bool :=
  client.canUseNetwork && !client.writeStream.isStarted && !client.writePipeline.isEmpty

def onStream (f : WriteStream → Option WriteStream) (client : FirestoreClient Q) : Option (FirestoreClient Q) :=
  (f client.writeStream).map fun writeStream => { client with writeStream }

def startWriteStream (client : FirestoreClient Q) : Option (FirestoreClient Q) :=
  if client.shouldStartWriteStream then client.onStream WriteStream.start else none

def addToWritePipeline (batch : MutationBatch) (client : FirestoreClient Q) : Option (FirestoreClient Q) :=
  if client.canAddToWritePipeline then
    let client := { client with writePipeline := client.writePipeline ++ [batch] }
    if client.writeStream.isOpen && client.writeStream.handshakeComplete then
      client.onStream (WriteStream.writeMutations batch.mutations)
    else some client
  else none

/-- The loop of `FillWritePipeline`. A turn adds a batch or is the last one. -/
def fillLoop : Nat → BatchId → FirestoreClient Q → Option (FirestoreClient Q)
  | 0, _, client => some client
  | turns + 1, lastBatchIdRetrieved, client =>
    if client.canAddToWritePipeline then do
      match ← nextMutationBatchAfterBatchId lastBatchIdRetrieved client.localStore.mutationQueue with
      | none =>
        if client.writePipeline.isEmpty then some { client with writeStream := client.writeStream.markIdle }
          else some client
      | some batch => fillLoop turns batch.batchId (← client.addToWritePipeline batch)
    else some client

def fillWritePipeline (client : FirestoreClient Q) : Option (FirestoreClient Q) := do
  let lastBatchIdRetrieved := (client.writePipeline.getLast?.map MutationBatch.batchId).getD kBatchIdUnknown
  let client ← fillLoop kMaxPendingWrites lastBatchIdRetrieved client
  if client.shouldStartWriteStream then client.startWriteStream else some client

/-! ## Writes of the program -/

def notifyUser (batchId : BatchId) (status : Status) (client : FirestoreClient Q) : FirestoreClient Q :=
  match client.mutationCallbacks client.currentUser batchId with
  | none => client
  | some callback =>
    { client with
      invoked := client.invoked ++ [(callback, status)]
      mutationCallbacks := Function.update client.mutationCallbacks client.currentUser
        (Function.update (client.mutationCallbacks client.currentUser) batchId none) }

/-- A callback is not inserted over another one. -/
def insertCallback (batchId : BatchId) (callback : Nat) (client : FirestoreClient Q) : FirestoreClient Q :=
  match client.mutationCallbacks client.currentUser batchId with
  | some _ => client
  | none =>
    { client with
      mutationCallbacks := Function.update client.mutationCallbacks client.currentUser
        (Function.update (client.mutationCallbacks client.currentUser) batchId (some callback)) }

def writeMutations (mutations : List Mutation) (callback : Nat) (client : FirestoreClient Q) :
    Option (FirestoreClient Q) := do
  let (result, localStore) ← client.localStore.writeLocally mutations
  fillWritePipeline (insertCallback result.batchId callback { client with localStore })

def handleSuccessfulWrite (batch : MutationBatch) (result : MutationBatchResult) (streamToken : ByteString)
    (client : FirestoreClient Q) : Option (FirestoreClient Q) := do
  let client := client.notifyUser batch.batchId none
  let (_, localStore) ← client.localStore.acknowledgeBatch batch result streamToken
  some { client with localStore }

def handleRejectedWrite (batchId : BatchId) (error : Status) (client : FirestoreClient Q) :
    Option (FirestoreClient Q) := do
  let (_, localStore) ← client.localStore.rejectBatch batchId
  some (notifyUser batchId error { client with localStore })

/-! ## The callbacks of the stream -/

def onWriteStreamHandshakeComplete (client : FirestoreClient Q) : Option (FirestoreClient Q) :=
  let client :=
    { client with localStore := client.localStore.setLastStreamToken client.writeStream.lastStreamToken }
  client.writePipeline.foldlM (fun client write =>
    client.onStream (WriteStream.writeMutations write.mutations)) client

def onWriteStreamMutationResult (result : MutationBatchResult) (client : FirestoreClient Q) :
    Option (FirestoreClient Q) :=
  match client.writePipeline with
  | [] => none
  | batch :: rest => do
    let client ← handleSuccessfulWrite batch result client.writeStream.lastStreamToken { client with
      writePipeline := rest }
    client.fillWritePipeline

def handleHandshakeError (status : Status) (client : FirestoreClient Q) : Option (FirestoreClient Q) := do
  if ← Datastore.isPermanentError status then
    some { client with
      writeStream := { client.writeStream with lastStreamToken := [] }
      localStore := client.localStore.setLastStreamToken [] }
  else some client

def handleWriteError (status : Status) (client : FirestoreClient Q) : Option (FirestoreClient Q) := do
  if ← Datastore.isPermanentWriteError status then
    match client.writePipeline with
    | [] => none
    | batch :: rest =>
      let client ← onStream WriteStream.inhibitBackoff { client with writePipeline := rest }
      let client ← client.handleRejectedWrite batch.batchId status
      client.fillWritePipeline
  else some client

def onWriteStreamClose (status : Status) (client : FirestoreClient Q) : Option (FirestoreClient Q) := do
  guard (status = none → client.shouldStartWriteStream = false)
  let client ←
    if status ≠ none ∧ client.writePipeline ≠ [] then
      if client.writeStream.handshakeComplete then client.handleWriteError status
        else client.handleHandshakeError status
    else some client
  if client.shouldStartWriteStream then client.startWriteStream else some client

/-- The callback still sees whether the handshake was complete. -/
def close (status : Status) (client : FirestoreClient Q) : Option (FirestoreClient Q) :=
  if status = none ∧ client.writeStream.isStarted = false then some client
  else if client.writeStream.isStarted then do
    let client ← onWriteStreamClose status { client with writeStream := client.writeStream.closing status }
    some { client with writeStream := { client.writeStream with handshakeComplete := false } }
  else none

def stop (client : FirestoreClient Q) : Option (FirestoreClient Q) := client.close none

def resumeStartWithCredentials (maybeToken : Status) (client : FirestoreClient Q) : Option (FirestoreClient Q) :=
  if client.writeStream.state = .starting then
    if maybeToken ≠ none then client.close maybeToken
    else onStream WriteStream.writeHandshake { client with writeStream := client.writeStream.onStreamStart }
  else none

/-- A credential that comes after the stream was closed is not used. -/
def credentialsReceived (closeCount : Nat) (maybeToken : Status) (client : FirestoreClient Q) :
    Option (FirestoreClient Q) :=
  if client.writeStream.closeCount = closeCount then client.resumeStartWithCredentials maybeToken else some client

def notifyStreamResponse (response : WriteResponse) (client : FirestoreClient Q) : Option (FirestoreClient Q) :=
  let client := { client with writeStream := { client.writeStream with lastStreamToken := response.streamToken } }
  if client.writeStream.handshakeComplete then client.onWriteStreamMutationResult response.result
  else onWriteStreamHandshakeComplete { client with
    writeStream := { client.writeStream with handshakeComplete := true } }

def onStreamRead (response : WriteResponse) (client : FirestoreClient Q) : Option (FirestoreClient Q) :=
  if client.writeStream.isStarted then client.notifyStreamResponse response else none

/-! ## The network -/

def enableNetwork (client : FirestoreClient Q) : Option (FirestoreClient Q) :=
  let client := { client with
    isNetworkEnabled := true
    writeStream :=
      { client.writeStream with lastStreamToken := getLastStreamToken client.localStore.mutationQueue } }
  client.fillWritePipeline

def disableNetwork (client : FirestoreClient Q) : Option (FirestoreClient Q) := do
  let client ← stop { client with isNetworkEnabled := false }
  some { client with writePipeline := [] }

/-- The streams are made again for the new user. -/
def restartNetwork (client : FirestoreClient Q) : Option (FirestoreClient Q) := do
  if client.canUseNetwork then (← client.disableNetwork).enableNetwork else some client

def handleCredentialChange (user : User) (client : FirestoreClient Q) : Option (FirestoreClient Q) := do
  let userChanged := client.currentUser ≠ user
  let client := { client with currentUser := user }
  if userChanged then
    let (_, localStore) ← client.localStore.handleUserChange user
    restartNetwork { client with localStore }
  else client.restartNetwork

/-! ## The watch stream -/

/-- A snapshot that is older than the last one is not raised. -/
def watchSnapshot (remoteEvent : RemoteEvent) (client : FirestoreClient Q) : Option (FirestoreClient Q) :=
  if remoteEvent.snapshotVersion ≠ 0 ∧ client.localStore.lastRemoteSnapshotVersion ≤
    remoteEvent.snapshotVersion then do
    let (_, localStore) ← client.localStore.applyRemoteEvent remoteEvent
    some { client with localStore }
  else some client

/-- A document in limbo that may not be read is said to be deleted. -/
def limboRejected (key : DocumentKey) (client : FirestoreClient Q) : Option (FirestoreClient Q) := do
  let (_, localStore) ← client.localStore.applyRemoteEvent ⟨0, [(key, .noDocument 0 false)], by simp⟩
  some { client with localStore }

/-! ## Garbage collection -/

def collectGarbage (orphaned : List DocumentKey) (client : FirestoreClient Q) : FirestoreClient Q :=
  { client with localStore := client.localStore.removeOrphanedDocuments orphaned }

end FirestoreClient

end Firestore

end ToDoList
