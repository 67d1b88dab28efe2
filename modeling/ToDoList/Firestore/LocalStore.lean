import ToDoList.Firestore.MemoryMutationQueue

/-!
# The local store

The local store keeps the documents that the backend has sent in a cache, and
the pending batches of the user in a mutation queue. What it shows of a
document is the cached document with the pending batches applied to it. A
document that nothing refers to may be collected from the cache.
-/

namespace ToDoList

namespace Firestore

open Nested MutationQueue

structure OptionalMaybeDocumentMap where
  keys : List DocumentKey
  document : DocumentKey → Option MaybeDocument

/-- What a snapshot of the watch stream says about documents. -/
structure RemoteEvent where
  snapshotVersion : SnapshotVersion
  documentUpdates : List (DocumentKey × MaybeDocument)
  distinct : (documentUpdates.map Prod.fst).Nodup

structure LocalStore (Q : Type) where
  mutationQueue : Q
  remoteDocumentCache : MaybeDocumentMap
  lastRemoteSnapshotVersion : SnapshotVersion

structure LocalWriteResult where
  batchId : BatchId
  changes : MaybeDocumentMap

/-- A document that is not there, and a deleted one, are shown alike. -/
def MaybeDocument.missing : MaybeDocument := .noDocument 0 false

/-- A manufactured event deletes a document without a version. -/
def MaybeDocument.isRemoval : MaybeDocument → Bool
  | noDocument version _ => version = 0
  | _ => false

namespace MutationBatch

/-- The versions of the results, by document. The last mutation of a document decides. -/
def versionsOf (ws : List (Mutation × MutationResult)) : DocumentKey → Option SnapshotVersion :=
  ws.foldl (fun versions w => Function.update versions w.1.key (some w.2.version)) fun _ => none

def docVersions (batch : MutationBatch) (result : MutationBatchResult) : DocumentKey → Option SnapshotVersion :=
  versionsOf (batch.mutations.zip result.mutationResults)

/-- One turn of the loop of `ApplyBatchResult`. -/
def applyResultTo (batch : MutationBatch) (result : MutationBatchResult) (cache : MaybeDocumentMap)
    (docKey : DocumentKey) :
    Option MaybeDocumentMap :=
  let remoteDoc := cache docKey
  match batch.docVersions result docKey with
  | none => none
  | some ackVersion =>
    if ∀ doc ∈ remoteDoc, doc.version < ackVersion then
      match batch.applyToRemoteDocument docKey result remoteDoc with
      | none => if remoteDoc.isNone then some cache else none
      | some doc => some (Function.update cache docKey (some doc))
    else some cache

end MutationBatch

/-- One turn of the loop of `ApplyRemoteEvent`: the cache, and the documents that have changed. -/
def RemoteEvent.applyUpdate (remoteEvent : RemoteEvent) (existing : MaybeDocumentMap)
    (r : MaybeDocumentMap × OptionalMaybeDocumentMap) (update : DocumentKey × MaybeDocument) :
    Option (MaybeDocumentMap × OptionalMaybeDocumentMap) :=
  let (key, doc) := update
  let changedDocs : OptionalMaybeDocumentMap := ⟨key :: r.2.keys, Function.update r.2.document key (some doc)⟩
  -- Such a document is never added to the cache.
  if doc.isRemoval then some (Function.update r.1 key none, changedDocs)
  else if ∀ existingDoc ∈ existing key, existingDoc.version < doc.version ∨
      doc.version = existingDoc.version ∧ existingDoc.hasPendingWrites = true then
    if remoteEvent.snapshotVersion ≠ 0 then some (Function.update r.1 key (some doc), changedDocs) else none
  else some r

namespace LocalStore

variable {Q : Type} [MutationQueue Q]

/-! ## Reads -/

def getDocumentIn (key : DocumentKey) (batches : List MutationBatch) (document : Option MaybeDocument) :
    Option MaybeDocument :=
  batches.foldl (fun document batch => batch.applyToLocalDocument key document) document

def readDocument (store : LocalStore Q) (key : DocumentKey) : Option (Option MaybeDocument) :=
  (allMutationBatchesAffectingDocumentKey key store.mutationQueue).map fun batches =>
    getDocumentIn key batches (store.remoteDocumentCache key)

def applyLocalMutationsToDocuments (docs : OptionalMaybeDocumentMap) (batches : List MutationBatch) :
    OptionalMaybeDocumentMap :=
  { docs with document := fun key => getDocumentIn key batches (docs.document key) }

def getLocalViewOfDocuments (store : LocalStore Q) (baseDocs : OptionalMaybeDocumentMap) :
    Option MaybeDocumentMap :=
  (allMutationBatchesAffectingDocumentKeys baseDocs.keys store.mutationQueue).map fun batches key =>
    let docs := applyLocalMutationsToDocuments baseDocs batches
    if key ∈ docs.keys then some ((docs.document key).getD .missing) else none

def getDocuments (store : LocalStore Q) (keys : List DocumentKey) : Option MaybeDocumentMap :=
  store.getLocalViewOfDocuments ⟨keys, store.remoteDocumentCache⟩

/-! ## Writes -/

def writeLocally (store : LocalStore Q) (mutations : List Mutation) : Option (LocalWriteResult × LocalStore Q) := do
  let existingDocuments ← store.getDocuments (mutations.map (·.key))
  let (batch, mutationQueue) ← addMutationBatch mutations store.mutationQueue
  some (⟨batch.batchId, batch.applyToLocalDocumentSet existingDocuments⟩, { store with mutationQueue })

def applyBatchResult (store : LocalStore Q) (batch : MutationBatch) (result : MutationBatchResult) :
    Option (LocalStore Q) := do
  let remoteDocumentCache ← batch.keys.foldlM (batch.applyResultTo result) store.remoteDocumentCache
  let mutationQueue ← removeMutationBatch batch store.mutationQueue
  some { store with remoteDocumentCache, mutationQueue }

/-- There is a result for each mutation: a batch result is not made otherwise. -/
def acknowledgeBatch (store : LocalStore Q) (batch : MutationBatch) (result : MutationBatchResult)
    (streamToken : ByteString) :
    Option (MaybeDocumentMap × LocalStore Q) := do
  guard (batch.mutations.length = result.mutationResults.length)
  let mutationQueue ← MutationQueue.acknowledgeBatch batch streamToken store.mutationQueue
  let store ← applyBatchResult { store with mutationQueue } batch result
  guard (performConsistencyCheck store.mutationQueue)
  let changes ← store.getDocuments batch.keys
  some (changes, store)

def rejectBatch (store : LocalStore Q) (batchId : BatchId) : Option (MaybeDocumentMap × LocalStore Q) := do
  let toReject ← (← lookupMutationBatch batchId store.mutationQueue)
  let mutationQueue ← removeMutationBatch toReject store.mutationQueue
  guard (performConsistencyCheck mutationQueue)
  let store := { store with mutationQueue }
  let changes ← store.getDocuments toReject.keys
  some (changes, store)

def setLastStreamToken (store : LocalStore Q) (streamToken : ByteString) : LocalStore Q :=
  { store with mutationQueue := MutationQueue.setLastStreamToken streamToken store.mutationQueue }

def handleUserChange (store : LocalStore Q) (user : User) : Option (MaybeDocumentMap × LocalStore Q) := do
  let oldBatches := allMutationBatches store.mutationQueue
  let mutationQueue ← start (getMutationQueueForUser user store.mutationQueue)
  let newBatches := allMutationBatches mutationQueue
  let store := { store with mutationQueue }
  let changes ← store.getDocuments ((oldBatches ++ newBatches).flatMap MutationBatch.keys)
  some (changes, store)

def applyRemoteEvent (store : LocalStore Q) (remoteEvent : RemoteEvent) :
    Option (MaybeDocumentMap × LocalStore Q) := do
  let existingDocs := store.remoteDocumentCache
  let (remoteDocumentCache, changedDocs) ←
    remoteEvent.documentUpdates.foldlM (remoteEvent.applyUpdate existingDocs) (existingDocs, ⟨[], fun _ => none⟩)
  let remoteVersion := remoteEvent.snapshotVersion
  guard (remoteVersion = 0 ∨ store.lastRemoteSnapshotVersion ≤ remoteVersion)
  let store := { store with
    remoteDocumentCache
    lastRemoteSnapshotVersion := if remoteVersion ≠ 0 then remoteVersion else store.lastRemoteSnapshotVersion }
  let changes ← store.getLocalViewOfDocuments changedDocs
  some (changes, store)

/-! ## Garbage collection -/

/-- What a reference delegate does, the eager one as a transaction ends and the other
one in a scheduled collection. `orphaned` are documents that no target has and that
are not in limbo. -/
def removeOrphanedDocuments (orphaned : List DocumentKey) (store : LocalStore Q) : LocalStore Q :=
  { store with
    remoteDocumentCache := orphaned.foldl (fun cache key =>
      if mutationQueuesContainKey key store.mutationQueue then cache else Function.update cache key none)
      store.remoteDocumentCache }

theorem removeOrphanedDocuments_cache (orphaned : List DocumentKey) (store : LocalStore Q) (key : DocumentKey) :
    (store.removeOrphanedDocuments orphaned).remoteDocumentCache key =
      if key ∈ orphaned ∧ mutationQueuesContainKey key store.mutationQueue = false then none
      else store.remoteDocumentCache key := by
  unfold removeOrphanedDocuments
  simp only
  generalize store.remoteDocumentCache = cache
  induction orphaned generalizing cache with
  | nil => simp
  | cons first orphaned ih =>
    rw [List.foldl_cons, ih]
    by_cases hk : key = first
    · subst hk
      cases mutationQueuesContainKey key store.mutationQueue <;> simp
    · cases mutationQueuesContainKey first store.mutationQueue <;> simp [hk]

/-! ## What the store shows -/

section
variable {key : DocumentKey}

theorem getDocumentIn_filter {p : MutationBatch → Bool}
    (hp : ∀ batch : MutationBatch, p batch = false → batch.affects key = false)
    (batches : List MutationBatch) (document : Option MaybeDocument) :
    getDocumentIn key (batches.filter p) document = getDocumentIn key batches document := by
  have hact : ∀ (batch : MutationBatch) document, p batch = false → batch.applyToLocalDocument key document =
    document := by
    intro batch document hb
    apply MutationBatch.applyToLocalDocument_of_not_mem
    intro mutation hm hk
    have haffects := hp batch hb
    unfold MutationBatch.affects at haffects
    rw [List.any_eq_false] at haffects
    exact haffects mutation hm (decide_eq_true hk)
  exact Async.replay_filter hact batches document

end

end LocalStore

namespace LocalStore

open LawfulMutationQueue

variable {Q : Type} [LawfulMutationQueue Q]

def pending (store : LocalStore Q) : List MutationBatch := batches store.mutationQueue (user store.mutationQueue)

def view (store : LocalStore Q) (key : DocumentKey) : Option MaybeDocument :=
  getDocumentIn key store.pending (store.remoteDocumentCache key)

section
variable {store : LocalStore Q} (h : Valid store.mutationQueue)
include h

theorem readDocument_eq (key : DocumentKey) : store.readDocument key = some (store.view key) := by
  unfold readDocument
  rw [affecting_key_eq h, Option.map_some, getDocumentIn_filter]
  · rfl
  · intro batch hb
    exact hb

theorem getLocalViewOfDocuments_eq (baseDocs : OptionalMaybeDocumentMap) :
    store.getLocalViewOfDocuments baseDocs = some fun key =>
      if key ∈ baseDocs.keys then some ((getDocumentIn key store.pending (baseDocs.document key)).getD .missing)
        else none := by
  unfold getLocalViewOfDocuments
  rw [affecting_keys_eq h, Option.map_some]
  congr 1
  funext key
  show (if key ∈ baseDocs.keys then some ((getDocumentIn key _ (baseDocs.document key)).getD .missing)
    else none) = _
  by_cases hk : key ∈ baseDocs.keys
  · rw [if_pos hk, if_pos hk, getDocumentIn_filter]
    · rfl
    · intro batch hb
      rw [List.any_eq_false] at hb
      simpa using hb key hk
  · rw [if_neg hk, if_neg hk]

theorem getDocuments_eq (keys : List DocumentKey) : store.getDocuments keys = some fun key =>
    if key ∈ keys then some ((store.view key).getD .missing) else none :=
  getLocalViewOfDocuments_eq h ⟨keys, store.remoteDocumentCache⟩

end

/-! ## Writing -/

theorem writeLocally_spec {store : LocalStore Q} (h : Valid store.mutationQueue) {mutations : List Mutation}
    (hne : mutations ≠ []) :
    ∃ batch mutationQueue changes, store.writeLocally mutations =
      some (⟨batch.batchId, changes⟩, { store with mutationQueue }) ∧
      batch.mutations = mutations ∧ Valid mutationQueue ∧ user mutationQueue = user store.mutationQueue ∧
      batches mutationQueue = Function.update (batches store.mutationQueue) (user store.mutationQueue)
        (store.pending ++ [batch]) ∧
      changes = batch.applyToLocalDocumentSet fun key =>
        if key ∈ mutations.map (·.key) then some ((store.view key).getD .missing) else none := by
  obtain ⟨batch, mutationQueue, hadd, hm, hvalid, huser, hbatches⟩ := add_eq h hne
  refine ⟨batch, mutationQueue, _, ?_, hm, hvalid, huser, hbatches, rfl⟩
  unfold writeLocally
  rw [getDocuments_eq h]
  simp [hadd]

theorem pending_of_update {store : LocalStore Q} (store' : LocalStore Q)
    (huser : user store'.mutationQueue = user store.mutationQueue)
    {rest : List MutationBatch}
    (hbatches : batches store'.mutationQueue = Function.update (batches store.mutationQueue)
    (user store.mutationQueue) rest) :
    store'.pending = rest := by
  unfold pending
  rw [huser, hbatches, Function.update_self]

def annStore : LocalStore MemoryPersistence := ⟨MemoryPersistence.new (some "ann"), fun _ => none, 0⟩

theorem annStore_valid : Valid annStore.mutationQueue := MemoryPersistence.new_valid _

end LocalStore

/-! ## Acknowledged batches -/

namespace MutationBatch

variable {batch : MutationBatch} {result : MutationBatchResult}

def editsAt (batch : MutationBatch) (documentKey : DocumentKey) : List (Edit String Value) :=
  (batch.typesAt documentKey).flatMap MutationType.edits

theorem local_data (hu : batch.Unconditional) (key : DocumentKey) (maybeDoc : Option MaybeDocument) :
    dataOf (batch.applyToLocalDocument key maybeDoc) = Async.replay Edit.apply (batch.editsAt key)
      (dataOf maybeDoc) := by
  rw [applyToLocalDocument_eq _ _ hu]
  apply Async.replay_flatMap (g := dataOf)
  intro type maybeDoc
  exact localView_data maybeDoc type

theorem remoteDocument_data {mutation : Mutation} (hm : mutation.precondition = .none)
    (maybeDoc : Option MaybeDocument)
    (mutationResult : MutationResult) :
    dataOf (some (mutation.applyToRemoteDocument maybeDoc mutationResult)) =
      Async.replay Edit.apply mutation.type.edits (dataOf maybeDoc) := by
  rw [← localView_data]
  unfold Mutation.applyToRemoteDocument
  rw [hm]
  cases mutation.type <;> simp [MutationType.localView, dataOf, Precondition.isValidFor]

theorem remoteDocument_version (mutation : Mutation) (maybeDoc : Option MaybeDocument)
    (mutationResult : MutationResult) :
    (mutation.applyToRemoteDocument maybeDoc mutationResult).version = mutationResult.version := by
  unfold Mutation.applyToRemoteDocument
  cases mutation.type with
  | set value => simp [MaybeDocument.version]
  | patch value mask =>
    simp only
    split <;> simp [MaybeDocument.version]
  | delete => simp [MaybeDocument.version]

theorem remote_data (hu : batch.Unconditional) (hlen : batch.mutations.length = result.mutationResults.length)
    (key : DocumentKey) (maybeDoc : Option MaybeDocument) :
    dataOf (batch.applyToRemoteDocument key result maybeDoc) =
      Async.replay Edit.apply (batch.editsAt key) (dataOf maybeDoc) := by
  unfold applyToRemoteDocument editsAt typesAt
  unfold Unconditional at hu
  revert hu hlen
  generalize result.mutationResults = results
  induction batch.mutations generalizing results maybeDoc with
  | nil => intro _ _; rfl
  | cons mutation mutations ih =>
    intro hu hlen
    cases results with
    | nil => simp at hlen
    | cons mutationResult results =>
      have hrest : ∀ m ∈ mutations, m.precondition = .none := fun m hm => hu m (by simp [hm])
      rw [List.zip_cons_cons, List.foldl_cons, ih _ results hrest (by simpa using hlen)]
      by_cases hk : mutation.key = key
      · simp only [hk, if_true, decide_true, List.filter_cons_of_pos, List.map_cons, List.flatMap_cons]
        rw [Async.replay_append, remoteDocument_data (hu mutation (by simp))]
      · simp [hk]

section
variable (ws : List (Mutation × MutationResult)) (key : DocumentKey)

theorem versionsOf_eq_none : versionsOf ws key = none ↔ ∀ w ∈ ws, w.1.key ≠ key := by
  unfold versionsOf
  induction ws using List.reverseRecOn with
  | nil => simp
  | append_singleton ws w ih =>
    rw [List.foldl_append, List.foldl_cons, List.foldl_nil]
    by_cases hk : w.1.key = key
    · subst hk
      simp only [Function.update_self, reduceCtorEq, false_iff]
      intro hall
      exact hall w (by simp) rfl
    · rw [Function.update_of_ne (Ne.symm hk), ih]
      simp only [List.mem_append, List.mem_singleton]
      constructor
      · rintro hall v (hv | rfl)
        · exact hall v hv
        · exact hk
      · intro hall v hv
        exact hall v (.inl hv)

theorem versionsOf_eq_some (maybeDoc : Option MaybeDocument) {version : SnapshotVersion}
    (h : versionsOf ws key = some version) :
    ∃ doc, ws.foldl (fun d w => if w.1.key = key then some (w.1.applyToRemoteDocument d w.2) else d) maybeDoc =
      some doc ∧
      doc.version = version := by
  unfold versionsOf at h
  induction ws using List.reverseRecOn with
  | nil => cases h
  | append_singleton ws w ih =>
    rw [List.foldl_append, List.foldl_cons, List.foldl_nil] at h ⊢
    by_cases hk : w.1.key = key
    · subst hk
      rw [Function.update_self, Option.some.injEq] at h
      rw [if_pos rfl]
      exact ⟨_, rfl, by rw [remoteDocument_version, h]⟩
    · rw [Function.update_of_ne (Ne.symm hk)] at h
      rw [if_neg hk]
      exact ih h

end

def acknowledgedDocument (batch : MutationBatch) (result : MutationBatchResult) (key : DocumentKey)
    (remoteDoc : Option MaybeDocument) : Option MaybeDocument :=
  match batch.docVersions result key with
  | none => remoteDoc
  | some ackVersion =>
    if ∀ doc ∈ remoteDoc, doc.version < ackVersion then batch.applyToRemoteDocument key result remoteDoc
      else remoteDoc

theorem docVersions_eq_none (hlen : batch.mutations.length = result.mutationResults.length) (key : DocumentKey) :
    batch.docVersions result key = none ↔ key ∉ batch.keys := by
  unfold docVersions keys
  rw [versionsOf_eq_none, List.mem_dedup, List.mem_map]
  have hzip : (batch.mutations.zip result.mutationResults).map Prod.fst = batch.mutations :=
    List.map_fst_zip hlen.le
  constructor
  · rintro hall ⟨mutation, hm, hk⟩
    rw [← hzip] at hm
    obtain ⟨w, hw, rfl⟩ := List.mem_map.mp hm
    exact hall w hw hk
  · intro hnot w hw hk
    exact hnot ⟨w.1, (List.of_mem_zip hw).1, hk⟩

theorem applyResultTo_eq (hlen : batch.mutations.length = result.mutationResults.length) {key : DocumentKey}
    (hkey : key ∈ batch.keys) (cache : MaybeDocumentMap) :
    batch.applyResultTo result cache key = some (updateAt (batch.acknowledgedDocument result) cache key) := by
  unfold applyResultTo updateAt acknowledgedDocument
  cases hv : batch.docVersions result key with
  | none => exact absurd hkey ((docVersions_eq_none hlen key).mp hv)
  | some ackVersion =>
    simp only
    by_cases hold : ∀ doc ∈ cache key, doc.version < ackVersion
    · obtain ⟨doc, hdoc, _⟩ := versionsOf_eq_some _ key (cache key) hv
      have hdoc : batch.applyToRemoteDocument key result (cache key) = some doc := hdoc
      rw [if_pos hold, if_pos hold, hdoc]
    · rw [if_neg hold, if_neg hold, Function.update_eq_self]

theorem foldlM_some {A S : Type} {f : S → A → S} {g : S → A → Option S} {l : List A}
    (h : ∀ a ∈ l, ∀ s, g s a = some (f s a)) (s : S) : l.foldlM g s = some (l.foldl f s) := by
  induction l generalizing s with
  | nil => rfl
  | cons a l ih =>
    rw [List.foldlM_cons, h a (by simp), List.foldl_cons, ← ih fun b hb => h b (by simp [hb])]
    rfl

theorem applyResults_eq (hlen : batch.mutations.length = result.mutationResults.length) (cache : MaybeDocumentMap) :
    batch.keys.foldlM (batch.applyResultTo result) cache = some fun key =>
      batch.acknowledgedDocument result key (cache key) := by
  rw [foldlM_some (f := updateAt (batch.acknowledgedDocument result)) fun key hkey s =>
    applyResultTo_eq hlen hkey s]
  congr 1
  funext key
  by_cases hkey : key ∈ batch.keys
  · exact foldl_updateAt _ (.inl (List.nodup_dedup _)) hkey cache
  · rw [foldl_updateAt_of_not_mem _ hkey]
    unfold acknowledgedDocument
    rw [(docVersions_eq_none hlen key).mpr hkey]

theorem acknowledgedDocument_version (batch : MutationBatch) (result : MutationBatchResult) (key : DocumentKey)
    (doc : MaybeDocument) :
    ∃ doc', batch.acknowledgedDocument result key (some doc) = some doc' ∧ doc.version ≤ doc'.version := by
  unfold acknowledgedDocument
  cases hv : batch.docVersions result key with
  | none => exact ⟨doc, rfl, le_rfl⟩
  | some version =>
    simp only
    by_cases hold : ∀ d ∈ some doc, d.version < version
    · obtain ⟨new, hnew, hversion⟩ := versionsOf_eq_some _ key (some doc) hv
      rw [if_pos hold]
      exact ⟨new, hnew, by rw [hversion]; exact (hold doc rfl).le⟩
    · rw [if_neg hold]
      exact ⟨doc, rfl, le_rfl⟩

/-- Where the cache has not seen the write yet, its data becomes what was
shown while the batch was pending. -/
theorem acknowledgedDocument_data (hu : batch.Unconditional)
    (hlen : batch.mutations.length = result.mutationResults.length)
    {key : DocumentKey} {remoteDoc : Option MaybeDocument}
    (hold : ∀ version ∈ batch.docVersions result key, ∀ doc ∈ remoteDoc, doc.version < version) :
    dataOf (batch.acknowledgedDocument result key remoteDoc) =
      Async.replay Edit.apply (batch.editsAt key) (dataOf remoteDoc) := by
  unfold acknowledgedDocument
  cases hv : batch.docVersions result key with
  | none =>
    have hkey := (docVersions_eq_none hlen key).mp hv
    have hnone : batch.typesAt key = [] := by
      unfold typesAt
      rw [List.map_eq_nil_iff, List.filter_eq_nil_iff]
      intro mutation hm hk
      exact hkey (List.mem_dedup.mpr (List.mem_map.mpr ⟨mutation, hm, of_decide_eq_true hk⟩))
    unfold editsAt
    rw [hnone]
    rfl
  | some version =>
    simp only
    rw [if_pos (hold version hv), remote_data hu hlen]

end MutationBatch

namespace LocalStore

open LawfulMutationQueue

variable {Q : Type} [LawfulMutationQueue Q] {store : LocalStore Q} {batch : MutationBatch}
    {rest : List MutationBatch}

theorem acknowledgeBatch_spec (h : Valid store.mutationQueue) (hpending : store.pending = batch :: rest)
    {result : MutationBatchResult} (hlen : batch.mutations.length = result.mutationResults.length)
    (streamToken : ByteString) :
    ∃ changes mutationQueue, store.acknowledgeBatch batch result streamToken = some (changes,
        { store with
          mutationQueue
          remoteDocumentCache :=
            fun key => batch.acknowledgedDocument result key (store.remoteDocumentCache key) }) ∧
      Valid mutationQueue ∧ user mutationQueue = user store.mutationQueue ∧
      batches mutationQueue = Function.update (batches store.mutationQueue) (user store.mutationQueue) rest := by
  obtain ⟨q₁, hack, hvalid₁, huser₁, hbatches₁⟩ := acknowledge_eq h streamToken hpending
  have hfront : batches q₁ (user q₁) = batch :: rest := by rw [huser₁, hbatches₁]; exact hpending
  obtain ⟨q₂, hremove, hvalid₂, huser₂, hbatches₂⟩ := remove_eq hvalid₁ hfront
  rw [huser₁] at huser₂
  rw [huser₁, hbatches₁] at hbatches₂
  let store' : LocalStore Q := { store with
    mutationQueue := q₂
    remoteDocumentCache := fun key => batch.acknowledgedDocument result key (store.remoteDocumentCache key) }
  have hvalid' : Valid store'.mutationQueue := hvalid₂
  obtain ⟨changes, hchanges⟩ : ∃ changes, store'.getDocuments batch.keys = some changes :=
    ⟨_, getDocuments_eq hvalid' batch.keys⟩
  refine ⟨changes, q₂, ?_, hvalid₂, huser₂, hbatches₂⟩
  unfold acknowledgeBatch applyBatchResult
  simp only [hlen, hack, hremove, MutationBatch.applyResults_eq hlen, Option.bind_eq_bind, Option.bind_some,
    Option.pure_def, consistent hvalid₂, guard, if_true]
  exact congrArg (fun r => r.bind fun changes => some (changes, store')) hchanges

theorem acknowledgeBatch_eq_none {Q : Type} [MutationQueue Q] {store : LocalStore Q} {result : MutationBatchResult}
    (hlen : batch.mutations.length ≠ result.mutationResults.length) (streamToken : ByteString) :
    store.acknowledgeBatch batch result streamToken = none := by
  unfold acknowledgeBatch
  simp [guard, hlen]

theorem rejectBatch_spec (h : Valid store.mutationQueue) (hpending : store.pending = batch :: rest) :
    ∃ changes mutationQueue, store.rejectBatch batch.batchId = some (changes, { store with mutationQueue }) ∧
      Valid mutationQueue ∧ user mutationQueue = user store.mutationQueue ∧
      batches mutationQueue = Function.update (batches store.mutationQueue) (user store.mutationQueue) rest := by
  obtain ⟨q, hremove, hvalid, huser, hbatches⟩ := remove_eq h hpending
  have hlookup : lookupMutationBatch batch.batchId store.mutationQueue = some (some batch) := by
    rw [lookup_eq h]
    unfold pending at hpending
    rw [hpending, List.find?_cons_of_pos (by simp)]
  let store' : LocalStore Q := { store with mutationQueue := q }
  have hvalid' : Valid store'.mutationQueue := hvalid
  obtain ⟨changes, hchanges⟩ : ∃ changes, store'.getDocuments batch.keys = some changes :=
    ⟨_, getDocuments_eq hvalid' batch.keys⟩
  refine ⟨changes, q, ?_, hvalid, huser, hbatches⟩
  unfold rejectBatch
  simp only [hlookup, hremove, Option.bind_eq_bind, Option.bind_some, Option.pure_def, consistent hvalid, guard,
    if_true]
  exact congrArg (fun r => r.bind fun changes => some (changes, store')) hchanges

theorem handleUserChange_spec (h : Valid store.mutationQueue) (newUser : User) :
    ∃ changes mutationQueue, store.handleUserChange newUser = some (changes, { store with mutationQueue }) ∧
      Valid mutationQueue ∧ user mutationQueue = newUser ∧ batches mutationQueue = batches store.mutationQueue := by
  obtain ⟨q, hstart, hvalid, huser, hbatches⟩ := start_eq h newUser
  let store' : LocalStore Q := { store with mutationQueue := q }
  have hvalid' : Valid store'.mutationQueue := hvalid
  obtain ⟨changes, hchanges⟩ : ∃ changes, store'.getDocuments
      ((allMutationBatches store.mutationQueue ++ allMutationBatches q).flatMap MutationBatch.keys) =
        some changes :=
    ⟨_, getDocuments_eq hvalid' _⟩
  refine ⟨changes, q, ?_, hvalid, huser, hbatches⟩
  unfold handleUserChange
  simp only [hstart, Option.bind_eq_bind, Option.bind_some]
  exact congrArg (fun r => r.bind fun changes => some (changes, store')) hchanges

/-! ## What an acknowledgement shows -/

theorem view_data (hu : ∀ batch ∈ store.pending, batch.Unconditional) (key : DocumentKey) :
    dataOf (store.view key) =
      Async.replay Edit.apply (store.pending.flatMap fun batch => batch.editsAt key)
        (dataOf (store.remoteDocumentCache key)) := by
  unfold view getDocumentIn
  revert hu
  generalize store.remoteDocumentCache key = maybeDoc
  induction store.pending generalizing maybeDoc with
  | nil => intro _; rfl
  | cons batch batches ih =>
    intro hu
    rw [List.foldl_cons, ih _ fun b hb => hu b (by simp [hb]), MutationBatch.local_data (hu batch (by simp)),
      List.flatMap_cons, Async.replay_append]

/-- The data that is shown of a document does not change when a batch is
acknowledged, unless the cache had a version of the document that is not older
than the acknowledged one. -/
theorem acknowledged_view (hu : ∀ batch ∈ store.pending, batch.Unconditional)
    (hpending : store.pending = batch :: rest)
    {result : MutationBatchResult} (hlen : batch.mutations.length = result.mutationResults.length)
    {store' : LocalStore Q}
    (hrest : store'.pending = rest) {key : DocumentKey}
    (hcache :
      store'.remoteDocumentCache key = batch.acknowledgedDocument result key (store.remoteDocumentCache key))
    (hold : ∀ version ∈ batch.docVersions result key, ∀ doc ∈ store.remoteDocumentCache key,
      doc.version < version) :
    dataOf (store'.view key) = dataOf (store.view key) := by
  have hlater : ∀ later ∈ store'.pending, later.Unconditional := by
    intro later hl
    rw [hrest] at hl
    exact hu later (by rw [hpending]; simp [hl])
  rw [view_data hlater, view_data hu, hrest, hpending, List.flatMap_cons, Async.replay_append, hcache,
    MutationBatch.acknowledgedDocument_data (hu batch (by rw [hpending]; simp)) hlen hold]

/-! ## Remote events -/

/-- The event that the watch stream raises, or one that only removes documents. -/
def Deliverable (store : LocalStore Q) (remoteEvent : RemoteEvent) : Prop :=
  (remoteEvent.snapshotVersion ≠ 0 ∧ store.lastRemoteSnapshotVersion ≤ remoteEvent.snapshotVersion) ∨
    (remoteEvent.snapshotVersion = 0 ∧ ∀ update ∈ remoteEvent.documentUpdates, update.2.isRemoval = true)

end LocalStore

namespace RemoteEvent

variable {remoteEvent : RemoteEvent} {existing : MaybeDocumentMap}

def Removes (remoteEvent : RemoteEvent) (key : DocumentKey) : Prop :=
  ∃ update ∈ remoteEvent.documentUpdates, update.1 = key ∧ update.2.isRemoval = true

/-- Documents that the event does not remove stay, at their versions or later ones. -/
def Keeps (remoteEvent : RemoteEvent) (existing cache : MaybeDocumentMap) : Prop :=
  ∀ key doc, existing key = some doc → ¬ remoteEvent.Removes key → ∃ doc', cache key = some doc' ∧
    doc.version ≤ doc'.version

theorem applyUpdate_keeps {update : DocumentKey × MaybeDocument} (hmem : update ∈ remoteEvent.documentUpdates)
    (hd : update.2.isRemoval = true ∨ remoteEvent.snapshotVersion ≠ 0)
    {r : MaybeDocumentMap × OptionalMaybeDocumentMap}
    (hr : remoteEvent.Keeps existing r.1) :
    ∃ r', remoteEvent.applyUpdate existing r update = some r' ∧ remoteEvent.Keeps existing r'.1 := by
  obtain ⟨updated, new⟩ := update
  unfold applyUpdate
  simp only at hd ⊢
  by_cases hremoval : new.isRemoval = true
  · rw [if_pos hremoval]
    refine ⟨_, rfl, ?_⟩
    intro key doc hdoc hkept
    by_cases hk : key = updated
    · subst hk
      exact absurd ⟨_, hmem, rfl, hremoval⟩ hkept
    · simp only [Function.update_of_ne hk]
      exact hr key doc hdoc hkept
  rw [if_neg hremoval]
  by_cases hnewer : ∀ existingDoc ∈ existing updated, existingDoc.version < new.version ∨
      new.version = existingDoc.version ∧ existingDoc.hasPendingWrites = true
  · rw [if_pos hnewer, if_pos (hd.resolve_left hremoval)]
    refine ⟨_, rfl, ?_⟩
    intro key doc hdoc hkept
    by_cases hk : key = updated
    · subst hk
      refine ⟨new, Function.update_self .., ?_⟩
      rcases hnewer doc hdoc with hlt | ⟨heq, _⟩
      · exact hlt.le
      · exact heq.ge
    · simp only [Function.update_of_ne hk]
      exact hr key doc hdoc hkept
  · rw [if_neg hnewer]
    exact ⟨r, rfl, hr⟩

theorem applyUpdates_keep {updates : List (DocumentKey × MaybeDocument)}
    (hmem : ∀ update ∈ updates, update ∈ remoteEvent.documentUpdates)
    (hd : ∀ update ∈ updates, update.2.isRemoval = true ∨ remoteEvent.snapshotVersion ≠ 0)
    {r : MaybeDocumentMap × OptionalMaybeDocumentMap} (hr : remoteEvent.Keeps existing r.1) :
    ∃ r', updates.foldlM (remoteEvent.applyUpdate existing) r = some r' ∧ remoteEvent.Keeps existing r'.1 := by
  induction updates generalizing r with
  | nil => exact ⟨r, rfl, hr⟩
  | cons update updates ih =>
    obtain ⟨r₁, hr₁, hkept₁⟩ := applyUpdate_keeps (hmem update (by simp)) (hd update (by simp)) hr
    obtain ⟨r₂, hr₂, hkept₂⟩ := ih (fun u hu => hmem u (by simp [hu])) (fun u hu => hd u (by simp [hu])) hkept₁
    refine ⟨r₂, ?_, hkept₂⟩
    rw [List.foldlM_cons, hr₁]
    exact hr₂

theorem applyUpdates_frame {updates : List (DocumentKey × MaybeDocument)} {key : DocumentKey}
    (hkey : key ∉ updates.map Prod.fst)
    {r r' : MaybeDocumentMap × OptionalMaybeDocumentMap}
    (h : updates.foldlM (remoteEvent.applyUpdate existing) r = some r') : r'.1 key = r.1 key := by
  induction updates generalizing r with
  | nil =>
    cases h
    rfl
  | cons update updates ih =>
    simp only [List.map_cons, List.mem_cons, not_or] at hkey
    rw [List.foldlM_cons] at h
    obtain ⟨r₁, hr₁, hrest⟩ := Option.bind_eq_some_iff.mp h
    rw [ih hkey.2 hrest]
    unfold applyUpdate at hr₁
    simp only at hr₁
    split at hr₁
    · cases hr₁
      exact Function.update_of_ne hkey.1 _ _
    · split at hr₁
      · split at hr₁
        · cases hr₁
          exact Function.update_of_ne hkey.1 _ _
        · cases hr₁
      · cases hr₁
        rfl

end RemoteEvent

namespace LocalStore

open LawfulMutationQueue

variable {Q : Type} [LawfulMutationQueue Q] {store : LocalStore Q}

theorem applyRemoteEvent_spec (h : Valid store.mutationQueue) {remoteEvent : RemoteEvent}
    (hd : store.Deliverable remoteEvent) :
    ∃ changes cache version, store.applyRemoteEvent remoteEvent =
        some (changes, { store with remoteDocumentCache := cache, lastRemoteSnapshotVersion := version }) ∧
      remoteEvent.Keeps store.remoteDocumentCache cache ∧ store.lastRemoteSnapshotVersion ≤ version ∧
      ∀ key, key ∉ remoteEvent.documentUpdates.map Prod.fst → cache key = store.remoteDocumentCache key := by
  have hstart : remoteEvent.Keeps store.remoteDocumentCache store.remoteDocumentCache :=
    fun _ doc hdoc _ => ⟨doc, hdoc, le_rfl⟩
  have hfold : ∃ r, remoteEvent.documentUpdates.foldlM (remoteEvent.applyUpdate store.remoteDocumentCache)
      (store.remoteDocumentCache, ⟨[], fun _ => none⟩) = some r ∧ remoteEvent.Keeps store.remoteDocumentCache r.1 :=
    RemoteEvent.applyUpdates_keep (fun _ hu => hu)
      (fun update hu => hd.elim (fun hv => .inr hv.1) fun hv => .inl (hv.2 update hu)) hstart
  obtain ⟨⟨cache, changedDocs⟩, hfold, hkeeps⟩ := hfold
  have hversion : remoteEvent.snapshotVersion = 0 ∨ store.lastRemoteSnapshotVersion ≤ remoteEvent.snapshotVersion :=
    hd.elim (fun hv => .inr hv.2) fun hv => .inl hv.1
  let store' : LocalStore Q := { store with
    remoteDocumentCache := cache
    lastRemoteSnapshotVersion :=
      if remoteEvent.snapshotVersion ≠ 0 then remoteEvent.snapshotVersion else store.lastRemoteSnapshotVersion }
  have hvalid' : Valid store'.mutationQueue := h
  obtain ⟨changes, hchanges⟩ : ∃ changes, store'.getLocalViewOfDocuments changedDocs = some changes :=
    ⟨_, getLocalViewOfDocuments_eq hvalid' changedDocs⟩
  have hlast : store.lastRemoteSnapshotVersion ≤ store'.lastRemoteSnapshotVersion := by
    simp only [store']
    split
    · rename_i hne
      exact hversion.resolve_left hne
    · exact le_rfl
  refine ⟨changes, cache, store'.lastRemoteSnapshotVersion, ?_, hkeeps, hlast,
    fun key hkey => RemoteEvent.applyUpdates_frame hkey hfold⟩
  unfold applyRemoteEvent
  simp only [hfold, Option.bind_eq_bind, Option.bind_some, guard, if_pos hversion, Option.pure_def]
  exact congrArg (fun r => r.bind fun changes => some (changes, store')) hchanges

end LocalStore

end Firestore

end ToDoList
