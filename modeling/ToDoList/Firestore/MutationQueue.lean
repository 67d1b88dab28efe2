import ToDoList.Firestore.MutationBatch
import ToDoList.Ordered

/-!
# Mutation queues

The batches that a user has written and the backend has not yet answered for
are kept in the mutation queue of that user. A lawful queue is, for each user,
a list of batches in the order of their ids.
-/

namespace ToDoList

namespace Firestore

/-- A user is its id, or `none` while nobody is signed in. -/
abbrev User := Option String

abbrev ByteString := List UInt8

def kBatchIdUnknown : BatchId := -1

def MutationBatch.affects (batch : MutationBatch) (documentKey : DocumentKey) : Bool :=
  batch.mutations.any fun mutation => mutation.key = documentKey

/-- The operations on the queue of the user it is open for, and whether the queue
of any user has a document. They are `none` where an assertion fails. -/
class MutationQueue (Q : Type) where
  getMutationQueueForUser : User → Q → Q
  start : Q → Option Q
  acknowledgeBatch : MutationBatch → ByteString → Q → Option Q
  addMutationBatch : List Mutation → Q → Option (MutationBatch × Q)
  removeMutationBatch : MutationBatch → Q → Option Q
  allMutationBatches : Q → List MutationBatch
  allMutationBatchesAffectingDocumentKeys : List DocumentKey → Q → Option (List MutationBatch)
  allMutationBatchesAffectingDocumentKey : DocumentKey → Q → Option (List MutationBatch)
  lookupMutationBatch : BatchId → Q → Option (Option MutationBatch)
  nextMutationBatchAfterBatchId : BatchId → Q → Option (Option MutationBatch)
  getHighestUnacknowledgedBatchId : Q → BatchId
  performConsistencyCheck : Q → Bool
  mutationQueuesContainKey : DocumentKey → Q → Bool
  getLastStreamToken : Q → ByteString
  setLastStreamToken : ByteString → Q → Q

open MutationQueue

class LawfulMutationQueue (Q : Type) extends MutationQueue Q where
  Valid : Q → Prop
  user : Q → User
  batches : Q → User → List MutationBatch
  sorted : ∀ {q}, Valid q → ∀ u, (batches q u).Pairwise fun a b => a.batchId < b.batchId
  positive : ∀ {q}, Valid q → ∀ u, ∀ batch ∈ batches q u, 0 < batch.batchId
  start_eq : ∀ {q}, Valid q → ∀ u, ∃ q', start (getMutationQueueForUser u q) = some q' ∧
    Valid q' ∧ user q' = u ∧ batches q' = batches q
  acknowledge_eq : ∀ {q batch rest}, Valid q → ∀ token, batches q (user q) = batch :: rest →
    ∃ q', acknowledgeBatch batch token q = some q' ∧ Valid q' ∧ user q' = user q ∧ batches q' = batches q
  add_eq : ∀ {q mutations}, Valid q → mutations ≠ [] →
    ∃ batch q', addMutationBatch mutations q = some (batch, q') ∧ batch.mutations = mutations ∧ Valid q' ∧
      user q' = user q ∧ batches q' = Function.update (batches q) (user q) (batches q (user q) ++ [batch])
  remove_eq : ∀ {q batch rest}, Valid q → batches q (user q) = batch :: rest →
    ∃ q', removeMutationBatch batch q = some q' ∧ Valid q' ∧
      user q' = user q ∧ batches q' = Function.update (batches q) (user q) rest
  all_eq : ∀ {q}, Valid q → allMutationBatches q = batches q (user q)
  affecting_keys_eq : ∀ {q}, Valid q → ∀ keys, allMutationBatchesAffectingDocumentKeys keys q =
    some ((batches q (user q)).filter fun batch => keys.any batch.affects)
  affecting_key_eq : ∀ {q}, Valid q → ∀ key, allMutationBatchesAffectingDocumentKey key q =
    some ((batches q (user q)).filter fun batch => batch.affects key)
  lookup_eq : ∀ {q}, Valid q → ∀ batchId, lookupMutationBatch batchId q =
    some ((batches q (user q)).find? fun batch => batch.batchId = batchId)
  next_eq : ∀ {q}, Valid q → ∀ batchId, nextMutationBatchAfterBatchId batchId q =
    some ((batches q (user q)).find? fun batch => batchId < batch.batchId)
  highest_eq : ∀ {q}, Valid q → getHighestUnacknowledgedBatchId q =
    (((batches q (user q)).getLast?).map MutationBatch.batchId).getD kBatchIdUnknown
  consistent : ∀ {q}, Valid q → performConsistencyCheck q = true
  contain_eq : ∀ {q}, Valid q → ∀ key, mutationQueuesContainKey key q = true ↔
    ∃ u, ∃ batch ∈ batches q u, batch.affects key = true
  token_eq : ∀ {q}, Valid q → ∀ token, Valid (setLastStreamToken token q) ∧
    user (setLastStreamToken token q) = user q ∧ batches (setLastStreamToken token q) = batches q ∧
    getLastStreamToken (setLastStreamToken token q) = token

end Firestore

end ToDoList
