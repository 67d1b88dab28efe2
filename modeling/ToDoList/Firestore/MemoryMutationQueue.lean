import Mathlib.Data.Prod.Lex
import Mathlib.Data.String.Basic
import ToDoList.Firestore.MutationQueue

/-!
# Mutation queues in memory

The batches of a queue are numbered without gaps, so that a batch is looked up
by how far its id is from the id of the first. An index orders the references
from documents to batches by document.
-/

namespace ToDoList

namespace Firestore

open Ordered

/-- References are ordered by key, then by id. -/
abbrev DocumentKeyReference := DocumentKey ×ₗ BatchId

structure MemoryMutationQueue where
  queue : List MutationBatch
  nextBatchId : BatchId
  lastStreamToken : ByteString
  batchesByDocumentKey : KeySet DocumentKeyReference

namespace MemoryMutationQueue

def new : MemoryMutationQueue := ⟨[], 1, [], Table.empty⟩

def isEmpty (q : MemoryMutationQueue) : Bool := q.queue.isEmpty

def acknowledgeBatch (batch : MutationBatch) (streamToken : ByteString) (q : MemoryMutationQueue) :
    Option MemoryMutationQueue :=
  match q.queue with
  | [] => none
  | check :: _ => if batch.batchId = check.batchId then some { q with lastStreamToken := streamToken } else none

/-- The queue outlives its user's session: the ids start again once it is empty. -/
def start (q : MemoryMutationQueue) : MemoryMutationQueue := if q.isEmpty then { q with nextBatchId := 1 } else q

def references (batch : MutationBatch) : List DocumentKeyReference :=
  batch.mutations.map fun mutation => toLex (mutation.key, batch.batchId)

def addMutationBatch (mutations : List Mutation) (q : MemoryMutationQueue) :
    Option (MutationBatch × MemoryMutationQueue) :=
  if h : mutations ≠ [] then
    let batch : MutationBatch := ⟨q.nextBatchId, mutations, h⟩
    if ∀ prior ∈ q.queue.getLast?, prior.batchId < batch.batchId then
      some (batch,
        { q with
          queue := q.queue ++ [batch]
          nextBatchId := q.nextBatchId + 1
          batchesByDocumentKey := KeySet.insertAll (references batch) q.batchesByDocumentKey })
    else none
  else none

def removeMutationBatch (batch : MutationBatch) (q : MemoryMutationQueue) : Option MemoryMutationQueue :=
  match q.queue with
  | [] => none
  | head :: rest =>
    if head.batchId = batch.batchId then
      some { q with
        queue := rest
        batchesByDocumentKey := KeySet.eraseAll (references batch) q.batchesByDocumentKey }
    else none

/-- An index may be negative, or past the end of the queue. -/
def indexOfBatchId (batchId : BatchId) (q : MemoryMutationQueue) : Int :=
  match q.queue with
  | [] => 0
  | firstBatch :: _ => batchId - firstBatch.batchId

def lookupMutationBatch (batchId : BatchId) (q : MemoryMutationQueue) : Option (Option MutationBatch) :=
  let index := q.indexOfBatchId batchId
  if q.queue.isEmpty ∨ index < 0 then some none
  else
    match q.queue[index.toNat]? with
    | none => some none
    | some batch => if batch.batchId = batchId then some (some batch) else none

def nextMutationBatchAfterBatchId (batchId : BatchId) (q : MemoryMutationQueue) : Option MutationBatch :=
  let rawIndex := q.indexOfBatchId (batchId + 1)
  q.queue[if rawIndex < 0 then 0 else rawIndex.toNat]?

/-- The ids that the index has for a document, read from its first reference on. -/
def batchIdsAt (key : DocumentKey) (q : MemoryMutationQueue) : List BatchId :=
  (q.batchesByDocumentKey.scan (toLex (key, 0)) fun reference => key = (ofLex reference).1).map fun e =>
    (ofLex e.1).2

def allMutationBatchesWithIds (batchIds : KeySet BatchId) (q : MemoryMutationQueue) : Option (List MutationBatch) :=
  (batchIds.keys.mapM fun batchId => q.lookupMutationBatch batchId).map List.reduceOption

def allMutationBatchesAffectingDocumentKeys (documentKeys : List DocumentKey) (q : MemoryMutationQueue) :
    Option (List MutationBatch) :=
  q.allMutationBatchesWithIds
    (documentKeys.foldl (fun batchIds key => KeySet.insertAll (q.batchIdsAt key) batchIds) Table.empty)

def allMutationBatchesAffectingDocumentKey (key : DocumentKey) (q : MemoryMutationQueue) :
    Option (List MutationBatch) :=
  (q.batchIdsAt key).mapM fun batchId => (q.lookupMutationBatch batchId).join

def getHighestUnacknowledgedBatchId (q : MemoryMutationQueue) : BatchId :=
  if q.isEmpty then kBatchIdUnknown else q.nextBatchId - 1

def containsKey (key : DocumentKey) (q : MemoryMutationQueue) : Bool :=
  ((q.batchesByDocumentKey.seek (toLex (key, 0))).head?).any fun e => key = (ofLex e.1).1

def performConsistencyCheck (q : MemoryMutationQueue) : Bool :=
  !q.queue.isEmpty || q.batchesByDocumentKey.entries.isEmpty

/-! ## The invariant -/

structure Valid (q : MemoryMutationQueue) : Prop where
  numbered : ∀ (i : Nat) (batch : MutationBatch), q.queue[i]? = some batch →
    batch.batchId = q.nextBatchId - q.queue.length + i
  positive : q.queue.length < q.nextBatchId
  indexed : ∀ key batchId, toLex (key, batchId) ∈ q.batchesByDocumentKey.keys ↔
    ∃ batch ∈ q.queue, batch.batchId = batchId ∧ batch.affects key = true

theorem mem_references (batch : MutationBatch) (key : DocumentKey) (batchId : BatchId) :
    toLex (key, batchId) ∈ references batch ↔ batch.batchId = batchId ∧ batch.affects key = true := by
  unfold references MutationBatch.affects
  rw [List.mem_map, List.any_eq_true]
  constructor
  · rintro ⟨mutation, hm, heq⟩
    obtain ⟨hk, hb⟩ := Prod.mk.injEq .. ▸ toLex.injective heq
    exact ⟨hb, mutation, hm, by simpa using hk⟩
  · rintro ⟨rfl, mutation, hm, hk⟩
    exact ⟨mutation, hm, by rw [of_decide_eq_true hk]⟩

theorem new_valid : new.Valid where
  numbered := by intro i batch h; simp [new] at h
  positive := by simp [new]
  indexed := by intro key batchId; simp [new, Table.keys]

section
variable {q : MemoryMutationQueue} (h : q.Valid)
include h

theorem Valid.number {i : Nat} (hi : i < q.queue.length) :
    (q.queue[i]).batchId = q.nextBatchId - q.queue.length + i :=
  h.numbered i _ (List.getElem?_eq_getElem hi)

theorem Valid.sorted : q.queue.Pairwise fun a b => a.batchId < b.batchId := by
  rw [List.pairwise_iff_getElem]
  intro i j hi hj hij
  rw [h.number hi, h.number hj]
  unfold BatchId at *
  omega

theorem Valid.bounds {batch : MutationBatch} (hb : batch ∈ q.queue) :
    0 < batch.batchId ∧ q.nextBatchId - q.queue.length ≤ batch.batchId ∧ batch.batchId < q.nextBatchId := by
  obtain ⟨i, hi, rfl⟩ := List.getElem_of_mem hb
  have hpos := h.positive
  rw [h.number hi]
  unfold BatchId at *
  omega

theorem Valid.index (batchId : BatchId) (hne : q.queue ≠ []) :
    q.indexOfBatchId batchId = batchId - (q.nextBatchId - q.queue.length) := by
  unfold indexOfBatchId
  have hnum := h.numbered 0
  cases hq : q.queue with
  | nil => exact absurd hq hne
  | cons first rest =>
    rw [hq] at hnum
    simp only
    rw [hnum first rfl]
    simp

/-! ## Lookups -/

theorem Valid.lookup (batchId : BatchId) :
    q.lookupMutationBatch batchId = some (q.queue.find? fun batch => batch.batchId = batchId) := by
  unfold lookupMutationBatch
  by_cases hempty : q.queue = []
  · simp [hempty]
  have hindex := h.index batchId hempty
  simp only [List.isEmpty_iff, hempty, false_or]
  by_cases hneg : q.indexOfBatchId batchId < 0
  · rw [if_pos hneg, eq_comm, Option.some.injEq, List.find?_eq_none]
    intro batch hb heq
    have := h.bounds hb
    have heq : batch.batchId = batchId := of_decide_eq_true heq
    unfold BatchId at *
    omega
  · rw [if_neg hneg]
    by_cases hlt : (q.indexOfBatchId batchId).toNat < q.queue.length
    · have hid : (q.queue[(q.indexOfBatchId batchId).toNat]).batchId = batchId := by
        rw [h.number hlt]
        unfold BatchId at *
        omega
      rw [List.getElem?_eq_getElem hlt]
      simp only [hid, if_true]
      have hfind := find?_of_mem h.sorted (List.getElem_mem hlt)
      rw [hid] at hfind
      rw [hfind]
    · rw [List.getElem?_eq_none (not_lt.mp hlt)]
      simp only
      rw [eq_comm, Option.some.injEq, List.find?_eq_none]
      intro batch hb heq
      have := h.bounds hb
      have heq : batch.batchId = batchId := of_decide_eq_true heq
      unfold BatchId at *
      omega

theorem Valid.next (batchId : BatchId) :
    q.nextMutationBatchAfterBatchId batchId = q.queue.find? fun batch => batchId < batch.batchId := by
  unfold nextMutationBatchAfterBatchId
  by_cases hempty : q.queue = []
  · simp [hempty]
  have hindex := h.index (batchId + 1) hempty
  rw [eq_comm]
  apply find?_of_threshold
  intro j hj
  rw [decide_eq_true_eq, h.number hj]
  unfold BatchId at *
  split <;> omega

theorem Valid.highest : q.getHighestUnacknowledgedBatchId =
    ((q.queue.getLast?).map MutationBatch.batchId).getD kBatchIdUnknown := by
  unfold getHighestUnacknowledgedBatchId isEmpty
  by_cases hempty : q.queue = []
  · simp [hempty]
  have hlen : 0 < q.queue.length := List.length_pos_of_ne_nil hempty
  rw [if_neg (by simpa using hempty), List.getLast?_eq_getElem?, List.getElem?_eq_getElem (by omega),
    Option.map_some,
    Option.getD_some, h.number]
  unfold BatchId at *
  omega

/-! ## The index -/

theorem Valid.starts (key : DocumentKey) :
    q.batchesByDocumentKey.Starts (toLex (key, 0)) fun reference => decide (key = (ofLex reference).1) where
  le := by
    rintro ⟨reference, _⟩ he hkey
    have hkey : key = (ofLex reference).1 := of_decide_eq_true hkey
    have hmem : reference ∈ q.batchesByDocumentKey.keys := List.mem_map_of_mem he
    obtain ⟨batch, hb, hid, _⟩ := (h.indexed (ofLex reference).1 (ofLex reference).2).mp hmem
    have hpos := (h.bounds hb).1
    rw [Prod.Lex.le_iff]
    refine .inr ⟨hkey, ?_⟩
    rw [← hid]
    exact hpos.le
  down := by
    intro a _ b _ hka hab hb
    have hb : key = (ofLex b.1).1 := of_decide_eq_true hb
    apply decide_eq_true
    apply le_antisymm
    · exact Prod.Lex.monotone_fst _ _ hka
    · rw [hb]
      exact Prod.Lex.monotone_fst _ _ hab

theorem Valid.mem_batchIdsAt (key : DocumentKey) (batchId : BatchId) :
    batchId ∈ q.batchIdsAt key ↔ ∃ batch ∈ q.queue, batch.affects key = true ∧ batch.batchId = batchId := by
  have hindexed := h.indexed key batchId
  rw [KeySet.mem_keys] at hindexed
  have hmem : batchId ∈ q.batchIdsAt key ↔ (toLex (key, batchId), ()) ∈ q.batchesByDocumentKey.entries := by
    unfold batchIdsAt
    rw [List.mem_map]
    constructor
    · rintro ⟨⟨reference, _⟩, he, rfl⟩
      obtain ⟨he, hkey⟩ := (Table.mem_scan (h.starts key) _).mp he
      have hkey : key = (ofLex reference).1 := of_decide_eq_true hkey
      rw [hkey]
      exact he
    · intro he
      refine ⟨_, (Table.mem_scan (h.starts key) _).mpr ⟨he, ?_⟩, rfl⟩
      simp
  rw [hmem, hindexed]
  simp only [and_comm]

theorem Valid.contains (key : DocumentKey) :
    q.containsKey key = true ↔ ∃ batch ∈ q.queue, batch.affects key = true := by
  have hscan : q.containsKey key = true ↔ q.batchIdsAt key ≠ [] := by
    unfold containsKey batchIdsAt Table.scan
    cases q.batchesByDocumentKey.seek (toLex (key, 0)) with
    | nil => simp
    | cons e l =>
      rw [List.head?_cons, Option.any_some, List.takeWhile_cons]
      split
      · rename_i he
        simp [he]
      · rename_i he
        simp [he]
  rw [hscan]
  constructor
  · intro hne
    obtain ⟨batchId, hmem⟩ := List.exists_mem_of_ne_nil _ hne
    obtain ⟨batch, hbatch, haffects, _⟩ := (h.mem_batchIdsAt key batchId).mp hmem
    exact ⟨batch, hbatch, haffects⟩
  · rintro ⟨batch, hbatch, haffects⟩
    exact List.ne_nil_of_mem ((h.mem_batchIdsAt key batch.batchId).mpr ⟨batch, hbatch, haffects, rfl⟩)

theorem Valid.batchIdsAt_sorted (key : DocumentKey) : (q.batchIdsAt key).Pairwise (· < ·) := by
  unfold batchIdsAt
  rw [List.pairwise_map]
  have hsorted := q.batchesByDocumentKey.scan_sorted (toLex (key, 0)) fun reference =>
    decide (key = (ofLex reference).1)
  refine List.Pairwise.imp_of_mem ?_ hsorted
  intro a b ha hb hab
  have ha := ((Table.mem_scan (h.starts key) _).mp ha).2
  have hb := ((Table.mem_scan (h.starts key) _).mp hb).2
  have hsame : (ofLex a.1).1 = (ofLex b.1).1 := (of_decide_eq_true ha).symm.trans (of_decide_eq_true hb)
  rcases Prod.Lex.lt_iff.mp hab with hlt | ⟨_, hlt⟩
  · exact absurd hlt (by rw [hsame]; exact lt_irrefl _)
  · exact hlt

theorem Valid.affecting_key (key : DocumentKey) :
    q.allMutationBatchesAffectingDocumentKey key = some (q.queue.filter fun batch => batch.affects key) := by
  unfold allMutationBatchesAffectingDocumentKey
  simp only [h.lookup, Option.join_some]
  exact mapM_find? h.sorted (h.batchIdsAt_sorted key) (h.mem_batchIdsAt key)

theorem Valid.affecting_keys (documentKeys : List DocumentKey) :
    q.allMutationBatchesAffectingDocumentKeys documentKeys =
      some (q.queue.filter fun batch => documentKeys.any batch.affects) := by
  unfold allMutationBatchesAffectingDocumentKeys allMutationBatchesWithIds
  generalize hids :
    (documentKeys.foldl (fun batchIds key => KeySet.insertAll (q.batchIdsAt key) batchIds) Table.empty) = ids
  have hmem : ∀ batchId, batchId ∈ ids.keys ↔
      ∃ batch ∈ q.queue, documentKeys.any batch.affects = true ∧ batch.batchId = batchId := by
    intro batchId
    rw [← hids, KeySet.mem_foldl_insertAll]
    simp only [h.mem_batchIdsAt, List.any_eq_true, Table.keys, Table.empty, List.map_nil, List.not_mem_nil,
      or_false]
    constructor
    · rintro ⟨key, hkey, batch, hb, haffects, hid⟩
      exact ⟨batch, hb, ⟨key, hkey, haffects⟩, hid⟩
    · rintro ⟨batch, hb, ⟨key, hkey, haffects⟩, hid⟩
      exact ⟨key, hkey, batch, hb, haffects, hid⟩
  have hfound := mapM_find? h.sorted ids.keys_sorted hmem
  have hlookups : ids.keys.mapM (fun batchId => q.lookupMutationBatch batchId) =
      some (ids.keys.map fun batchId => q.queue.find? fun batch => batch.batchId = batchId) := by
    simp only [h.lookup]
    exact List.mapM_pure
  rw [hlookups, Option.map_some, reduceOption_of_mapM hfound]

/-! ## Changes -/

theorem Valid.start : q.start.Valid ∧ q.start.queue = q.queue := by
  unfold MemoryMutationQueue.start
  by_cases hempty : q.isEmpty = true
  · have hnil : q.queue = [] := by simpa [isEmpty] using hempty
    rw [if_pos hempty]
    refine ⟨⟨?_, ?_, h.indexed⟩, rfl⟩
    · intro i batch hi
      simp [hnil] at hi
    · simp [hnil]
  · rw [if_neg hempty]
    exact ⟨h, rfl⟩

theorem Valid.add {mutations : List Mutation} (hne : mutations ≠ []) :
    ∃ batch q', q.addMutationBatch mutations = some (batch, q') ∧ batch.mutations = mutations ∧ q'.Valid ∧
      q'.queue = q.queue ++ [batch] := by
  unfold addMutationBatch
  have hprior : ∀ prior ∈ q.queue.getLast?, prior.batchId < q.nextBatchId := by
    intro prior hp
    exact (h.bounds (List.mem_of_getLast? hp)).2.2
  have hpos := h.positive
  simp only [dif_pos hne, if_pos hprior]
  refine ⟨_, _, rfl, rfl, ⟨?_, ?_, ?_⟩, rfl⟩
  · intro i batch hi
    simp only [List.length_append, List.length_singleton]
    rw [List.getElem?_append] at hi
    split at hi
    · have hnum := h.numbered i batch hi
      unfold BatchId at *
      omega
    · rw [List.getElem?_singleton] at hi
      split at hi
      · cases hi
        simp only
        unfold BatchId at *
        omega
      · cases hi
  · simp only [List.length_append, List.length_singleton]
    unfold BatchId at *
    omega
  · intro key batchId
    rw [KeySet.mem_insertAll, mem_references, h.indexed]
    simp only [List.mem_append, List.mem_singleton, or_and_right, exists_or, exists_eq_left]
    exact or_comm

theorem Valid.remove {batch : MutationBatch} {rest : List MutationBatch} (hq : q.queue = batch :: rest) :
    ∃ q', q.removeMutationBatch batch = some q' ∧ q'.Valid ∧ q'.queue = rest := by
  unfold removeMutationBatch
  have hpos := h.positive
  have hsorted := h.sorted
  simp only [hq, if_true]
  rw [hq, List.pairwise_cons] at hsorted
  refine ⟨_, rfl, ⟨?_, ?_, ?_⟩, rfl⟩
  · intro i later hi
    have hnum := h.numbered (i + 1) later (by rw [hq]; simpa using hi)
    simp only [hq, List.length_cons] at hnum
    simp only
    unfold BatchId at *
    omega
  · simp only [hq, List.length_cons] at hpos
    simp only
    unfold BatchId at *
    omega
  · intro key batchId
    rw [KeySet.mem_eraseAll, mem_references, h.indexed, hq]
    simp only [List.mem_cons, exists_eq_or_imp]
    constructor
    · rintro ⟨hnot, hfirst | hlater⟩
      · exact absurd hfirst hnot
      · exact hlater
    · rintro ⟨later, hmem, rfl, haffects⟩
      refine ⟨?_, .inr ⟨later, hmem, rfl, haffects⟩⟩
      rintro ⟨hid, _⟩
      exact absurd (hsorted.1 later hmem) (by rw [hid]; exact lt_irrefl _)

theorem Valid.consistent : q.performConsistencyCheck = true := by
  unfold performConsistencyCheck
  by_cases hempty : q.queue = []
  · have hnone : q.batchesByDocumentKey.entries = [] := by
      apply List.eq_nil_iff_forall_not_mem.mpr
      rintro ⟨reference, _⟩ he
      have hmem : reference ∈ q.batchesByDocumentKey.keys := List.mem_map_of_mem he
      obtain ⟨batch, hb, _⟩ := (h.indexed (ofLex reference).1 (ofLex reference).2).mp hmem
      rw [hempty] at hb
      cases hb
    simp [hnone]
  · simp [hempty]

end

end MemoryMutationQueue

/-! ## The queues of all users -/

/-- A queue that no user has opened yet is new. The reference delegate asks the others
which documents it has to keep. -/
structure MemoryPersistence where
  mutationQueues : User → MemoryMutationQueue
  /-- The users whose queues have been made. -/
  users : List User
  user : User

namespace MemoryPersistence

def new (user : User) : MemoryPersistence := ⟨fun _ => .new, [user], user⟩

def queue (p : MemoryPersistence) : MemoryMutationQueue := p.mutationQueues p.user

def setQueue (p : MemoryPersistence) (q : MemoryMutationQueue) : MemoryPersistence :=
  { p with mutationQueues := Function.update p.mutationQueues p.user q }

instance : MutationQueue MemoryPersistence where
  getMutationQueueForUser user p := { p with user, users := p.users.insert user }
  start p := some (p.setQueue p.queue.start)
  acknowledgeBatch batch streamToken p := (p.queue.acknowledgeBatch batch streamToken).map p.setQueue
  addMutationBatch mutations p := (p.queue.addMutationBatch mutations).map fun r => (r.1, p.setQueue r.2)
  removeMutationBatch batch p := (p.queue.removeMutationBatch batch).map p.setQueue
  allMutationBatches p := p.queue.queue
  allMutationBatchesAffectingDocumentKeys keys p := p.queue.allMutationBatchesAffectingDocumentKeys keys
  allMutationBatchesAffectingDocumentKey key p := p.queue.allMutationBatchesAffectingDocumentKey key
  lookupMutationBatch batchId p := p.queue.lookupMutationBatch batchId
  nextMutationBatchAfterBatchId batchId p := some (p.queue.nextMutationBatchAfterBatchId batchId)
  getHighestUnacknowledgedBatchId p := p.queue.getHighestUnacknowledgedBatchId
  performConsistencyCheck p := p.queue.performConsistencyCheck
  mutationQueuesContainKey key p := p.users.any fun user => (p.mutationQueues user).containsKey key
  getLastStreamToken p := p.queue.lastStreamToken
  setLastStreamToken token p := p.setQueue { p.queue with lastStreamToken := token }

structure Valid (p : MemoryPersistence) : Prop where
  queues : ∀ user, (p.mutationQueues user).Valid
  made : p.user ∈ p.users
  empty : ∀ user, user ∉ p.users → (p.mutationQueues user).queue = []

def batches (p : MemoryPersistence) (user : User) : List MutationBatch := (p.mutationQueues user).queue

theorem new_valid (user : User) : (new user).Valid where
  queues := fun _ => MemoryMutationQueue.new_valid
  made := List.mem_singleton.mpr rfl
  empty := fun _ _ => rfl

theorem Valid.set {p : MemoryPersistence} (h : p.Valid) {q : MemoryMutationQueue} (hq : q.Valid) :
    (p.setQueue q).Valid where
  queues := by
    intro user
    unfold setQueue
    by_cases hu : user = p.user
    · subst hu
      simpa using hq
    · simpa [hu] using h.queues user
  made := h.made
  empty := by
    intro user hmade
    have hu : user ≠ p.user := fun hu => hmade (hu ▸ h.made)
    unfold setQueue
    simpa [hu] using h.empty user hmade

theorem Valid.switch {p : MemoryPersistence} (h : p.Valid) (user : User) :
    Valid { p with user, users := p.users.insert user } where
  queues := h.queues
  made := List.mem_insert_self
  empty := fun other hmade => h.empty other fun hmem => hmade (List.mem_insert_of_mem hmem)

theorem batches_set (p : MemoryPersistence) (q : MemoryMutationQueue) :
    (p.setQueue q).batches = Function.update p.batches p.user q.queue := by
  funext user
  unfold batches setQueue
  by_cases hu : user = p.user
  · subst hu
    simp
  · simp [hu]

theorem batches_same (p : MemoryPersistence) {q : MemoryMutationQueue} (hq : q.queue = p.queue.queue) :
    (p.setQueue q).batches = p.batches := by
  rw [batches_set, hq]
  exact Function.update_eq_self p.user p.batches

instance : LawfulMutationQueue MemoryPersistence where
  Valid := Valid
  user := MemoryPersistence.user
  batches := batches
  sorted h u := (h.queues u).sorted
  positive h u _ hb := ((h.queues u).bounds hb).1
  start_eq := by
    intro p h u
    have hstart := (h.queues u).start
    exact ⟨_, rfl, (h.switch u).set hstart.1, rfl,
      batches_same { p with user := u, users := p.users.insert u } hstart.2⟩
  acknowledge_eq := by
    intro p batch rest h token hq
    have hq : p.queue.queue = batch :: rest := hq
    refine ⟨p.setQueue { p.queue with lastStreamToken := token }, ?_, ?_, rfl, ?_⟩
    · simp [MutationQueue.acknowledgeBatch, MemoryMutationQueue.acknowledgeBatch, hq]
    · exact h.set ⟨(h.queues p.user).numbered, (h.queues p.user).positive, (h.queues p.user).indexed⟩
    · exact batches_same p rfl
  add_eq := by
    intro p mutations h hne
    obtain ⟨batch, q, hadd, hm, hq, hqueue⟩ := (h.queues p.user).add hne
    refine ⟨batch, p.setQueue q, ?_, hm, h.set hq, rfl, ?_⟩
    · have hadd : p.queue.addMutationBatch mutations = some (batch, q) := hadd
      simp [MutationQueue.addMutationBatch, hadd]
    · rw [batches_set, hqueue]
      rfl
  remove_eq := by
    intro p batch rest h hq
    obtain ⟨q, hremove, hq, hqueue⟩ := (h.queues p.user).remove hq
    refine ⟨p.setQueue q, ?_, h.set hq, rfl, ?_⟩
    · have hremove : p.queue.removeMutationBatch batch = some q := hremove
      simp [MutationQueue.removeMutationBatch, hremove]
    · rw [batches_set, hqueue]
  all_eq := by intro p _; rfl
  affecting_keys_eq h keys := (h.queues _).affecting_keys keys
  affecting_key_eq h key := (h.queues _).affecting_key key
  lookup_eq h batchId := (h.queues _).lookup batchId
  next_eq h batchId := congrArg some ((h.queues _).next batchId)
  highest_eq h := (h.queues _).highest
  consistent h := (h.queues _).consistent
  contain_eq := by
    intro p h key
    show (p.users.any fun user => (p.mutationQueues user).containsKey key) = true ↔ _
    rw [List.any_eq_true]
    constructor
    · rintro ⟨user, _, hcontains⟩
      exact ⟨user, ((h.queues user).contains key).mp hcontains⟩
    · rintro ⟨user, batch, hbatch, haffects⟩
      refine ⟨user, ?_, ((h.queues user).contains key).mpr ⟨batch, hbatch, haffects⟩⟩
      by_contra hmade
      have hempty : p.batches user = [] := h.empty user hmade
      rw [hempty] at hbatch
      cases hbatch
  token_eq := by
    intro p h token
    refine ⟨h.set ⟨(h.queues p.user).numbered, (h.queues p.user).positive, (h.queues p.user).indexed⟩, rfl,
      batches_same p rfl, ?_⟩
    simp [MutationQueue.getLastStreamToken, MutationQueue.setLastStreamToken, queue, setQueue]

end MemoryPersistence

end Firestore

end ToDoList
