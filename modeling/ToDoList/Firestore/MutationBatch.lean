import Mathlib.Data.List.Nodup
import ToDoList.Firestore.Mutation

/-!
# Mutation batches

The mutations of one write form a batch. A batch is applied to one document
when that document is read, and to a whole set of documents when the write is
made. What `setData` writes is such a batch.
-/

namespace ToDoList

namespace Firestore

open Nested

abbrev BatchId := Int

abbrev MaybeDocumentMap := DocumentKey → Option MaybeDocument

structure MutationBatch where
  batchId : BatchId
  mutations : List Mutation
  nonempty : mutations ≠ []

/-- The results of the mutations of a batch, in their order. -/
structure MutationBatchResult where
  commitVersion : SnapshotVersion
  mutationResults : List MutationResult

namespace MutationBatch

def applyToRemoteDocument (batch : MutationBatch) (documentKey : DocumentKey) (result : MutationBatchResult)
    (maybeDoc : Option MaybeDocument) : Option MaybeDocument :=
  (batch.mutations.zip result.mutationResults).foldl
    (fun maybeDoc w => if w.1.key = documentKey then some (w.1.applyToRemoteDocument maybeDoc w.2)
      else maybeDoc) maybeDoc

def applyToLocalDocument (batch : MutationBatch) (documentKey : DocumentKey) (maybeDoc : Option MaybeDocument) :
    Option MaybeDocument :=
  batch.mutations.foldl
    (fun maybeDoc mutation => if mutation.key = documentKey then mutation.applyToLocalView maybeDoc
      else maybeDoc) maybeDoc

def applyToLocalDocumentSet (batch : MutationBatch) (documentSet : MaybeDocumentMap) : MaybeDocumentMap :=
  batch.mutations.foldl
    (fun mutatedDocuments mutation =>
      match batch.applyToLocalDocument mutation.key (mutatedDocuments mutation.key) with
      | some mutatedDocument => Function.update mutatedDocuments mutation.key (some mutatedDocument)
      | none => mutatedDocuments) documentSet

def keys (batch : MutationBatch) : List DocumentKey := (batch.mutations.map (·.key)).dedup

def Unconditional (batch : MutationBatch) : Prop := ∀ mutation ∈ batch.mutations, mutation.precondition = .none

instance (batch : MutationBatch) : Decidable batch.Unconditional :=
  inferInstanceAs (Decidable (∀ mutation ∈ batch.mutations, mutation.precondition = .none))

/-- What the batch does to a document, where its mutations are unconditional. -/
def typesAt (batch : MutationBatch) (documentKey : DocumentKey) : List MutationType :=
  (batch.mutations.filter fun mutation => mutation.key = documentKey).map (·.type)

/-! ## One document -/

section
variable (batch : MutationBatch) (documentKey : DocumentKey) (maybeDoc : Option MaybeDocument)

theorem foldl_local_none {mutations : List Mutation}
    (h : mutations.foldl (fun d m => if m.key = documentKey then m.applyToLocalView d else d) maybeDoc = none) :
    maybeDoc = none := by
  induction mutations generalizing maybeDoc with
  | nil => exact h
  | cons m mutations ih =>
    have hm := ih _ h
    simp only at hm
    by_cases hk : m.key = documentKey
    · rw [if_pos hk] at hm
      unfold Mutation.applyToLocalView at hm
      by_cases hp : m.precondition.isValidFor maybeDoc = true
      · simp [hp] at hm
      · simpa [hp] using hm
    · rwa [if_neg hk] at hm

theorem applyToLocalDocument_none (h : batch.applyToLocalDocument documentKey maybeDoc = none) : maybeDoc = none :=
  foldl_local_none documentKey maybeDoc h

theorem applyToLocalDocument_of_not_mem (h : ∀ m ∈ batch.mutations, m.key ≠ documentKey) :
    batch.applyToLocalDocument documentKey maybeDoc = maybeDoc := by
  unfold applyToLocalDocument
  revert h
  induction batch.mutations with
  | nil => intro _; rfl
  | cons m mutations ih =>
    intro h
    rw [List.foldl_cons, if_neg (h m (by simp))]
    exact ih fun n hn => h n (by simp [hn])

variable {batch}

theorem applyToLocalDocument_eq (h : batch.Unconditional) :
    batch.applyToLocalDocument documentKey maybeDoc =
      Async.replay MutationType.act (batch.typesAt documentKey) maybeDoc := by
  unfold applyToLocalDocument typesAt
  unfold Unconditional at h
  revert h
  induction batch.mutations generalizing maybeDoc with
  | nil => intro _; rfl
  | cons m mutations ih =>
    intro h
    rw [List.foldl_cons, ih _ fun n hn => h n (by simp [hn])]
    by_cases hk : m.key = documentKey
    · simp [hk, Mutation.applyToLocalView, h m (by simp), Precondition.isValidFor, MutationType.act]
    · simp [hk]

end

/-! ## A set of documents -/

section
variable (f : DocumentKey → Option MaybeDocument → Option MaybeDocument)

def updateAt (docs : MaybeDocumentMap) (key : DocumentKey) : MaybeDocumentMap :=
  Function.update docs key (f key (docs key))

theorem foldl_updateAt_of_not_mem {keys : List DocumentKey} {key : DocumentKey} (h : key ∉ keys)
    (docs : MaybeDocumentMap) :
    keys.foldl (updateAt f) docs key = docs key := by
  induction keys generalizing docs with
  | nil => rfl
  | cons k keys ih =>
    simp only [List.mem_cons, not_or] at h
    rw [List.foldl_cons, ih h.2, updateAt, Function.update_of_ne h.1]

theorem foldl_updateAt {keys : List DocumentKey} (hf : keys.Nodup ∨ ∀ key d, f key (f key d) = f key d)
    {key : DocumentKey} (h : key ∈ keys) (docs : MaybeDocumentMap) :
      keys.foldl (updateAt f) docs key = f key (docs key) := by
  induction keys generalizing docs with
  | nil => cases h
  | cons k keys ih =>
    have hf' : keys.Nodup ∨ ∀ key d, f key (f key d) = f key d := hf.imp_left fun hn => hn.of_cons
    rw [List.foldl_cons]
    by_cases hk : key = k
    · subst hk
      by_cases hmem : key ∈ keys
      · have hidem : ∀ key d, f key (f key d) = f key d := by
          rcases hf with hn | hidem
          · exact absurd hmem (List.nodup_cons.mp hn).1
          · exact hidem
        rw [ih hf' hmem, updateAt, Function.update_self, hidem]
      · rw [foldl_updateAt_of_not_mem f hmem, updateAt, Function.update_self]
    · have hmem : key ∈ keys := by simpa [hk] using h
      rw [ih hf' hmem, updateAt, Function.update_of_ne hk]

end

section
variable {batch : MutationBatch}

theorem applyToLocalDocumentSet_eq (documentSet : MaybeDocumentMap) :
    batch.applyToLocalDocumentSet documentSet =
      (batch.mutations.map (·.key)).foldl (updateAt batch.applyToLocalDocument) documentSet := by
  unfold applyToLocalDocumentSet
  rw [List.foldl_map]
  congr 1
  funext docs mutation
  unfold updateAt
  cases h : batch.applyToLocalDocument mutation.key (docs mutation.key) with
  | some d => rfl
  | none =>
    have hnone := applyToLocalDocument_none batch mutation.key _ h
    have hself : Function.update docs mutation.key none = docs := by
      rw [← hnone, Function.update_eq_self]
    exact hself.symm

/-- The set of documents is given what each document alone would be given,
though the batch is applied once for every mutation of a document. -/
theorem local_document_set_agrees (h : (batch.mutations.map (·.key)).Nodup ∨ batch.Unconditional)
    (documentSet : MaybeDocumentMap) (documentKey : DocumentKey) :
    batch.applyToLocalDocumentSet documentSet documentKey =
      batch.applyToLocalDocument documentKey (documentSet documentKey) := by
  rw [applyToLocalDocumentSet_eq]
  by_cases hmem : documentKey ∈ batch.mutations.map (·.key)
  · refine foldl_updateAt _ (h.imp_right fun hu => ?_) hmem documentSet
    intro key d
    simp only [applyToLocalDocument_eq _ _ hu]
    exact act_absorbing.logs.idem _ _
  · rw [foldl_updateAt_of_not_mem _ hmem, applyToLocalDocument_of_not_mem]
    intro m hm hk
    exact hmem (List.mem_map.mpr ⟨m, hm, hk⟩)

end

def twiceBatch : MutationBatch where
  batchId := 1
  mutations :=
    [⟨["users", "ann"], .none,
      .patch (ObjectValue.empty.set "email" [] (.leaf (.string "ann@example.com"))) [["email"]]⟩,
     ⟨["users", "ann"], .none, .delete⟩]
  nonempty := by simp

theorem local_document_set_agrees_twice :
    twiceBatch.applyToLocalDocumentSet (fun _ => none) ["users", "ann"] =
      twiceBatch.applyToLocalDocument ["users", "ann"] none :=
  local_document_set_agrees (.inr (by decide)) _ _

/-- A patch that needs the document and one that makes it are not applied
twice alike. -/
def conditionalBatch : MutationBatch where
  batchId := 1
  mutations :=
    [⟨["users", "ann"], .existence true,
      .patch (ObjectValue.empty.set "email" [] (.leaf (.string "ann@example.com"))) [["email"]]⟩,
     ⟨["users", "ann"], .none, .patch (ObjectValue.empty.set "username" [] (.leaf (.string "ann"))) [["username"]]⟩]
  nonempty := by simp

def emailOf (maybeDoc : Option MaybeDocument) : Bool := (Slot.get ["email"] (dataOf maybeDoc)).isSome

example : emailOf (conditionalBatch.applyToLocalDocumentSet (fun _ => none) ["users", "ann"]) = true ∧
    emailOf (conditionalBatch.applyToLocalDocument ["users", "ann"] none) = false := by
  decide

end MutationBatch

/-! ## What `setData` writes -/

theorem setData_mutation {key : DocumentKey} {data : UserData} {merge : Bool} {mutations : List Mutation}
    (h : setData key data merge = .ok mutations) :
    ∃ parsed, (if merge then data.parsedMergeData else data.parsedSetData) = .ok parsed ∧
      mutations = parsed.toMutations key .none := by
  unfold setData at h
  cases hp : (if merge then data.parsedMergeData else data.parsedSetData) with
  | error e => rw [hp] at h; cases h
  | ok parsed => rw [hp] at h; cases h; exact ⟨parsed, rfl, rfl⟩

section
variable {entries : List (String × UserData)} {key : DocumentKey} {batch : MutationBatch}

open UserData

theorem patchEdits_leaves {parsed : ParsedSetData} (hd : (dictionary entries).Distinct)
    (h : parsedMergeData (.dictionary entries) = .ok parsed) :
    patchEdits parsed.data parsed.fieldMask = leavesOf entries := by
  obtain ⟨_, hmask, hdata⟩ := parsedMergeData_leaves hd h
  unfold patchEdits
  rw [hmask]
  have hfilter : ((leavesOf entries).map Prod.fst).filter (fun path => path ≠ []) =
    (leavesOf entries).map Prod.fst := by
    apply List.filter_eq_self.mpr
    intro path hpath
    obtain ⟨w, hw, rfl⟩ := List.mem_map.mp hpath
    obtain ⟨k, rest, hcons, _⟩ := leavesOf_head hw
    simp [hcons]
  rw [hfilter, List.map_map]
  calc (leavesOf entries).map _ = (leavesOf entries).map id := by
        apply List.map_congr_left
        intro w hw
        simp [hdata w hw]
    _ = leavesOf entries := List.map_id _

theorem parsedSetData_data {parsed : ParsedSetData} (hd : (dictionary entries).Distinct)
    (h : parsedSetData (.dictionary entries) = .ok parsed) :
    parsed.patch = false ∧ parsed.data.slot = putAll (leavesOf entries) ObjectValue.empty.slot := by
  rw [Distinct] at hd
  rw [parsedSetData, parseData] at h
  by_cases he : entries.isEmpty = true
  · rw [List.isEmpty_iff] at he
    subst he
    cases h
    exact ⟨rfl, rfl⟩
  · simp only [he] at h
    cases hr : parseEntries .set [] entries ObjectValue.empty with
    | error e => rw [hr] at h; cases h
    | ok r =>
      rw [hr] at h
      cases h
      exact ⟨rfl, parseEntries_set entries [] hd.1 hd.2 (fun _ _ => rfl) hr⟩

/-- What a merging write makes of a document: its leaves put into the data. -/
theorem merge_data (hd : (dictionary entries).Distinct)
    (h : setData key (.dictionary entries) true = .ok batch.mutations)
    (maybeDoc : Option MaybeDocument) :
    ∃ data : ObjectValue, data.slot = putAll (leavesOf entries) (dataOf maybeDoc).object ∧
      batch.applyToLocalDocument key maybeDoc =
        some (.document data (getPostMutationVersion maybeDoc) .localMutations) := by
  obtain ⟨parsed, hp, hm⟩ := setData_mutation h
  simp only [if_true] at hp
  refine ⟨patchDocument parsed.data parsed.fieldMask maybeDoc, ?_, ?_⟩
  · rw [patchDocument_slot, patchEdits_leaves hd hp]
  · unfold MutationBatch.applyToLocalDocument
    simp [hm, ParsedSetData.toMutations, (parsedMergeData_leaves hd hp).1, Mutation.applyToLocalView,
      Precondition.isValidFor, MutationType.localView]

/-- What a write that does not merge makes of it. -/
theorem set_data (hd : (dictionary entries).Distinct)
    (h : setData key (.dictionary entries) false = .ok batch.mutations)
    (maybeDoc : Option MaybeDocument) :
    ∃ data : ObjectValue, data.slot = putAll (leavesOf entries) ObjectValue.empty.slot ∧
      batch.applyToLocalDocument key maybeDoc =
        some (.document data (getPostMutationVersion maybeDoc) .localMutations) := by
  obtain ⟨parsed, hp, hm⟩ := setData_mutation h
  simp only [Bool.false_eq_true, if_false] at hp
  obtain ⟨hpatch, hdata⟩ := parsedSetData_data hd hp
  refine ⟨parsed.data, hdata, ?_⟩
  unfold MutationBatch.applyToLocalDocument
  simp [hm, ParsedSetData.toMutations, hpatch, Mutation.applyToLocalView, Precondition.isValidFor,
    MutationType.localView]

/-- A merging write gives every leaf it names what it says there, leaves every
path beside its leaves alone, and does so in whatever order the entries come, at
any depth, and however often it is applied. -/
theorem merge_writes_leaves (hd : (dictionary entries).Distinct)
    (h : setData key (.dictionary entries) true = .ok batch.mutations) (maybeDoc : Option MaybeDocument) :
    ∃ data : ObjectValue,
      batch.applyToLocalDocument key maybeDoc =
        some (.document data (getPostMutationVersion maybeDoc) .localMutations) ∧
      (∀ w ∈ leavesOf entries, data.get w.1 = w.2) ∧
      (∀ path, (∀ w ∈ leavesOf entries, Beside w.1 path) → data.get path = Slot.get path (dataOf maybeDoc).object) ∧
      batch.applyToLocalDocument key (batch.applyToLocalDocument key maybeDoc) =
        batch.applyToLocalDocument key maybeDoc ∧
      ∀ (entries' : List (String × UserData)) (batch' : MutationBatch), (dictionary entries').Distinct →
        (leavesOf entries).Perm (leavesOf entries') → setData key (.dictionary entries') true =
          .ok batch'.mutations →
        batch'.applyToLocalDocument key maybeDoc = batch.applyToLocalDocument key maybeDoc := by
  have hdist := hd
  rw [Distinct] at hdist
  have hapart := apart_leavesOf entries hdist.1 hdist.2
  obtain ⟨data, hdata, hlocal⟩ := merge_data hd h maybeDoc
  refine ⟨data, hlocal, ?_, ?_, ?_, ?_⟩
  · intro w hw
    rw [ObjectValue.get_eq, hdata, get_putAll hapart (o := w.2) hw]
  · intro path hpath
    rw [ObjectValue.get_eq, hdata, get_putAll_beside hpath]
  · obtain ⟨parsed, _, hm⟩ := setData_mutation h
    have hu : batch.Unconditional := by
      unfold MutationBatch.Unconditional
      rw [hm]
      unfold ParsedSetData.toMutations
      split <;> simp
    simp only [MutationBatch.applyToLocalDocument_eq _ _ hu]
    exact act_absorbing.logs.idem _ _
  · intro entries' batch' hd' hleaves h'
    obtain ⟨data', hdata', hlocal'⟩ := merge_data hd' h' maybeDoc
    rw [hlocal, hlocal']
    rw [← putAll_perm hapart hleaves, ← hdata] at hdata'
    simp only [Option.some.injEq, Node.map.injEq] at hdata'
    rw [hdata']

def annEmail : List (String × UserData) :=
  [("email", .value (.string "ann@example.com")), ("info", .dictionary [("old", .delete)])]

def annEmailBatch : MutationBatch where
  batchId := 1
  mutations :=
    [⟨["users", "ann"], .none,
      .patch (((ObjectValue.empty.set "email" [] (.leaf (.string "ann@example.com")))).set "info" []
        (.map ObjectValue.empty))
        [["email"], ["info", "old"]]⟩]
  nonempty := by simp

theorem merge_writes_leaves_ann : ∃ data : ObjectValue,
    annEmailBatch.applyToLocalDocument ["users", "ann"] none = some (.document data 0 .localMutations) ∧
      data.get ["email"] = some (.leaf (.string "ann@example.com")) ∧ data.get ["info", "old"] = none := by
  have hd : (UserData.dictionary annEmail).Distinct := by simp [annEmail, Distinct, DistinctAll]
  have h : setData ["users", "ann"] (.dictionary annEmail) true = .ok annEmailBatch.mutations := rfl
  obtain ⟨data, hlocal, hleaves, _⟩ := merge_writes_leaves hd h none
  exact ⟨data, hlocal, hleaves (["email"], _) (by simp [annEmail, leavesOf, leaves]),
    hleaves (["info", "old"], _) (by simp [annEmail, leavesOf, leaves])⟩

/-- A write that is accepted without a merge is accepted with one, and leaves
what the merge makes of a document that is not there. -/
theorem set_merges_into_nothing (hd : (dictionary entries).Distinct)
    (h : setData key (.dictionary entries) false = .ok batch.mutations) :
    ∃ merging : MutationBatch, setData key (.dictionary entries) true = .ok merging.mutations ∧
      ∀ maybeDoc, dataOf (batch.applyToLocalDocument key maybeDoc) =
        dataOf (merging.applyToLocalDocument key none) := by
  obtain ⟨parsed, hp, _⟩ := setData_mutation h
  simp only [Bool.false_eq_true, if_false] at hp
  have hvalid := (parsedSetData_ok_iff entries).mp ⟨parsed, hp⟩
  obtain ⟨merged, hmerged⟩ := (parsedMergeData_ok_iff entries).mpr hvalid.mergeSet
  have hne : merged.toMutations key .none ≠ [] := by
    unfold ParsedSetData.toMutations
    split <;> simp
  let merging : MutationBatch := ⟨batch.batchId, merged.toMutations key .none, hne⟩
  have hmerge : setData key (.dictionary entries) true = .ok merging.mutations := by
    simp [setData, hmerged, Except.map, merging]
  refine ⟨merging, hmerge, fun maybeDoc => ?_⟩
  obtain ⟨data, hdata, hlocal⟩ := set_data hd h maybeDoc
  obtain ⟨data', hdata', hlocal'⟩ := merge_data hd hmerge none
  rw [hlocal, hlocal']
  exact hdata.trans hdata'.symm

end

def annUsernameBatch : MutationBatch where
  batchId := 2
  mutations := [⟨["users", "ann"], .none, .set (ObjectValue.empty.set "username" [] (.leaf (.string "ann")))⟩]
  nonempty := by simp

theorem set_merges_into_nothing_ann : ∃ merging : MutationBatch,
    setData ["users", "ann"] (.dictionary [("username", .value (.string "ann"))]) true = .ok merging.mutations ∧
      ∀ maybeDoc, dataOf (annUsernameBatch.applyToLocalDocument ["users", "ann"] maybeDoc) =
        dataOf (merging.applyToLocalDocument ["users", "ann"] none) := by
  have hd : (UserData.dictionary [("username", .value (.string "ann"))]).Distinct := by
    simp [UserData.Distinct, UserData.DistinctAll]
  have h : setData ["users", "ann"] (.dictionary [("username", .value (.string "ann"))]) false =
      .ok annUsernameBatch.mutations := rfl
  exact set_merges_into_nothing hd h

/-! ## Flat data -/

/-- A document of the program, as the data of a document here. -/
def ObjectValue.ofDocument (d : Document) : ObjectValue := fun key => (d key).map .leaf

def flat (data : List (String × Value)) : UserData := .dictionary (data.map fun e => (e.1, .value e.2))

section
variable {data : List (String × Value)}

theorem flat_distinct (hk : (data.map Prod.fst).Nodup) : (flat data).Distinct := by
  unfold flat
  rw [UserData.Distinct, UserData.distinctAll_iff]
  constructor
  · simpa [Function.comp_def] using hk
  · intro e he
    obtain ⟨w, _, rfl⟩ := List.mem_map.mp he
    trivial

theorem leavesOf_flat :
    UserData.leavesOf (data.map fun e => (e.1, .value e.2)) = data.map fun e => ([e.1], some (.leaf e.2)) := by
  induction data with
  | nil => rfl
  | cons e data ih =>
    rw [List.map_cons, UserData.leavesOf, ih]
    simp [UserData.leaves]

theorem putAll_flat (hk : (data.map Prod.fst).Nodup) (d : Document) :
    putAll (data.map fun e => ([e.1], some (.leaf e.2))) (ObjectValue.ofDocument d).slot =
      (ObjectValue.ofDocument (d.merge (Dict.ofList data))).slot := by
  induction data generalizing d with
  | nil => rfl
  | cons e data ih =>
    obtain ⟨key, v⟩ := e
    rw [List.map_cons, List.nodup_cons] at hk
    have hput : Slot.put [key] (some (.leaf v)) (ObjectValue.ofDocument d).slot =
        (ObjectValue.ofDocument (d.merge (Dict.ofList [(key, v)]))).slot := by
      simp only [Slot.put, Slot.entries_map, ObjectValue.slot, Option.isSome_some, Bool.true_or, if_true]
      congr 2
      funext k
      unfold ObjectValue.ofDocument
      rw [Dict.merge_apply, Dict.ofList_cons]
      by_cases h : k = key
      · simp [h]
      · simp [h, Dict.ofList]
    rw [List.map_cons, putAll_cons, hput, ih hk.2, Dict.merge_ofList_cons hk.1]

/-- On flat data the SDK writes what the services are said to have written. -/
theorem setData_refines_written (hk : (data.map Prod.fst).Nodup) {fb : Firebase} {key : DocumentKey} {merge : Bool}
    {batch : MutationBatch} (h : setData key (flat data) merge = .ok batch.mutations)
    {maybeDoc : Option MaybeDocument}
    (hdoc : dataOf maybeDoc = (fb.documents key).map fun d => .map (ObjectValue.ofDocument d)) :
    dataOf (batch.applyToLocalDocument key maybeDoc) =
      (ObjectValue.ofDocument (fb.written key (Dict.ofList data) merge)).slot := by
  have hempty : ObjectValue.empty = ObjectValue.ofDocument Dict.empty := rfl
  cases merge with
  | true =>
    obtain ⟨new, hnew, hlocal⟩ := merge_data (flat_distinct hk) h maybeDoc
    rw [hlocal, dataOf, hnew, leavesOf_flat, hdoc, Firebase.written_merge]
    cases fb.documents key with
    | none => exact putAll_flat hk Dict.empty
    | some d => exact putAll_flat hk d
  | false =>
    obtain ⟨new, hnew, hlocal⟩ := set_data (flat_distinct hk) h maybeDoc
    rw [hlocal, dataOf, hnew, leavesOf_flat, hempty, putAll_flat hk, Firebase.written_replace]
    congr 3
    funext k
    simp [Dict.merge_apply, Dict.empty]

end

theorem setData_refines_written_ann :
    dataOf (annUsernameBatch.applyToLocalDocument ["users", "ann"] none) =
      (ObjectValue.ofDocument
        (Firebase.start.written ["users", "ann"] (Dict.ofList [("username", .string "ann")]) false)).slot := by
  have h : setData ["users", "ann"] (flat [("username", .string "ann")]) false =
    .ok annUsernameBatch.mutations := rfl
  exact setData_refines_written (by decide) h rfl

end Firestore

end ToDoList
