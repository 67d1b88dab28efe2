import ToDoList.Firestore.UserData

/-!
# Mutations

A mutation sets, patches or deletes one document. It is applied to the local
view of the document while it is pending, and to the cached document once the
backend has acknowledged it. On the data a mutation is a list of edits.
-/

namespace ToDoList

namespace Firestore

open Nested

abbrev DocumentKey := Segments

/-- `SnapshotVersion::None()` is 0. -/
abbrev SnapshotVersion := Nat

/-! ## Documents -/

inductive DocumentState
  | localMutations
  | committedMutations
  | synced
  deriving DecidableEq

/-- A document is always kept under its key. -/
inductive MaybeDocument
  | document (data : ObjectValue) (version : SnapshotVersion) (state : DocumentState)
  | noDocument (version : SnapshotVersion) (hasCommittedMutations : Bool)
  | unknownDocument (version : SnapshotVersion)

namespace MaybeDocument

def version : MaybeDocument → SnapshotVersion
  | document _ version _ => version
  | noDocument version _ => version
  | unknownDocument version => version

def hasPendingWrites : MaybeDocument → Bool
  | document _ _ state => state ≠ .synced
  | noDocument _ hasCommittedMutations => hasCommittedMutations
  | unknownDocument _ => true

end MaybeDocument

/-- The data of a document, if there is one. -/
def dataOf : Option MaybeDocument → Slot String Value
  | some (.document data _ _) => data.slot
  | _ => none

/-! ## Preconditions -/

inductive Precondition
  | none
  | existence (exists_ : Bool)
  | updateTime (version : SnapshotVersion)
  deriving DecidableEq

def Precondition.isValidFor (maybeDoc : Option MaybeDocument) : Precondition → Bool
  | .updateTime time =>
    match maybeDoc with
    | some (.document _ version _) => version = time
    | _ => false
  | .existence exists_ =>
    exists_ = match maybeDoc with
      | some (.document _ _ _) => true
      | _ => false
  | .none => true

/-! ## Mutations -/

inductive MutationType
  | set (value : ObjectValue)
  | patch (value : ObjectValue) (mask : FieldMask)
  | delete

structure Mutation where
  key : DocumentKey
  precondition : Precondition
  type : MutationType

structure MutationResult where
  version : SnapshotVersion

def getPostMutationVersion : Option MaybeDocument → SnapshotVersion
  | some (.document _ version _) => version
  | _ => 0

def patchPath (value obj : ObjectValue) : FieldPath → ObjectValue
  | [] => obj
  | name :: rest =>
    match value.get (name :: rest) with
    | none => obj.delete name rest
    | some newValue => obj.set name rest newValue

def patchObject (value : ObjectValue) (mask : FieldMask) (obj : ObjectValue) : ObjectValue :=
  mask.foldl (patchPath value) obj

def patchDocument (value : ObjectValue) (mask : FieldMask) : Option MaybeDocument → ObjectValue
  | some (.document data _ _) => patchObject value mask data
  | _ => patchObject value mask ObjectValue.empty

/-- What is left of `ApplyToLocalView` once the precondition holds. -/
def MutationType.localView (maybeDoc : Option MaybeDocument) : MutationType → MaybeDocument
  | .set value => .document value (getPostMutationVersion maybeDoc) .localMutations
  | .patch value mask => .document (patchDocument value mask maybeDoc)
    (getPostMutationVersion maybeDoc) .localMutations
  | .delete => .noDocument 0 false

def Mutation.applyToLocalView (mutation : Mutation) (maybeDoc : Option MaybeDocument) : Option MaybeDocument :=
  if mutation.precondition.isValidFor maybeDoc then some (mutation.type.localView maybeDoc) else maybeDoc

def Mutation.applyToRemoteDocument (mutation : Mutation) (maybeDoc : Option MaybeDocument)
    (mutationResult : MutationResult) : MaybeDocument :=
  match mutation.type with
  | .set value => .document value mutationResult.version .committedMutations
  | .patch value mask =>
    -- The backend did accept the mutation: the cache does not have the version it was applied to.
    if !mutation.precondition.isValidFor maybeDoc then .unknownDocument mutationResult.version
    else .document (patchDocument value mask maybeDoc) mutationResult.version .committedMutations
  | .delete => .noDocument mutationResult.version true

/-! ## Writing data -/

def ParsedSetData.toMutations (parsed : ParsedSetData) (key : DocumentKey) (precondition : Precondition) :
    List Mutation :=
  if parsed.patch then [⟨key, precondition, .patch parsed.data parsed.fieldMask⟩]
  else [⟨key, precondition, .set parsed.data⟩]

/-- The mutations that `setData` of a document reference writes. -/
def setData (key : DocumentKey) (documentData : UserData) (merge : Bool) : Except String (List Mutation) :=
  (if merge then documentData.parsedMergeData else documentData.parsedSetData).map fun parsed =>
    parsed.toMutations key .none

/-! ## Mutations as edits -/

def patchEdits (value : ObjectValue) (mask : FieldMask) : List (FieldPath × Slot String Value) :=
  (mask.filter fun path => path ≠ []).map fun path => (path, value.get path)

def MutationType.edits : MutationType → List (Edit String Value)
  | .set value => [.put [] value.slot]
  | .patch value mask => .object :: (patchEdits value mask).map fun w => .put w.1 w.2
  | .delete => [.put [] none]

section
variable (value : ObjectValue) (mask : FieldMask) (obj : ObjectValue) (maybeDoc : Option MaybeDocument)

theorem patchPath_slot (path : FieldPath) (hp : path ≠ []) :
    (patchPath value obj path).slot = Slot.put path (value.get path) obj.slot := by
  cases path with
  | nil => exact absurd rfl hp
  | cons name rest =>
    simp only [patchPath]
    cases value.get (name :: rest) with
    | none => exact ObjectValue.delete_eq obj name rest
    | some v => exact ObjectValue.set_eq obj name rest v

theorem patchObject_slot : (patchObject value mask obj).slot = putAll (patchEdits value mask) obj.slot := by
  unfold patchObject
  induction mask generalizing obj with
  | nil => rfl
  | cons path mask ih =>
    rw [List.foldl_cons, ih]
    by_cases hp : path = []
    · subst hp
      simp [patchEdits, patchPath]
    · have hcons : patchEdits value (path :: mask) = (path, value.get path) :: patchEdits value mask := by
        simp [patchEdits, hp]
      rw [hcons, putAll_cons, patchPath_slot value obj path hp]

theorem patchDocument_slot :
    (patchDocument value mask maybeDoc).slot = putAll (patchEdits value mask) (dataOf maybeDoc).object := by
  unfold patchDocument
  split
  · exact patchObject_slot value mask _
  · rename_i h
    have hnone : dataOf maybeDoc = none := by
      unfold dataOf
      split
      · exact absurd rfl (h _ _ _)
      · rfl
    rw [patchObject_slot, hnone]
    rfl

theorem replay_puts (edits : List (FieldPath × Slot String Value)) (c : Slot String Value) :
    Async.replay Edit.apply (edits.map fun w => .put w.1 w.2) c = putAll edits c := by
  induction edits generalizing c with
  | nil => rfl
  | cons w edits ih => simpa [Edit.apply] using ih _

theorem localView_data (type : MutationType) :
    dataOf (some (type.localView maybeDoc)) = Async.replay Edit.apply type.edits (dataOf maybeDoc) := by
  cases type with
  | set value => rfl
  | delete => rfl
  | patch value mask =>
    unfold MutationType.edits
    rw [Async.replay_cons, replay_puts]
    exact patchDocument_slot value mask maybeDoc

end

/-! ## Unconditional mutations -/

theorem postVersion_localView (type : MutationType) (maybeDoc : Option MaybeDocument) :
    getPostMutationVersion (some (type.localView maybeDoc)) =
      if type matches .delete then 0 else getPostMutationVersion maybeDoc := by
  cases type with
  | set value => rfl
  | patch value mask => rfl
  | delete => rfl

theorem localView_ext {type : MutationType} {d e : Option MaybeDocument}
    (hdata : dataOf (some (type.localView d)) = dataOf (some (type.localView e)))
    (hversion :
      getPostMutationVersion (some (type.localView d)) = getPostMutationVersion (some (type.localView e))) :
    type.localView d = type.localView e := by
  cases type with
  | delete => rfl
  | set value =>
    simp only [MutationType.localView, getPostMutationVersion] at hversion ⊢
    rw [hversion]
  | patch value mask =>
    simp only [MutationType.localView, getPostMutationVersion, dataOf, Option.some.injEq,
      Node.map.injEq] at hdata hversion ⊢
    rw [hdata, hversion]

/-- An unconditional mutation, as it acts on what the local view shows. -/
def MutationType.act (type : MutationType) (maybeDoc : Option MaybeDocument) : Option MaybeDocument :=
  some (type.localView maybeDoc)

theorem act_absorbing : Async.Absorbing MutationType.act where
  idem := by
    intro type d
    unfold MutationType.act
    congr 1
    apply localView_ext
    · simp only [localView_data]
      rw [Edit.absorbing.logs.idem]
    · simp only [postVersion_localView]
      split <;> rfl
  absorb := by
    intro type other d
    unfold MutationType.act
    congr 1
    apply localView_ext
    · simp only [localView_data]
      exact Edit.absorbing.logs.absorb _ _ _
    · simp only [postVersion_localView]
      split <;> rfl

end Firestore

end ToDoList
