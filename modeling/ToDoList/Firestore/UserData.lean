import ToDoList.Firestore.Paths
import ToDoList.Nested

/-!
# Field values and the data of `setData`

`ObjectValue` is what a document holds. The dictionary that `setData` is given
is parsed to an object value and, for a merge, the mask of the fields it names.
-/

namespace ToDoList

namespace Firestore

open Nested

abbrev FieldValue := Node String Value

abbrev ObjectValue := String → Option FieldValue

/-! ## model/field_value.cc -/

namespace ObjectValue

def empty : ObjectValue := fun _ => none

def setChild (obj : ObjectValue) (childName : String) (value : FieldValue) : ObjectValue :=
  Function.update obj childName (some value)

def child (obj : ObjectValue) (childName : String) : ObjectValue :=
  match obj childName with
  | some (.map entries) => entries
  | _ => empty

/-- The path is `childName` and then `rest`: it is never empty. -/
def set (obj : ObjectValue) (childName : String) : FieldPath → FieldValue → ObjectValue
  | [], value => obj.setChild childName value
  | next :: rest, value => obj.setChild childName (.map (set (obj.child childName) next rest value))

def delete (obj : ObjectValue) (childName : String) : FieldPath → ObjectValue
  | [] => Function.update obj childName none
  | next :: rest =>
    match obj childName with
    | some (.map entries) => obj.setChild childName (.map (delete entries next rest))
    | _ => obj

end ObjectValue

def FieldValue.get : FieldValue → FieldPath → Option FieldValue
  | current, [] => some current
  | .leaf _, _ :: _ => none
  | .map entries, name :: path =>
    match entries name with
    | none => none
    | some value => get value path

def ObjectValue.get (obj : ObjectValue) (path : FieldPath) : Option FieldValue := FieldValue.get (.map obj) path

abbrev ObjectValue.slot (obj : ObjectValue) : Slot String Value := some (.map obj)

theorem FieldValue.get_eq (value : FieldValue) (path : FieldPath) :
    value.get path = Slot.get path (some value) := by
  induction path generalizing value with
  | nil => cases value <;> rfl
  | cons name path ih =>
    cases value with
    | leaf v => simpa [FieldValue.get, Slot.entries] using (Slot.get_none path).symm
    | map entries =>
      unfold FieldValue.get
      rw [Slot.get_cons, Slot.entries_map]
      cases h : entries name with
      | none => simp [Slot.get_none]
      | some v => simp [ih]

namespace ObjectValue

theorem get_eq (obj : ObjectValue) (path : FieldPath) : obj.get path = Slot.get path obj.slot :=
  FieldValue.get_eq _ path

theorem child_eq (obj : ObjectValue) (childName : String) : obj.child childName = Slot.entries (obj childName) := by
  unfold child
  split
  · rename_i h; rw [h]; rfl
  · rename_i h
    cases ho : obj childName with
    | none => rfl
    | some n =>
      cases n with
      | leaf v => rfl
      | map entries => exact absurd ho (h entries)

theorem set_eq (obj : ObjectValue) (childName : String) (rest : FieldPath) (value : FieldValue) :
    (obj.set childName rest value).slot = Slot.put (childName :: rest) (some value) obj.slot := by
  induction rest generalizing obj childName with
  | nil => simp [set, setChild, Slot.put]
  | cons next rest ih =>
    have h := ih (obj.child childName) next
    simp only [set, setChild, slot] at h ⊢
    rw [h, child_eq]
    simp [Slot.put]

theorem delete_eq (obj : ObjectValue) (childName : String) (rest : FieldPath) :
    (obj.delete childName rest).slot = Slot.put (childName :: rest) none obj.slot := by
  induction rest generalizing obj childName with
  | nil => simp [delete, Slot.put]
  | cons next rest ih =>
    simp only [delete]
    split
    · rename_i entries h
      have hd := ih entries next
      simp only [setChild, slot] at hd ⊢
      rw [hd]
      simp [Slot.put, h]
    · rename_i h
      have hnot : Slot.isMap (obj childName) = false := by
        cases ho : obj childName with
        | none => rfl
        | some n =>
          cases n with
          | leaf v => rfl
          | map entries => exact absurd ho (h entries)
      simp [Slot.put, hnot]

end ObjectValue

/-! ## Source/API/FSTUserDataConverter.mm and core/user_data.cc -/

/-- What `setData` may be given: `value` is any value that is parsed on its own,
`delete` is `FieldValue.delete()`. -/
inductive UserData
  | value (v : Value)
  | dictionary (entries : List (String × UserData))
  | delete

inductive UserDataSource
  | set
  | mergeSet
  deriving DecidableEq

/-- A set of paths; no modelled function reads their order. -/
abbrev FieldMask := List FieldPath

namespace UserData

def fieldDescription (path : FieldPath) : String :=
  if path = [] then "" else " (found in field " ++ FieldPath.canonicalString path ++ ")"

def reservedDesignator : List Char := ['_', '_']

/-- `path` ends with `segment`. -/
def validatePathSegment (path : FieldPath) (segment : String) : Except String Unit :=
  if segment = "" then .error ("Invalid data. Document fields must not be empty" ++ fieldDescription path)
  else if reservedDesignator <+: segment.toList ∧ reservedDesignator <:+ segment.toList then
    .error ("Invalid data. Document fields cannot begin and end with \"__\"" ++ fieldDescription path)
  else .ok ()

/-- A deletion adds nothing to the object. -/
def withParsed (result : ObjectValue) (key : String) : Option FieldValue → ObjectValue
  | some parsedValue => result.set key [] parsedValue
  | none => result

mutual

def parseData (source : UserDataSource) (path : FieldPath) :
    UserData → Except String (Option FieldValue × FieldMask)
  | .value v => .ok (some (.leaf v), [path])
  | .delete =>
    match source with
    | .mergeSet => .ok (none, [path])
    | .set => .error ("FieldValue.delete() can only be used with updateData() and setData() with merge:true" ++
        fieldDescription path)
  | .dictionary entries =>
    if entries.isEmpty then .ok (some (.map ObjectValue.empty), if path = [] then [] else [path])
    else do
      let (result, mask) ← parseEntries source path entries ObjectValue.empty
      .ok (some (.map result), mask)

def parseEntries (source : UserDataSource) (path : FieldPath) :
    List (String × UserData) → ObjectValue → Except String (ObjectValue × FieldMask)
  | [], result => .ok (result, [])
  | (key, input) :: entries, result => do
    validatePathSegment (path ++ [key]) key
    let (parsedValue, mask) ← parseData source (path ++ [key]) input
    let (result, rest) ← parseEntries source path entries (withParsed result key parsedValue)
    .ok (result, mask ++ rest)

end

/-! ## The leaves of a dictionary -/

mutual

/-- Each leaf with the path to it: a value, an empty dictionary, or a deletion. -/
def leaves : UserData → List (FieldPath × Slot String Value)
  | .value v => [([], some (.leaf v))]
  | .delete => [([], none)]
  | .dictionary entries => if entries.isEmpty then [([], some (.map ObjectValue.empty))] else leavesOf entries

def leavesOf : List (String × UserData) → List (FieldPath × Slot String Value)
  | [] => []
  | (key, input) :: entries => input.leaves.map (fun w => (key :: w.1, w.2)) ++ leavesOf entries

end

mutual

/-- No dictionary has two values under one key. -/
def Distinct : UserData → Prop
  | .dictionary entries => (entries.map Prod.fst).Nodup ∧ DistinctAll entries
  | _ => True

def DistinctAll : List (String × UserData) → Prop
  | [] => True
  | (_, input) :: entries => input.Distinct ∧ DistinctAll entries

end

theorem leavesOf_head {entries : List (String × UserData)} {w : FieldPath × Slot String Value}
    (h : w ∈ leavesOf entries) : ∃ key rest, w.1 = key :: rest ∧ key ∈ entries.map Prod.fst := by
  induction entries with
  | nil => simp [leavesOf] at h
  | cons e entries ih =>
    obtain ⟨key, input⟩ := e
    rw [leavesOf, List.mem_append, List.mem_map] at h
    rcases h with ⟨v, _, rfl⟩ | h
    · exact ⟨key, v.1, rfl, by simp⟩
    · obtain ⟨k, rest, hw, hk⟩ := ih h
      exact ⟨k, rest, hw, by simp [hk]⟩

theorem distinctAll_iff {entries : List (String × UserData)} : DistinctAll entries ↔
    ∀ e ∈ entries, e.2.Distinct := by
  induction entries with
  | nil => simp [DistinctAll]
  | cons e entries ih => simp [DistinctAll, ih]

mutual

theorem apart_leaves : ∀ data : UserData, data.Distinct → Apart data.leaves
  | .value v, _ => by simp [leaves, Apart]
  | .delete, _ => by simp [leaves, Apart]
  | .dictionary entries, h => by
    rw [Distinct] at h
    rw [leaves]
    split
    · simp [Apart]
    · exact apart_leavesOf entries h.1 h.2

theorem apart_leavesOf : ∀ entries : List (String × UserData), (entries.map Prod.fst).Nodup → DistinctAll entries →
    Apart (leavesOf entries)
  | [], _, _ => by simp [leavesOf, Apart]
  | (key, input) :: entries, hk, h => by
    rw [DistinctAll] at h
    rw [List.map_cons, List.nodup_cons] at hk
    have hi := apart_leaves input h.1
    have he := apart_leavesOf entries hk.2 h.2
    unfold Apart at hi he ⊢
    rw [leavesOf, List.pairwise_append]
    refine ⟨?_, he, ?_⟩
    · rw [List.pairwise_map]
      exact hi.imp fun hb => hb.cons key
    · intro w hw v hv
      obtain ⟨u, _, rfl⟩ := List.mem_map.mp hw
      obtain ⟨k, rest, hv, hkey⟩ := leavesOf_head hv
      rw [hv]
      apply Beside.of_head
      intro heq
      subst heq
      exact hk.1 hkey

end

/-! ## What is parsed -/

section
variable {source : UserDataSource} {path : FieldPath}

theorem withParsed_eq {obj : ObjectValue} {key : String} (parsed : Option FieldValue) (h : obj key = none) :
    withParsed obj key parsed = Function.update obj key parsed := by
  cases parsed with
  | none =>
    rw [← h, Function.update_eq_self]
    simp [withParsed, h]
  | some v => rfl

theorem withParsed_fresh {obj : ObjectValue} {key : String} (parsed : Option FieldValue) {keys : List String}
    (hkey : key ∉ keys) (h : ∀ k ∈ key :: keys, obj k = none) : ∀ k ∈ keys, withParsed obj key parsed k = none := by
  intro k hk
  have hkk : k ≠ key := by
    intro heq
    subst heq
    exact hkey hk
  rw [withParsed_eq parsed (h key (by simp)), Function.update_of_ne hkk]
  exact h k (by simp [hk])

theorem parseEntries_cons {key : String} {input : UserData} {entries : List (String × UserData)}
    {obj result : ObjectValue} {mask : FieldMask}
    (h : parseEntries source path ((key, input) :: entries) obj = .ok (result, mask)) :
    ∃ parsed named rest, validatePathSegment (path ++ [key]) key = .ok () ∧
      parseData source (path ++ [key]) input = .ok (parsed, named) ∧
      parseEntries source path entries (withParsed obj key parsed) = .ok (result, rest) ∧
      mask = named ++ rest := by
  rw [parseEntries] at h
  cases hv : validatePathSegment (path ++ [key]) key with
  | error e => rw [hv] at h; cases h
  | ok u =>
    cases hd : parseData source (path ++ [key]) input with
    | error e => rw [hv, hd] at h; cases h
    | ok parsed =>
      obtain ⟨parsed, named⟩ := parsed
      rw [hv, hd] at h
      cases hr : parseEntries source path entries (withParsed obj key parsed) with
      | error e => simp only [bind, Except.bind, hr] at h; cases h
      | ok r =>
        simp only [bind, Except.bind, hr, Except.ok.injEq, Prod.mk.injEq] at h
        obtain ⟨rfl, rfl⟩ := h
        exact ⟨parsed, named, r.2, rfl, rfl, hr, rfl⟩

mutual

/-- The mask names the leaves, and the parsed value has at each what the leaf says. -/
theorem parseData_leaves : ∀ (data : UserData) (path : FieldPath) {parsed : Option FieldValue} {mask : FieldMask},
    path ≠ [] → data.Distinct → parseData source path data = .ok (parsed, mask) →
    mask = data.leaves.map (fun w => path ++ w.1) ∧ ∀ w ∈ data.leaves, Slot.get w.1 parsed = w.2
  | .value v, path, parsed, mask, _, _, h => by
    rw [parseData] at h
    cases h
    simp [leaves]
  | .delete, path, parsed, mask, _, _, h => by
    cases source with
    | set => rw [parseData] at h; cases h
    | mergeSet => rw [parseData] at h; cases h; simp [leaves]
  | .dictionary entries, path, parsed, mask, hp, hd, h => by
    rw [Distinct] at hd
    rw [parseData] at h
    rw [leaves]
    by_cases he : entries.isEmpty = true
    · simp only [he, if_true, hp, if_false] at h ⊢
      cases h
      simp
    · simp only [he] at h ⊢
      cases hr : parseEntries source path entries ObjectValue.empty with
      | error e => rw [hr] at h; cases h
      | ok r =>
        rw [hr] at h
        cases h
        obtain ⟨hm, hl, _⟩ := parseEntries_leaves entries path hd.1 hd.2 (fun _ _ => rfl) hr
        exact ⟨hm, hl⟩

theorem parseEntries_leaves : ∀ (entries : List (String × UserData)) (path : FieldPath) {obj result : ObjectValue}
    {mask : FieldMask}, (entries.map Prod.fst).Nodup → DistinctAll entries →
    (∀ key ∈ entries.map Prod.fst, obj key = none) → parseEntries source path entries obj = .ok (result, mask) →
    mask = (leavesOf entries).map (fun w => path ++ w.1) ∧
      (∀ w ∈ leavesOf entries, Slot.get w.1 result.slot = w.2) ∧
      ∀ key, key ∉ entries.map Prod.fst → result key = obj key
  | [], path, obj, result, mask, _, _, _, h => by
    rw [parseEntries] at h
    cases h
    simp [leavesOf]
  | (key, input) :: entries, path, obj, result, mask, hk, hd, hfresh, h => by
    rw [DistinctAll] at hd
    rw [List.map_cons, List.nodup_cons] at hk
    obtain ⟨parsed, named, rest, _, hdata, hrest, rfl⟩ := parseEntries_cons h
    obtain ⟨hnamed, hvalue⟩ := parseData_leaves input (path ++ [key]) (by simp) hd.1 hdata
    have hparsed := withParsed_eq parsed (hfresh key (by simp))
    have hfresh' := withParsed_fresh parsed hk.1 hfresh
    obtain ⟨hm, hl, hframe⟩ := parseEntries_leaves entries path hk.2 hd.2 hfresh' hrest
    refine ⟨?_, ?_, ?_⟩
    · simp [leavesOf, hnamed, hm]
    · intro w hw
      rw [leavesOf, List.mem_append, List.mem_map] at hw
      rcases hw with ⟨v, hv, rfl⟩ | hw
      · show Slot.get v.1 (result key) = v.2
        rw [hframe key hk.1, hparsed, Function.update_self]
        exact hvalue v hv
      · exact hl w hw
    · intro k hk'
      rw [List.map_cons, List.mem_cons, not_or] at hk'
      rw [hframe k hk'.2, hparsed, Function.update_of_ne hk'.1]

end

end

/-! ## What is refused -/

def ValidKey (key : String) : Prop :=
  key ≠ "" ∧ ¬ (reservedDesignator <+: key.toList ∧ reservedDesignator <:+ key.toList)

theorem validatePathSegment_iff {path : FieldPath} {key : String} :
    validatePathSegment path key = .ok () ↔ ValidKey key := by
  unfold validatePathSegment ValidKey
  by_cases he : key = ""
  · simp [he]
  · by_cases hr : reservedDesignator <+: key.toList ∧ reservedDesignator <:+ key.toList
    · simp [he, hr]
    · simp [he, hr]

mutual

/-- Every key is valid, and deletions stand only in what is merged. -/
def Valid (source : UserDataSource) : UserData → Prop
  | .value _ => True
  | .delete => source = .mergeSet
  | .dictionary entries => ValidAll source entries

def ValidAll (source : UserDataSource) : List (String × UserData) → Prop
  | [] => True
  | (key, input) :: entries => ValidKey key ∧ input.Valid source ∧ ValidAll source entries

end

mutual

theorem parseData_ok_iff {source : UserDataSource} : ∀ (data : UserData) (path : FieldPath),
    (∃ r, parseData source path data = .ok r) ↔ data.Valid source
  | .value v, path => by simp [parseData, Valid]
  | .delete, path => by cases source <;> simp [parseData, Valid]
  | .dictionary entries, path => by
    rw [Valid, parseData, ← parseEntries_ok_iff entries path ObjectValue.empty]
    by_cases he : entries.isEmpty = true
    · rw [List.isEmpty_iff] at he
      subst he
      simp [parseEntries]
    · simp only [he]
      cases parseEntries source path entries ObjectValue.empty with
      | error e => simp [bind, Except.bind]
      | ok r => simp [bind, Except.bind]

theorem parseEntries_ok_iff {source : UserDataSource} : ∀ (entries : List (String × UserData)) (path : FieldPath)
    (obj : ObjectValue), (∃ r, parseEntries source path entries obj = .ok r) ↔ ValidAll source entries
  | [], path, obj => by simp [parseEntries, ValidAll]
  | (key, input) :: entries, path, obj => by
    rw [ValidAll, parseEntries]
    constructor
    · rintro ⟨⟨result, mask⟩, h⟩
      rw [← parseEntries] at h
      obtain ⟨parsed, named, rest, hkey, hdata, hrest, _⟩ := parseEntries_cons h
      exact ⟨validatePathSegment_iff.mp hkey, (parseData_ok_iff input _).mp ⟨_, hdata⟩,
        (parseEntries_ok_iff entries path _).mp ⟨_, hrest⟩⟩
    · rintro ⟨hkey, hdata, hrest⟩
      obtain ⟨parsed, hdata⟩ := (parseData_ok_iff input (path ++ [key])).mpr hdata
      obtain ⟨result, hrest⟩ := (parseEntries_ok_iff entries path (withParsed obj key parsed.1)).mpr hrest
      rw [validatePathSegment_iff.mpr hkey, hdata]
      simp [bind, Except.bind, hrest]

end

mutual

theorem Valid.mergeSet : ∀ {data : UserData}, data.Valid .set → data.Valid .mergeSet
  | .value _, _ => by simp [Valid]
  | .delete, h => by cases h
  | .dictionary entries, h => by
    rw [Valid] at h ⊢
    exact ValidAll.mergeSet h

theorem ValidAll.mergeSet : ∀ {entries : List (String × UserData)}, ValidAll .set entries →
    ValidAll .mergeSet entries
  | [], _ => by simp [ValidAll]
  | (key, input) :: entries, h => by
    rw [ValidAll] at h ⊢
    exact ⟨h.1, h.2.1.mergeSet, ValidAll.mergeSet h.2.2⟩

end

end UserData

/-! ## The data of a `setData` -/

structure ParsedSetData where
  data : ObjectValue
  fieldMask : FieldMask
  patch : Bool

def ObjectValue.ofFieldValue : Option FieldValue → ObjectValue
  | some (.map entries) => entries
  | _ => ObjectValue.empty

namespace UserData

def parsedSetData : UserData → Except String ParsedSetData
  | .dictionary entries => do
    let (updateData, _) ← parseData .set [] (.dictionary entries)
    .ok { data := .ofFieldValue updateData, fieldMask := [], patch := false }
  | _ => .error "Data to be written must be an NSDictionary."

def parsedMergeData : UserData → Except String ParsedSetData
  | .dictionary entries => do
    let (updateData, mask) ← parseData .mergeSet [] (.dictionary entries)
    .ok { data := .ofFieldValue updateData, fieldMask := mask, patch := true }
  | _ => .error "Data to be written must be an NSDictionary."

theorem parsedSetData_ok_iff (entries : List (String × UserData)) :
    (∃ parsed, parsedSetData (.dictionary entries) = .ok parsed) ↔ (UserData.dictionary entries).Valid .set := by
  rw [← parseData_ok_iff (.dictionary entries) [], parsedSetData]
  cases parseData .set [] (.dictionary entries) with
  | error e => simp [bind, Except.bind]
  | ok r => simp [bind, Except.bind]

theorem parsedMergeData_ok_iff (entries : List (String × UserData)) :
    (∃ parsed, parsedMergeData (.dictionary entries) = .ok parsed) ↔
      (UserData.dictionary entries).Valid .mergeSet := by
  rw [← parseData_ok_iff (.dictionary entries) [], parsedMergeData]
  cases parseData .mergeSet [] (.dictionary entries) with
  | error e => simp [bind, Except.bind]
  | ok r => simp [bind, Except.bind]

/-- The mask of a merge names the leaves of its dictionary, and the data has
at each what the leaf says. -/
theorem parsedMergeData_leaves {entries : List (String × UserData)} {parsed : ParsedSetData}
    (hd : (UserData.dictionary entries).Distinct) (h : parsedMergeData (.dictionary entries) = .ok parsed) :
    parsed.patch = true ∧ parsed.fieldMask = (leavesOf entries).map Prod.fst ∧
      ∀ w ∈ leavesOf entries, parsed.data.get w.1 = w.2 := by
  rw [Distinct] at hd
  rw [parsedMergeData, parseData] at h
  by_cases he : entries.isEmpty = true
  · rw [List.isEmpty_iff] at he
    subst he
    cases h
    simp [leavesOf]
  · simp only [he] at h
    cases hr : parseEntries .mergeSet [] entries ObjectValue.empty with
    | error e => rw [hr] at h; cases h
    | ok r =>
      rw [hr] at h
      cases h
      obtain ⟨hm, hl, _⟩ := parseEntries_leaves entries [] hd.1 hd.2 (fun _ _ => rfl) hr
      refine ⟨rfl, by simpa using hm, fun w hw => ?_⟩
      rw [ObjectValue.get_eq]
      exact hl w hw

/-! ## Data that is set -/

theorem leaves_ne_nil (data : UserData) : data.leaves ≠ [] := by
  cases data with
  | value v => simp [leaves]
  | delete => simp [leaves]
  | dictionary entries =>
    rw [leaves]
    cases entries with
    | nil => simp
    | cons e entries => simpa [leavesOf] using fun h => absurd h (leaves_ne_nil e.2)

mutual

theorem leaves_isSome : ∀ data : UserData, data.Valid .set → ∀ w ∈ data.leaves, w.2.isSome
  | .value v, _ => by simp [leaves]
  | .delete, h => by cases h
  | .dictionary entries, h => by
    rw [Valid] at h
    rw [leaves]
    split
    · simp
    · exact leavesOf_isSome entries h

theorem leavesOf_isSome : ∀ entries : List (String × UserData), ValidAll .set entries → ∀ w ∈ leavesOf entries,
    w.2.isSome
  | [], _ => by simp [leavesOf]
  | (key, input) :: entries, h => by
    rw [ValidAll] at h
    intro w hw
    rw [leavesOf, List.mem_append, List.mem_map] at hw
    rcases hw with ⟨v, hv, rfl⟩ | hw
    · exact leaves_isSome input h.2.1 v hv
    · exact leavesOf_isSome entries h.2.2 w hw

end

/-- Leaves that are values make the maps on their way. -/
theorem putAll_leavesOf_none {entries : List (String × UserData)} (he : entries ≠ []) (hv : ValidAll .set entries) :
    putAll (leavesOf entries) none = putAll (leavesOf entries) ObjectValue.empty.slot := by
  have hsome := leavesOf_isSome entries hv
  cases hl : leavesOf entries with
  | nil =>
    cases entries with
    | nil => exact absurd rfl he
    | cons e entries => simp [leavesOf, leaves_ne_nil e.2] at hl
  | cons w rest =>
    have hmem : w ∈ leavesOf entries := by simp [hl]
    obtain ⟨key, path, hw, _⟩ := leavesOf_head hmem
    have hnew := hsome w hmem
    simp only [putAll_cons, hw, Slot.put, hnew]
    rfl

mutual

/-- What is parsed without a merge is what its leaves make of nothing. -/
theorem parseData_set : ∀ (data : UserData) (path : FieldPath) {parsed : Option FieldValue} {mask : FieldMask},
    data.Distinct → parseData .set path data = .ok (parsed, mask) → parsed = putAll data.leaves none
  | .value v, path, parsed, mask, _, h => by
    rw [parseData] at h
    cases h
    rfl
  | .delete, path, parsed, mask, _, h => by
    rw [parseData] at h
    cases h
  | .dictionary entries, path, parsed, mask, hd, h => by
    have hv := (parseData_ok_iff (.dictionary entries) path).mp ⟨_, h⟩
    rw [Valid] at hv
    rw [Distinct] at hd
    rw [parseData] at h
    rw [leaves]
    by_cases he : entries.isEmpty = true
    · simp only [he, if_true] at h ⊢
      cases h
      rfl
    · simp only [he] at h ⊢
      cases hr : parseEntries .set path entries ObjectValue.empty with
      | error e => rw [hr] at h; cases h
      | ok r =>
        rw [hr] at h
        cases h
        have hset := parseEntries_set entries path hd.1 hd.2 (fun _ _ => rfl) hr
        rw [if_neg (by simp), putAll_leavesOf_none (by simpa using he) hv]
        exact hset

theorem parseEntries_set : ∀ (entries : List (String × UserData)) (path : FieldPath) {obj result : ObjectValue}
    {mask : FieldMask}, (entries.map Prod.fst).Nodup → DistinctAll entries →
    (∀ key ∈ entries.map Prod.fst, obj key = none) → parseEntries .set path entries obj = .ok (result, mask) →
    result.slot = putAll (leavesOf entries) obj.slot
  | [], path, obj, result, mask, _, _, _, h => by
    rw [parseEntries] at h
    cases h
    rfl
  | (key, input) :: entries, path, obj, result, mask, hk, hd, hfresh, h => by
    rw [DistinctAll] at hd
    rw [List.map_cons, List.nodup_cons] at hk
    obtain ⟨parsed, named, rest, _, hdata, hrest, rfl⟩ := parseEntries_cons h
    have hkey : obj key = none := hfresh key (by simp)
    have hfresh' := withParsed_fresh parsed hk.1 hfresh
    rw [parseEntries_set entries path hk.2 hd.2 hfresh' hrest, leavesOf, putAll_append, putAll_under key _ rfl,
      withParsed_eq parsed hkey,
      Slot.entries_map, hkey, ← parseData_set input (path ++ [key]) hd.1 hdata]

end

end UserData

end Firestore

end ToDoList
