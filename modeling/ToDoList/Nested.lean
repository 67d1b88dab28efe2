import Mathlib.Data.List.Infix
import Mathlib.Data.List.Pairwise
import ToDoList.Async.Replay

/-!
# Nested maps

A node is a leaf or a map from keys to nodes. Updates name a path of keys:
`put` sets what is at the path, or deletes it. A set makes the maps on its way,
a delete does not.
-/

namespace Nested

inductive Node (K V : Type) : Type
  | leaf (v : V)
  | map (entries : K → Option (Node K V))

abbrev Slot (K V : Type) := Option (Node K V)

variable {K V : Type}

namespace Slot

def entries : Slot K V → K → Slot K V
  | some (.map e) => e
  | _ => fun _ => none

def isMap : Slot K V → Bool
  | some (.map _) => true
  | _ => false

def object (c : Slot K V) : Slot K V := some (.map c.entries)

def get : List K → Slot K V → Slot K V
  | [], c => c
  | k :: p, c => get p (c.entries k)

def put [DecidableEq K] : List K → Slot K V → Slot K V → Slot K V
  | [], o, _ => o
  | k :: p, o, c =>
    if o.isSome || c.isMap then some (.map (Function.update c.entries k (put p o (c.entries k)))) else c

@[simp] theorem entries_map (e : K → Slot K V) : entries (some (.map e)) = e := rfl
@[simp] theorem entries_none : entries (none : Slot K V) = fun _ => none := rfl
@[simp] theorem isMap_map (e : K → Slot K V) : isMap (some (.map e)) = true := rfl
@[simp] theorem isMap_none : isMap (none : Slot K V) = false := rfl
@[simp] theorem entries_object (c : Slot K V) : c.object.entries = c.entries := rfl
@[simp] theorem isMap_object (c : Slot K V) : c.object.isMap = true := rfl
@[simp] theorem get_nil (c : Slot K V) : get [] c = c := rfl
@[simp] theorem get_cons (k : K) (p : List K) (c : Slot K V) : get (k :: p) c = get p (c.entries k) := rfl

theorem entries_of_not_isMap {c : Slot K V} (h : c.isMap = false) : c.entries = fun _ => none := by
  cases c with
  | none => rfl
  | some n =>
    cases n with
    | leaf v => rfl
    | map e => cases h

theorem object_of_isMap {c : Slot K V} (h : c.isMap = true) : c.object = c := by
  cases c with
  | none => cases h
  | some n =>
    cases n with
    | leaf v => cases h
    | map e => rfl

theorem ext_entries {c d : Slot K V} (hc : c.isMap = true) (hd : d.isMap = true) (h : c.entries = d.entries) :
    c = d := by
  rw [← object_of_isMap hc, ← object_of_isMap hd]
  unfold object
  rw [h]

theorem get_none (p : List K) : get p (none : Slot K V) = none := by
  induction p with
  | nil => rfl
  | cons k p ih => simpa using ih

variable [DecidableEq K]

@[simp] theorem put_nil (o c : Slot K V) : put [] o c = o := rfl

theorem put_none (p : List K) : put p none (none : Slot K V) = none := by
  cases p <;> simp [put]

theorem put_of_not_isMap (k : K) (p : List K) {c : Slot K V} (h : c.isMap = false) : put (k :: p) none c = c := by
  simp [put, h]

theorem isMap_put (k : K) (p : List K) (o c : Slot K V) : (put (k :: p) o c).isMap = (o.isSome || c.isMap) := by
  unfold put
  cases o with
  | some v => simp
  | none => cases hc : c.isMap <;> simp [hc]

@[simp] theorem entries_put (k : K) (p : List K) (o c : Slot K V) :
    (put (k :: p) o c).entries = Function.update c.entries k (put p o (c.entries k)) := by
  cases o with
  | some v => simp [put]
  | none =>
    cases hc : c.isMap with
    | true => simp [put, hc]
    | false => simp [put_of_not_isMap k p hc, entries_of_not_isMap hc, put_none]

/-! ## What a put shows at a path -/

@[simp] theorem get_put (p : List K) (o c : Slot K V) : get p (put p o c) = o := by
  induction p generalizing c with
  | nil => rfl
  | cons k p ih => simp [ih]

theorem get_put_beside {p q : List K} (hp : ¬ p <+: q) (hq : ¬ q <+: p) (o c : Slot K V) :
    get q (put p o c) = get q c := by
  induction p generalizing q c with
  | nil => exact absurd List.nil_prefix hp
  | cons k p ih =>
    cases q with
    | nil => exact absurd List.nil_prefix hq
    | cons l q =>
      rw [get_cons, get_cons, entries_put]
      by_cases h : l = k
      · subst h
        rw [List.cons_prefix_cons] at hp hq
        simp only [Function.update_self]
        exact ih (fun hpq => hp ⟨rfl, hpq⟩) (fun hqp => hq ⟨rfl, hqp⟩) _
      · rw [Function.update_of_ne h]

/-- Puts beside each other commute. -/
theorem put_comm {p q : List K} (hp : ¬ p <+: q) (hq : ¬ q <+: p) (o r c : Slot K V) :
    put p o (put q r c) = put q r (put p o c) := by
  induction p generalizing q c with
  | nil => exact absurd List.nil_prefix hp
  | cons k p ih =>
    cases q with
    | nil => exact absurd List.nil_prefix hq
    | cons l q =>
      have he : (put (k :: p) o (put (l :: q) r c)).entries = (put (l :: q) r (put (k :: p) o c)).entries := by
        simp only [entries_put]
        by_cases h : k = l
        · subst h
          rw [List.cons_prefix_cons] at hp hq
          simp [ih (fun hpq => hp ⟨rfl, hpq⟩) (fun hqp => hq ⟨rfl, hqp⟩)]
        · simp [Function.update_of_ne h, Function.update_of_ne (Ne.symm h), Function.update_comm h]
      by_cases hm : (o.isSome || r.isSome || c.isMap) = true
      · apply ext_entries _ _ he
        · simp only [isMap_put]
          simpa [or_assoc] using hm
        · simp only [isMap_put]
          simpa [or_assoc, or_left_comm] using hm
      · simp only [Bool.or_eq_true, not_or, Bool.not_eq_true] at hm
        obtain ⟨⟨ho, hr⟩, hc⟩ := hm
        simp only [Option.isSome_eq_false_iff, Option.isNone_iff_eq_none] at ho hr
        simp [ho, hr, put_of_not_isMap _ _ hc]

/-! ## Absorption -/

theorem put_idem (p : List K) (o c : Slot K V) : put p o (put p o c) = put p o c := by
  induction p generalizing c with
  | nil => rfl
  | cons k p ih =>
    by_cases hm : (o.isSome || c.isMap) = true
    · apply ext_entries
      · simpa [isMap_put] using hm
      · simpa [isMap_put] using hm
      · simp [ih]
    · simp only [Bool.or_eq_true, not_or, Bool.not_eq_true] at hm
      obtain ⟨ho, hc⟩ := hm
      simp only [Option.isSome_eq_false_iff, Option.isNone_iff_eq_none] at ho
      simp [ho, put_of_not_isMap _ _ hc]

/-- An earlier put is lost in a later put at the same path, whatever comes between. -/
theorem put_absorb (p q : List K) (o r c : Slot K V) : put p o (put q r (put p o c)) = put p o (put q r c) := by
  induction p generalizing q c with
  | nil => rfl
  | cons k p ih =>
    cases q with
    | nil => rfl
    | cons l q =>
      by_cases hm : (o.isSome || c.isMap) = true
      · apply ext_entries
        · simp only [isMap_put]
          cases o <;> simp_all
        · simp only [isMap_put]
          cases o <;> simp_all
        · simp only [entries_put]
          by_cases h : k = l
          · subst h
            simp [ih]
          · simp [Function.update_of_ne h, Function.update_of_ne (Ne.symm h), Function.update_comm h, put_idem]
      · simp only [Bool.or_eq_true, not_or, Bool.not_eq_true] at hm
        obtain ⟨ho, hc⟩ := hm
        simp only [Option.isSome_eq_false_iff, Option.isNone_iff_eq_none] at ho
        simp [ho, put_of_not_isMap _ _ hc]

end Slot

/-! ## Edits -/

/-- `object` is the edit of an update that makes the map it is for. -/
inductive Edit (K V : Type) : Type
  | put (path : List K) (new : Slot K V)
  | object

namespace Edit

open Slot

variable [DecidableEq K]

def apply : Edit K V → Slot K V → Slot K V
  | .put p o, c => Slot.put p o c
  | .object, c => c.object

theorem absorbing : Async.Absorbing (apply (K := K) (V := V)) where
  idem := by
    intro e c
    cases e with
    | put p o => exact put_idem p o c
    | object => rfl
  absorb := by
    intro e f c
    cases e with
    | put p o =>
      cases f with
      | put q r => exact put_absorb p q o r c
      | object =>
        cases p with
        | nil => rfl
        | cons k p =>
          apply ext_entries
          · simp [apply, isMap_put]
          · simp [apply, isMap_put]
          · simp [apply, put_idem]
    | object =>
      cases f with
      | put q r =>
        cases q with
        | nil => rfl
        | cons l q => simp [apply, Slot.object]
      | object => rfl

end Edit

/-! ## Edits at paths beside each other -/

def Beside (p q : List K) : Prop := ¬ p <+: q ∧ ¬ q <+: p

theorem Beside.symm {p q : List K} (h : Beside p q) : Beside q p := ⟨h.2, h.1⟩

theorem Beside.cons {p q : List K} (h : Beside p q) (k : K) : Beside (k :: p) (k :: q) := by
  unfold Beside at h ⊢
  simpa [List.cons_prefix_cons] using h

theorem Beside.of_head {k l : K} {p q : List K} (h : k ≠ l) : Beside (k :: p) (l :: q) := by
  unfold Beside
  simp [List.cons_prefix_cons, h, Ne.symm h]

instance : Std.Symm fun w v : List K × Slot K V => Beside w.1 v.1 := ⟨fun _ _ h => h.symm⟩

/-- No path named leads to another. -/
def Apart (edits : List (List K × Slot K V)) : Prop := edits.Pairwise fun w v => Beside w.1 v.1

section
variable [DecidableEq K] {edits : List (List K × Slot K V)}

def putAll (edits : List (List K × Slot K V)) (c : Slot K V) : Slot K V :=
  Async.replay (fun w => Slot.put w.1 w.2) edits c

@[simp] theorem putAll_nil (c : Slot K V) : putAll [] c = c := rfl

@[simp] theorem putAll_cons (w : List K × Slot K V) (c : Slot K V) :
    putAll (w :: edits) c = putAll edits (Slot.put w.1 w.2 c) := rfl

theorem putAll_append (edits' : List (List K × Slot K V)) (c : Slot K V) :
    putAll (edits ++ edits') c = putAll edits' (putAll edits c) := by
  unfold putAll
  exact Async.replay_append edits edits' c

/-- Edits under one key of a map. -/
theorem putAll_under (k : K) (edits : List (List K × Slot K V)) {c : Slot K V} (h : c.isMap = true) :
    putAll (edits.map fun w => (k :: w.1, w.2)) c =
      some (.map (Function.update c.entries k (putAll edits (c.entries k)))) := by
  induction edits generalizing c with
  | nil => simpa [Slot.object] using (Slot.object_of_isMap h).symm
  | cons w edits ih =>
    have hm : (Slot.put (k :: w.1) w.2 c).isMap = true := by
      rw [Slot.isMap_put, h]
      simp
    rw [List.map_cons, putAll_cons, ih hm]
    simp

theorem get_putAll_beside {q : List K} (h : ∀ w ∈ edits, Beside w.1 q) (c : Slot K V) :
    Slot.get q (putAll edits c) = Slot.get q c := by
  induction edits generalizing c with
  | nil => rfl
  | cons w edits ih =>
    rw [putAll_cons, ih (fun v hv => h v (by simp [hv]))]
    have hw := h w (by simp)
    exact Slot.get_put_beside hw.1 hw.2 _ _

theorem get_putAll (h : Apart edits) {p : List K} {o : Slot K V} (hp : (p, o) ∈ edits) (c : Slot K V) :
    Slot.get p (putAll edits c) = o := by
  induction edits generalizing c with
  | nil => cases hp
  | cons w edits ih =>
    obtain ⟨hw, ht⟩ := List.pairwise_cons.mp h
    rcases List.mem_cons.mp hp with rfl | hp
    · have hb : ∀ v ∈ edits, Beside v.1 p := fun v hv => (hw v hv).symm
      rw [putAll_cons, get_putAll_beside hb, Slot.get_put]
    · exact ih ht hp _

theorem putAll_perm (h : Apart edits) {edits' : List (List K × Slot K V)} (hp : edits.Perm edits') (c : Slot K V) :
    putAll edits c = putAll edits' c := by
  unfold putAll Async.replay
  apply hp.foldl_eq'
  intro w hw v hv d
  by_cases hwv : w = v
  · subst hwv; rfl
  · have hb : Beside w.1 v.1 := List.Pairwise.forall h hw hv hwv
    exact Slot.put_comm hb.2 hb.1 _ _ _

end

end Nested
