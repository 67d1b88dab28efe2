import ToDoList.Firebase

/-!
# Paths of fields and of resources

A field path is kept as its segments. Its canonical string puts a segment that
is not an identifier between backticks and escapes backticks and backslashes;
`fromServerFormat` reads it back. Resource paths are joined with slashes.
-/

namespace ToDoList

namespace Firestore

abbrev FieldPath := List String

namespace FieldPath

def backtick : Char := Char.ofNat 96
def backslash : Char := Char.ofNat 92
def terminator : Char := Char.ofNat 0

/-! ## Canonical strings -/

def identifierStart (c : Char) : Bool := c = '_' || ('a' ≤ c && c ≤ 'z') || ('A' ≤ c && c ≤ 'Z')

def identifierChar (c : Char) : Bool := identifierStart c || ('0' ≤ c && c ≤ '9')

def isValidIdentifier : List Char → Bool
  | [] => false
  | c :: cs => identifierStart c && cs.all identifierChar

def escapeChar (c : Char) : List Char := if c = backslash ∨ c = backtick then [backslash, c] else [c]

def escapedSegment (segment : String) : List Char :=
  let escaped := segment.toList.flatMap escapeChar
  if isValidIdentifier escaped then escaped else backtick :: (escaped ++ [backtick])

def canonicalString (path : FieldPath) : String := String.ofList (['.'].intercalate (path.map escapedSegment))

/-! ## Reading a path -/

inductive PathError
  | emptySegment
  | trailingEscape
  | unterminated
  deriving DecidableEq

def PathError.message (path : String) : PathError → String
  | emptySegment =>
    "Invalid field path (" ++ path ++ "). Paths must not be empty, begin with '.', end with '.', or contain '..'"
  | trailingEscape => "Trailing escape characters not allowed in " ++ path
  | unterminated => "Unterminated " ++ String.singleton backtick ++ " in path " ++ path

def finish (segments : FieldPath) (segment : List Char) (insideBackticks : Bool) : Except PathError FieldPath :=
  if segment = [] then .error .emptySegment
  else if insideBackticks then .error .unterminated
  else .ok (segments ++ [String.ofList segment])

def readSegments : List Char → FieldPath → List Char → Bool → Except PathError FieldPath
  | [], segments, segment, inside => finish segments segment inside
  | c :: cs, segments, segment, inside =>
    if c = terminator then finish segments segment inside
    else if c = '.' then
      if inside then readSegments cs segments (segment ++ [c]) inside
      else if segment = [] then .error .emptySegment
      else readSegments cs (segments ++ [String.ofList segment]) [] inside
    else if c = backtick then readSegments cs segments segment (!inside)
    else if c = backslash then
      match cs with
      | [] => .error .trailingEscape
      | d :: cs => readSegments cs segments (segment ++ [d]) inside
    else readSegments cs segments (segment ++ [c]) inside

def fromServerFormat (path : String) : Except String FieldPath :=
  (readSegments path.toList [] [] false).mapError (PathError.message path)

def fromDotSeparatedString (path : String) : Except String FieldPath :=
  if path.toList.any fun c => c ∈ ['~', '*', '/', '[', ']'] then
    .error ("Invalid field path (" ++ path ++ "). Paths must not contain '~', '*', '/', '[', or ']'")
  else
    let segments := path.toList.splitOn '.'
    if [] ∈ segments then .error (PathError.emptySegment.message path) else .ok (segments.map String.ofList)

/-! ## Reading a segment back -/

/-- A segment that can be read back. -/
def Readable (segment : String) : Prop := segment ≠ "" ∧ terminator ∉ segment.toList

instance (segment : String) : Decidable (Readable segment) := inferInstanceAs (Decidable (_ ∧ _))

section
variable (cs : List Char) (segments : FieldPath) (segment : List Char) (inside : Bool)

theorem readSegments_nil : readSegments [] segments segment inside = finish segments segment inside := rfl

theorem readSegments_cons (c : Char) : readSegments (c :: cs) segments segment inside =
    if c = terminator then finish segments segment inside
    else if c = '.' then
      if inside then readSegments cs segments (segment ++ [c]) inside
      else if segment = [] then .error .emptySegment
      else readSegments cs (segments ++ [String.ofList segment]) [] inside
    else if c = backtick then readSegments cs segments segment (!inside)
    else if c = backslash then
      match cs with
      | [] => .error .trailingEscape
      | d :: cs => readSegments cs segments (segment ++ [d]) inside
    else readSegments cs segments (segment ++ [c]) inside := by
  rw [readSegments.eq_def]

theorem readSegments_terminator :
    readSegments (terminator :: cs) segments segment inside = finish segments segment inside := by
  simp [readSegments_cons]

theorem readSegments_dot : readSegments ('.' :: cs) segments segment true =
    readSegments cs segments (segment ++ ['.']) true := by
  have h : '.' ≠ terminator := by decide
  simp [readSegments_cons, h]

theorem readSegments_split (h : segment ≠ []) :
    readSegments ('.' :: cs) segments segment false =
      readSegments cs (segments ++ [String.ofList segment]) [] false := by
  have hd : '.' ≠ terminator := by decide
  simp [readSegments_cons, hd, h]

theorem readSegments_empty : readSegments ('.' :: cs) segments [] false = .error .emptySegment := by
  have h : '.' ≠ terminator := by decide
  simp [readSegments_cons, h]

theorem readSegments_backtick :
    readSegments (backtick :: cs) segments segment inside = readSegments cs segments segment (!inside) := by
  have h1 : backtick ≠ terminator := by decide
  have h2 : backtick ≠ '.' := by decide
  rw [readSegments_cons]
  simp [h1, h2]

theorem readSegments_backslash (d : Char) :
    readSegments (backslash :: d :: cs) segments segment inside =
      readSegments cs segments (segment ++ [d]) inside := by
  have h1 : backslash ≠ terminator := by decide
  have h2 : backslash ≠ '.' := by decide
  have h3 : backslash ≠ backtick := by decide
  rw [readSegments_cons]
  simp [h1, h2, h3]

theorem readSegments_plain {c : Char} (ht : c ≠ terminator) (hd : c ≠ '.') (hb : c ≠ backtick)
    (he : c ≠ backslash) :
    readSegments (c :: cs) segments segment inside = readSegments cs segments (segment ++ [c]) inside := by
  rw [readSegments_cons]
  simp [ht, hd, hb, he]

end

theorem readSegments_escaped {cs : List Char} (h : terminator ∉ cs) (rest : List Char) (segments : FieldPath)
    (segment : List Char) :
    readSegments (cs.flatMap escapeChar ++ rest) segments segment true =
      readSegments rest segments (segment ++ cs) true := by
  induction cs generalizing segment with
  | nil => simp
  | cons c cs ih =>
    simp only [List.mem_cons, not_or] at h
    obtain ⟨hc, hcs⟩ := h
    rw [← List.singleton_append, ← List.append_assoc, ← ih hcs, List.flatMap_append, List.append_assoc]
    unfold escapeChar
    by_cases he : c = backslash ∨ c = backtick
    · simp [he, readSegments_backslash]
    · simp only [not_or] at he
      by_cases hd : c = '.'
      · subst hd
        simp [he, readSegments_dot]
      · simp [he, readSegments_plain _ _ _ _ (Ne.symm hc) hd he.2 he.1]

theorem ne_of_identifierChar {c : Char} (h : identifierChar c = true) :
    c ≠ terminator ∧ c ≠ '.' ∧ c ≠ backtick ∧ c ≠ backslash := by
  refine ⟨?_, ?_, ?_, ?_⟩
  all_goals
    intro he
    subst he
    exact absurd h (by decide)

theorem readSegments_identifier {cs : List Char} (h : ∀ c ∈ cs, identifierChar c = true) (rest : List Char)
    (segments : FieldPath) (segment : List Char) :
    readSegments (cs ++ rest) segments segment false = readSegments rest segments (segment ++ cs) false := by
  induction cs generalizing segment with
  | nil => simp
  | cons c cs ih =>
    obtain ⟨ht, hd, hb, he⟩ := ne_of_identifierChar (h c (by simp))
    rw [List.cons_append, readSegments_plain _ _ _ _ ht hd hb he, ih (fun d hd => h d (by simp [hd]))]
    simp

theorem identifierChar_of_isValid {cs : List Char} (h : isValidIdentifier cs = true) :
    cs ≠ [] ∧ ∀ c ∈ cs, identifierChar c = true := by
  cases cs with
  | nil => cases h
  | cons c cs =>
    simp only [isValidIdentifier, Bool.and_eq_true, List.all_eq_true] at h
    obtain ⟨hc, hcs⟩ := h
    refine ⟨by simp, fun d hd => ?_⟩
    rcases List.mem_cons.mp hd with rfl | hd
    · simp [identifierChar, hc]
    · exact hcs d hd

/-- An identifier has nothing to escape. -/
theorem flatMap_escapeChar {cs : List Char} (h : ∀ c ∈ cs.flatMap escapeChar, identifierChar c = true) :
    cs.flatMap escapeChar = cs := by
  induction cs with
  | nil => rfl
  | cons c cs ih =>
    rw [List.flatMap_cons] at h ⊢
    rw [ih (fun d hd => h d (by simp [hd]))]
    unfold escapeChar at h ⊢
    by_cases he : c = backslash ∨ c = backtick
    · have hb : identifierChar backslash = true := h backslash (by simp [he])
      exact absurd hb (by decide)
    · simp [he]

theorem readSegments_segment {s : String} (h : Readable s) (rest : List Char) (segments : FieldPath)  :
    readSegments (escapedSegment s ++ rest) segments [] false = readSegments rest segments s.toList false := by
  unfold escapedSegment
  by_cases hv : isValidIdentifier (s.toList.flatMap escapeChar) = true
  · have hchars := (identifierChar_of_isValid hv).2
    simp only [hv, if_true]
    have heq := flatMap_escapeChar hchars
    rw [heq] at hchars ⊢
    exact readSegments_identifier hchars rest segments []
  · simp only [hv]
    rw [if_neg (by simp), List.cons_append, readSegments_backtick, List.append_assoc, Bool.not_false,
      readSegments_escaped h.2]
    simp [readSegments_backtick]

theorem readSegments_unclosed {u : List Char} (h : terminator ∉ u) (rest : List Char) (segments : FieldPath) :
    ∃ e, readSegments (backtick :: (u.flatMap escapeChar ++ terminator :: rest)) segments [] false = .error e := by
  rw [readSegments_backtick, Bool.not_false, readSegments_escaped h, readSegments_terminator]
  unfold finish
  by_cases hu : u = []
  · exact ⟨.emptySegment, by simp [hu]⟩
  · exact ⟨.unterminated, by simp [hu]⟩

/-- A segment that is empty or holds a terminator is not read back. -/
theorem readSegments_unreadable {s : String} (h : ¬ Readable s) {rest : List Char}
    (hr : rest = [] ∨ ∃ cs, rest = '.' :: cs)
    (segments : FieldPath) : ∃ e, readSegments (escapedSegment s ++ rest) segments [] false = .error e := by
  unfold Readable at h
  by_cases hs : s = ""
  · have hquotes : escapedSegment s = [backtick, backtick] := by subst hs; decide
    rw [hquotes]
    simp only [List.cons_append, List.nil_append, readSegments_backtick, Bool.not_not]
    rcases hr with rfl | ⟨cs, rfl⟩
    · exact ⟨.emptySegment, rfl⟩
    · exact ⟨.emptySegment, readSegments_empty cs segments⟩
  · have hmem : terminator ∈ s.toList := by
      by_contra hn
      exact h ⟨hs, hn⟩
    obtain ⟨u, v, huv, hu⟩ := List.eq_append_cons_of_mem hmem
    have hflat : s.toList.flatMap escapeChar = u.flatMap escapeChar ++ terminator :: v.flatMap escapeChar := by
      have hc : escapeChar terminator = [terminator] := by decide
      simp [huv, hc]
    have hnot : isValidIdentifier (s.toList.flatMap escapeChar) = false := by
      by_contra hv
      have hc := (identifierChar_of_isValid (by simpa using hv)).2 terminator (by simp [hflat])
      exact absurd hc (by decide)
    rw [hflat] at hnot
    unfold escapedSegment
    simp only [hflat, hnot]
    simpa using readSegments_unclosed hu _ segments

/-! ## Round trips -/

theorem readSegments_join {path : FieldPath} (hne : path ≠ []) (segments : FieldPath) :
    (∀ s ∈ path, Readable s) →
      readSegments (['.'].intercalate (path.map escapedSegment)) segments [] false = .ok (segments ++ path) := by
  induction path generalizing segments with
  | nil => exact absurd rfl hne
  | cons s path ih =>
    intro hgood
    have hs : Readable s := hgood s (by simp)
    have hs' : s.toList ≠ [] := fun he => hs.1 (String.toList_inj.mp he)
    cases path with
    | nil =>
      have h := readSegments_segment hs [] segments
      rw [List.append_nil, readSegments_nil] at h
      simp [h, finish, hs', String.ofList_toList]
    | cons t path =>
      rw [List.map_cons, List.map_cons, List.intercalate_cons_cons, List.append_assoc, readSegments_segment hs,
        List.singleton_append, readSegments_split _ _ _ hs', String.ofList_toList, ← List.map_cons,
        ih (by simp) _ (fun u hu => hgood u (by simp [hu]))]
      simp

theorem readSegments_join_error {path : FieldPath} (segments : FieldPath) (h : ∃ s ∈ path, ¬ Readable s) :
    ∃ e, readSegments (['.'].intercalate (path.map escapedSegment)) segments [] false = .error e := by
  induction path generalizing segments with
  | nil => obtain ⟨s, hs, _⟩ := h; cases hs
  | cons s path ih =>
    cases path with
    | nil =>
      obtain ⟨t, ht, hbad⟩ := h
      rw [List.mem_singleton.mp ht] at hbad
      simpa using readSegments_unreadable hbad (.inl rfl) segments
    | cons t path =>
      rw [List.map_cons, List.map_cons, List.intercalate_cons_cons, List.append_assoc, List.singleton_append]
      by_cases hs : Readable s
      · have hs' : s.toList ≠ [] := fun he => hs.1 (String.toList_inj.mp he)
        rw [readSegments_segment hs, readSegments_split _ _ _ hs', ← List.map_cons]
        apply ih
        obtain ⟨u, hu, hbad⟩ := h
        rcases List.mem_cons.mp hu with rfl | hu
        · exact absurd hs hbad
        · exact ⟨u, hu, hbad⟩
      · exact readSegments_unreadable hs (.inr ⟨_, rfl⟩) segments

theorem canonicalString_read_iff (path : FieldPath) :
    fromServerFormat (canonicalString path) = .ok path ↔ path ≠ [] ∧ ∀ s ∈ path, Readable s := by
  unfold fromServerFormat canonicalString
  rw [String.toList_ofList]
  constructor
  · intro h
    refine ⟨fun hnil => (by subst hnil; cases h), ?_⟩
    by_contra hbad
    simp only [not_forall] at hbad
    obtain ⟨s, hs, hbad⟩ := hbad
    obtain ⟨e, he⟩ := readSegments_join_error [] ⟨s, hs, hbad⟩
    rw [he] at h
    cases h
  · intro h
    rw [readSegments_join h.1 [] h.2]
    rfl

/-! ## What is read -/

theorem nonempty_snoc {segments : FieldPath} {segment : List Char} (hs : ∀ s ∈ segments, s ≠ "")
    (hne : segment ≠ []) :
    ∀ s ∈ segments ++ [String.ofList segment], s ≠ "" := by
  intro s hmem
  rcases List.mem_append.mp hmem with hmem | hmem
  · exact hs s hmem
  · rw [List.mem_singleton.mp hmem]
    intro he
    exact hne (by simpa using congrArg String.toList he)

theorem finish_nonempty {segments path : FieldPath} {segment : List Char} {inside : Bool}
    (h : finish segments segment inside = .ok path) (hs : ∀ s ∈ segments, s ≠ "") :
      path ≠ [] ∧ ∀ s ∈ path, s ≠ "" := by
  unfold finish at h
  by_cases hne : segment = []
  · simp [hne] at h
  · cases inside with
    | true => simp [hne] at h
    | false =>
      simp only [hne, if_false, Bool.false_eq_true, Except.ok.injEq] at h
      subst h
      exact ⟨by simp, nonempty_snoc hs hne⟩

theorem readSegments_nonempty {cs : List Char} {segments path : FieldPath} {segment : List Char} {inside : Bool}
    (h : readSegments cs segments segment inside = .ok path) (hs : ∀ s ∈ segments, s ≠ "") :
    path ≠ [] ∧ ∀ s ∈ path, s ≠ "" := by
  fun_induction readSegments cs segments segment inside with
  | case1 => exact finish_nonempty h hs
  | case2 => exact finish_nonempty h hs
  | case3 _ _ _ _ ih => exact ih h hs
  | case4 => cases h
  | case5 _ _ _ _ _ hne _ ih => exact ih h (nonempty_snoc hs hne)
  | case6 _ _ _ _ _ _ ih => exact ih h hs
  | case7 => cases h
  | case8 _ _ _ _ _ _ _ _ ih => exact ih h hs
  | case9 _ _ _ _ _ _ _ _ _ ih => exact ih h hs

theorem read_nonempty {text : String} {path : FieldPath} (h : fromServerFormat text = .ok path) :
    path ≠ [] ∧ ∀ s ∈ path, s ≠ "" := by
  unfold fromServerFormat at h
  cases hr : readSegments text.toList [] [] false with
  | error e => rw [hr] at h; cases h
  | ok p =>
    rw [hr] at h
    cases h
    exact readSegments_nonempty hr (by simp)

theorem dotSeparated_nonempty {text : String} {path : FieldPath} (h : fromDotSeparatedString text = .ok path) :
    path ≠ [] ∧ ∀ s ∈ path, s ≠ "" := by
  unfold fromDotSeparatedString at h
  split at h
  · cases h
  · simp only at h
    split at h
    · cases h
    · rename_i hnil
      cases h
      refine ⟨by simp [List.splitOn_ne_nil], fun s hs => ?_⟩
      obtain ⟨piece, hp, rfl⟩ := List.mem_map.mp hs
      intro he
      have : piece = [] := by simpa using congrArg String.toList he
      exact hnil (this ▸ hp)

/-- The canonical string of a path is read back as the path exactly when the
path and its segments are not empty and no segment holds a terminator; what is
read, in either syntax, has no empty segment. -/
theorem field_paths_read_back :
    (∀ path : FieldPath, fromServerFormat (canonicalString path) = .ok path ↔ path ≠ [] ∧ ∀ s ∈ path, Readable s) ∧
    (∀ text path, fromServerFormat text = .ok path ∨ fromDotSeparatedString text = .ok path →
      path ≠ [] ∧ ∀ s ∈ path, s ≠ "") ∧
    ∀ path path' : FieldPath, path ≠ [] → path' ≠ [] → (∀ s ∈ path ++ path', Readable s) →
      canonicalString path = canonicalString path' → path = path' := by
  refine ⟨canonicalString_read_iff, fun text path h => h.elim read_nonempty dotSeparated_nonempty, ?_⟩
  intro path path' hne hne' hread heq
  have h := (canonicalString_read_iff path).mpr ⟨hne, fun s hs => hread s (by simp [hs])⟩
  have h' := (canonicalString_read_iff path').mpr ⟨hne', fun s hs => hread s (by simp [hs])⟩
  rw [heq, h'] at h
  exact (Except.ok.inj h).symm

theorem field_paths_read_back_quoted :
    fromServerFormat (canonicalString ["info.email", "old"]) = .ok ["info.email", "old"] ∧
      (["info", "email"] ≠ [] ∧ ∀ s ∈ ["info", "email"], s ≠ "") ∧ ["info", "email"] = ["info", "email"] :=
  ⟨(field_paths_read_back.1 _).mpr (by decide),
    field_paths_read_back.2.1 "info.email" ["info", "email"] (.inr (by decide)),
    field_paths_read_back.2.2 _ _ (by simp) (by simp) (by decide) rfl⟩

end FieldPath

/-! ## Resource paths -/

namespace ResourcePath

def fromString (path : String) : Except String Segments :=
  if Path.DoubleSlash path then .error ("Invalid path (" ++ path ++ "). Paths must not contain // in them.")
  else .ok (Path.segments path)

def canonicalString (path : Segments) : String := Path.join path

theorem canonicalString_read {path : Segments} (h : ∀ s ∈ path, Path.Segment s) :
    fromString (canonicalString path) = .ok path := by
  unfold fromString canonicalString
  simp [Path.doubleSlash_join h, Path.segments_join h]

theorem fromString_segments {text : String} {path : Segments} (h : fromString text = .ok path) :
    ∀ s ∈ path, Path.Segment s := by
  unfold fromString at h
  by_cases hd : Path.DoubleSlash text
  · simp [hd] at h
  · simp only [hd, if_false, Except.ok.injEq] at h
    subst h
    exact fun s hs => Path.segment_of_mem hs

/-- A path is read back from its canonical string exactly when every segment is
one; what is read, and every document the program refers to, is such a path. -/
theorem resource_paths_read_back :
    (∀ path : Segments, fromString (canonicalString path) = .ok path ↔ ∀ s ∈ path, Path.Segment s) ∧
    (∀ text path, fromString text = .ok path → fromString (canonicalString path) = .ok path) ∧
    ∀ collection id path, document collection id = some path →
      path.length % 2 = 0 ∧ fromString (canonicalString path) = .ok path := by
  refine ⟨fun path => ⟨fromString_segments, canonicalString_read⟩,
    fun text path h => canonicalString_read (fromString_segments h), fun collection id path h => ?_⟩
  unfold document at h
  simp only at h
  split at h
  · cases h
  · rename_i hok
    simp only [not_or, not_not] at hok
    cases h
    refine ⟨hok.2, canonicalString_read fun s hs => ?_⟩
    rcases List.mem_append.mp hs with hs | hs <;> exact Path.segment_of_mem hs

theorem resource_paths_read_back_users :
    fromString (canonicalString ["users", "ann"]) = .ok ["users", "ann"] ∧
      fromString (canonicalString ["users", "ann"]) = .ok ["users", "ann"] ∧ ["users", "ann"].length % 2 = 0 :=
  ⟨(resource_paths_read_back.1 _).mpr (by decide), resource_paths_read_back.2.1 "/users/ann" _ (by decide),
    (resource_paths_read_back.2.2 "users" "ann" _ (by decide)).1⟩

end ResourcePath

end Firestore

end ToDoList
