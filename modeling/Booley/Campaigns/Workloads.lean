import Booley.Campaigns.RecordChecks
import Mathlib.Data.List.Dedup

/-!
# Comparing Simulation Campaign workloads

A resumed Campaign is compared with the manifest it was planned as, member by member. Every
finding names its position by a JSON pointer. Leaves are compared as Python compares them, so
numbers of one value pass as the same whatever their types.
-/
namespace Booley.Campaigns

open Booley.Lib Booley.Lib.DataTree

/-! ## Manifests -/

def manifestSchema : String := "booley.simulation-campaign-manifest/v4"

/-- The members of a manifest that say which workload it is. -/
def identityFields : List String :=
  ["$schema", "target", "workload", "required_suite", "build_variants", "planning_disclosures",
    "prerequisites", "work_items"]

def manifestFields : List String :=
  ["$schema", "campaign_id", "created_at", "origin", "target", "workload", "required_suite",
    "build_variants", "planning_disclosures", "prerequisites", "work_items", "fingerprints"]

/-- A decoded manifest: it holds exactly the fields of a manifest, each once, under the schema
that is read. -/
structure Manifest (α : Type) where
  document : List (String × Value α)
  keyed : Keyed (.object document)
  fields : ∀ key, key ∈ document.map Prod.fst ↔ key ∈ manifestFields
  schema : document.lookup "$schema" = some (.leaf (.text manifestSchema))

variable {α : Type}

/-- Some members of a document, as a document of their own. -/
def members (document : List (String × Value α)) (keys : List String) : Value α :=
  .object (keys.filterMap fun key => (document.lookup key).map fun value => (key, value))

/-- `_identity_document`. -/
def identityDocument (manifest : Manifest α) : Value α := members manifest.document identityFields

variable (format : FloatFormat α)

/-- The canonical bytes without the line break. -/
def digestedBytes (value : Value α) : List UInt8 :=
  ((canonicalJsonBytes format value).reverse.dropWhile (· == newline)).reverse

def canonicalSha256 (sha256 : List UInt8 → String) (value : Value α) : String :=
  "sha256:" ++ sha256 (digestedBytes format value)

/-- The members of a manifest that its workload fingerprint is taken of. -/
def fingerprintedDocument (manifest : Manifest α) : Value α :=
  members manifest.document (identityFields.drop 1)

/-- The workload fingerprint of a manifest. -/
def workloadSha256 (sha256 : List UInt8 → String) (manifest : Manifest α) : String :=
  canonicalSha256 format sha256 (fingerprintedDocument manifest)

/-! ## Comparing -/

/-- The number a leaf counts as: a flag is 1 or 0. -/
def number? : Scalar α → Option Rat
  | .flag true => some 1
  | .flag false => some 0
  | .whole value => some value
  | .float value => some (format.value value)
  | .null | .text _ => none

/-- `==` of two leaves. -/
def leafEq : Scalar α → Scalar α → Bool
  | .null, .null => true
  | .text first, .text second => first == second
  | first, second =>
    (number? format first).any fun x => (number? format second).any fun y => x == y

/-- One difference found while validating a resume. -/
structure WorkloadMismatch (α : Type) where
  pointer : List Char
  expected : Value α
  actual : Value α

/-- What a mismatch shows for a member that is missing. -/
def absent : Value α := .leaf (.text "<absent>")

/-- The keys of two objects, sorted. -/
def unionKeys (expected actual : List (String × Value α)) : List String :=
  (expected.map Prod.fst ++ actual.map Prod.fst).dedup.insertionSort (· ≤ ·)

def childPointer (pointer token : List Char) : List Char := pointer ++ '/' :: escapePointer token

/-- The items that only the actual list has, from one place on. -/
def surplusItems : List (Value α) → List Char → Nat → List (WorkloadMismatch α)
  | [], _, _ => []
  | other :: actual, pointer, index =>
    ⟨childPointer pointer (Nat.toDigits 10 index), absent, other⟩ ::
      surplusItems actual pointer (index + 1)

mutual

/-- `_compare_value`. -/
def compareValue : Value α → Value α → List Char → List (WorkloadMismatch α)
  | .object expected, .object actual, pointer =>
    (unionKeys expected actual).flatMap fun key =>
      ((compareFields expected actual pointer).lookup key).getD
        [⟨childPointer pointer key.toList, absent, (actual.lookup key).getD absent⟩]
  | .list expected, .list actual, pointer => compareItems expected actual pointer 0
  | .leaf expected, .leaf actual, pointer =>
    if leafEq format expected actual then []
    else [⟨if pointer.isEmpty then ['/'] else pointer, .leaf expected, .leaf actual⟩]
  | expected, actual, pointer =>
    [⟨if pointer.isEmpty then ['/'] else pointer, expected, actual⟩]

/-- The findings below each key of the expected object. -/
def compareFields : List (String × Value α) → List (String × Value α) → List Char →
    List (String × List (WorkloadMismatch α))
  | [], _, _ => []
  | (key, value) :: expected, actual, pointer =>
    (key, (actual.lookup key).elim [⟨childPointer pointer key.toList, value, absent⟩]
        fun other => compareValue value other (childPointer pointer key.toList)) ::
      compareFields expected actual pointer

/-- The findings in two lists, from one place on. -/
def compareItems : List (Value α) → List (Value α) → List Char → Nat →
    List (WorkloadMismatch α)
  | item :: expected, [], pointer, index =>
    ⟨childPointer pointer (Nat.toDigits 10 index), item, absent⟩ ::
      compareItems expected [] pointer (index + 1)
  | [], actual, pointer, index => surplusItems actual pointer index
  | item :: expected, other :: actual, pointer, index =>
    compareValue item other (childPointer pointer (Nat.toDigits 10 index)) ++
      compareItems expected actual pointer (index + 1)

end

/-- `compare_manifests`: every mismatch of the workload identity, in the order of the pointers. -/
def compareManifests (expected current : Manifest α) : List (WorkloadMismatch α) :=
  compareValue format (identityDocument expected) (identityDocument current) []

/-! ## What the findings say -/

/-- The two documents do not hold the same at a position: other kinds of value, other leaves, or
nothing in one of them. -/
def DifferAt (expected actual : Value α) (pointer : List Char) : Prop :=
  ¬Matches Eq (expected.resolve pointer) (actual.resolve pointer)

/-- The two documents agree as far as `==` tells. -/
abbrev LooksEqual (expected actual : Value α) : Prop :=
  Agree (fun first second => leafEq format first second = true) expected actual

/-- A finding of two values at a position is about a place below it where they do not look
equal. -/
def Located (expected actual : Value α) (path : List (List Char)) (finding : WorkloadMismatch α) :
    Prop :=
  ∃ below, finding.pointer = pointerText (path ++ below) ∧
    ¬Matches (fun first second => leafEq format first second = true) (expected.descend below)
      (actual.descend below)

/-- The findings of a value are those of its comparison with any other. -/
structure ComparesWell (expected actual : Value α) (path : List (List Char)) : Prop where
  complete : compareValue format expected actual (pointerText path) = [] →
    LooksEqual format expected actual
  located : ∀ finding ∈ compareValue format expected actual (pointerText path),
    Located format expected actual path finding

variable {format}

theorem childPointer_pointerText (path : List (List Char)) (token : List Char) :
    childPointer (pointerText path) token = pointerText (path ++ [token]) := by
  induction path with
  | nil => simp [childPointer, pointerText]
  | cons first path ih =>
    rw [List.cons_append, pointerText, pointerText, ← ih]
    simp [childPointer]

theorem pointerText_isEmpty {path : List (List Char)} (h : path ≠ []) :
    (pointerText path).isEmpty = false := by
  obtain ⟨token, rest, rfl⟩ := List.exists_cons_of_ne_nil h
  rfl

/-- A place below a child is a place below the value. -/
theorem Located.of_child {expected actual : Value α} {path : List (List Char)} {token : List Char}
    {finding : WorkloadMismatch α} {item other : Value α} (hitem : expected.child token = some item)
    (hother : actual.child token = some other)
    (h : Located format item other (path ++ [token]) finding) :
    Located format expected actual path finding := by
  obtain ⟨below, hpointer, hdiffer⟩ := h
  refine ⟨token :: below, ?_, ?_⟩
  · rw [hpointer, List.append_assoc, List.singleton_append]
  · simpa [hitem, hother] using hdiffer

/-- A child that only one of the values has. -/
theorem located_absent {expected actual : Value α} {path : List (List Char)} (token : List Char)
    {finding : WorkloadMismatch α}
    (hpointer : finding.pointer = childPointer (pointerText path) token)
    (h : (expected.child token = none ∧ actual.child token ≠ none) ∨
      (expected.child token ≠ none ∧ actual.child token = none)) :
    Located format expected actual path finding := by
  refine ⟨[token], ?_, ?_⟩
  · rw [hpointer, childPointer_pointerText]
  · simp only [descend_cons, descend_nil, Option.bind_fun_some]
    rcases h with ⟨hnone, hsome⟩ | ⟨hsome, hnone⟩
    · obtain ⟨other, hother⟩ := Option.ne_none_iff_exists'.mp hsome
      rw [hnone, hother]
      exact id
    · obtain ⟨item, hitem⟩ := Option.ne_none_iff_exists'.mp hsome
      rw [hnone, hitem]
      cases item <;> exact id

theorem lookup_compareFields (expected actual : List (String × Value α)) (pointer : List Char)
    (key : String) : (compareFields format expected actual pointer).lookup key =
      (expected.lookup key).map fun value =>
        (actual.lookup key).elim [⟨childPointer pointer key.toList, value, absent⟩]
          fun other => compareValue format value other (childPointer pointer key.toList) := by
  induction expected with
  | nil => rfl
  | cons field expected ih =>
    obtain ⟨held, value⟩ := field
    by_cases hkey : key = held
    · subst hkey
      simp [compareFields]
    · have hfalse : (key == held) = false := by simpa using hkey
      simp [compareFields, List.lookup_cons, hfalse, ih]

theorem mem_unionKeys {expected actual : List (String × Value α)} {key : String} :
    key ∈ unionKeys expected actual ↔ expected.lookup key ≠ none ∨ actual.lookup key ≠ none := by
  rw [unionKeys, List.mem_insertionSort, List.mem_dedup, List.mem_append, mem_keys_iff,
    mem_keys_iff]

/-- The findings of two objects, when those of their members are well. -/
theorem comparesWell_objects {expected actual : List (String × Value α)}
    {path : List (List Char)} (hmembers : ∀ key item other, expected.lookup key = some item →
      ComparesWell format item other (path ++ [key.toList])) :
    ComparesWell format (.object expected) (.object actual) path := by
  have hfindings : ∀ key,
      ((compareFields format expected actual (pointerText path)).lookup key).getD
        [⟨childPointer (pointerText path) key.toList, absent, (actual.lookup key).getD absent⟩] =
      (expected.lookup key).elim
        [⟨childPointer (pointerText path) key.toList, absent, (actual.lookup key).getD absent⟩]
        fun value => (actual.lookup key).elim
          [⟨childPointer (pointerText path) key.toList, value, absent⟩]
          fun other => compareValue format value other (pointerText (path ++ [key.toList])) := by
    intro key
    rw [lookup_compareFields, childPointer_pointerText]
    cases expected.lookup key <;> rfl
  constructor
  · intro hempty
    rw [compareValue, List.flatMap_eq_nil_iff] at hempty
    refine agree_of_children trivial fun token => ?_
    have hkey := hempty (String.ofList token)
    rw [mem_unionKeys, hfindings] at hkey
    simp only [child]
    cases hitem : expected.lookup (String.ofList token) with
    | none =>
      cases hother : actual.lookup (String.ofList token) with
      | none => exact .inl ⟨rfl, rfl⟩
      | some other => simp [hitem, hother] at hkey
    | some item =>
      cases hother : actual.lookup (String.ofList token) with
      | none => simp [hitem, hother] at hkey
      | some other =>
        refine .inr ⟨item, other, rfl, rfl, (hmembers _ item other hitem).complete ?_⟩
        simpa [hitem, hother] using hkey
  · intro finding hmem
    rw [compareValue, List.mem_flatMap] at hmem
    obtain ⟨key, hkey, hmem⟩ := hmem
    rw [mem_unionKeys] at hkey
    rw [hfindings] at hmem
    have hchild : ∀ fields : List (String × Value α),
        (DataTree.object fields).child key.toList = fields.lookup key := fun fields =>
      child_object_key fields key
    cases hitem : expected.lookup key with
    | none =>
      rw [hitem, Option.elim_none, List.mem_singleton] at hmem
      refine located_absent key.toList (by rw [hmem]) (.inl ?_)
      rw [hchild, hchild]
      exact ⟨hitem, hkey.resolve_left (not_not_intro hitem)⟩
    | some item =>
      rw [hitem, Option.elim_some] at hmem
      cases hother : actual.lookup key with
      | none =>
        rw [hother, Option.elim_none, List.mem_singleton] at hmem
        refine located_absent key.toList (by rw [hmem]) (.inr ?_)
        rw [hchild, hchild, hitem]
        exact ⟨Option.some_ne_none _, hother⟩
      | some other =>
        rw [hother, Option.elim_some] at hmem
        exact Located.of_child ((hchild _).trans hitem) ((hchild _).trans hother)
          ((hmembers key item other hitem).located finding hmem)

/-- A finding at or below one item of two lists, the places counted from `start`. -/
def ItemLocated (format : FloatFormat α) (expected actual : List (Value α))
    (path : List (List Char)) (start : Nat) (finding : WorkloadMismatch α) : Prop :=
  ∃ index below, finding.pointer = pointerText (path ++ Nat.toDigits 10 (start + index) :: below) ∧
    ¬Matches (fun first second => leafEq format first second = true)
      (expected[index]?.bind fun item => item.descend below)
      (actual[index]?.bind fun other => other.descend below)

theorem ItemLocated.cons {expected actual : List (Value α)} {path : List (List Char)} {start : Nat}
    {finding : WorkloadMismatch α} {item other : Value α}
    (h : ItemLocated format expected actual path (start + 1) finding) :
    ItemLocated format (item :: expected) (other :: actual) path start finding := by
  obtain ⟨index, below, hpointer, hdiffer⟩ := h
  refine ⟨index + 1, below, ?_, ?_⟩
  · rw [hpointer, Nat.add_assoc, Nat.add_comm 1 index]
  · simpa using hdiffer

theorem surplusItems_located {actual : List (Value α)} {path : List (List Char)} {start : Nat}
    {finding : WorkloadMismatch α}
    (hmem : finding ∈ surplusItems actual (pointerText path) start) :
    ItemLocated format [] actual path start finding := by
  induction actual generalizing start with
  | nil => cases hmem
  | cons other actual ih =>
    rw [surplusItems, List.mem_cons] at hmem
    rcases hmem with rfl | hmem
    · refine ⟨0, [], ?_, ?_⟩
      · rw [childPointer_pointerText, Nat.add_zero]
      · simp [Matches]
    · obtain ⟨index, below, hpointer, hdiffer⟩ := ih hmem
      refine ⟨index + 1, below, ?_, ?_⟩
      · rw [hpointer, Nat.add_assoc, Nat.add_comm 1 index]
      · simpa using hdiffer

theorem compareItems_located {expected actual : List (Value α)} {path : List (List Char)}
    {start : Nat} {finding : WorkloadMismatch α}
    (hitems : ∀ item ∈ expected, ∀ (other : Value α) {path : List (List Char)}, path ≠ [] →
      ComparesWell format item other path)
    (hmem : finding ∈ compareItems format expected actual (pointerText path) start) :
    ItemLocated format expected actual path start finding := by
  induction expected generalizing actual start with
  | nil =>
    rw [compareItems] at hmem
    exact surplusItems_located hmem
  | cons item expected ih =>
    have hrest := fun (item : Value α) (hitem : item ∈ expected) =>
      hitems item (List.mem_cons_of_mem _ hitem)
    cases actual with
    | nil =>
      rw [compareItems, List.mem_cons] at hmem
      rcases hmem with rfl | hmem
      · refine ⟨0, [], ?_, ?_⟩
        · rw [childPointer_pointerText, Nat.add_zero]
        · cases item <;> exact id
      · obtain ⟨index, below, hpointer, hdiffer⟩ := ih hrest hmem
        refine ⟨index + 1, below, ?_, ?_⟩
        · rw [hpointer, Nat.add_assoc, Nat.add_comm 1 index]
        · simpa using hdiffer
    | cons other actual =>
      rw [compareItems, List.mem_append, childPointer_pointerText] at hmem
      rcases hmem with hmem | hmem
      · have hwell : ComparesWell format item other (path ++ [Nat.toDigits 10 start]) :=
          hitems item List.mem_cons_self other (by simp)
        obtain ⟨below, hpointer, hdiffer⟩ := hwell.located finding hmem
        refine ⟨0, below, ?_, ?_⟩
        · rw [hpointer, List.append_assoc, List.singleton_append, Nat.add_zero]
        · simpa using hdiffer
      · exact (ih hrest hmem).cons

theorem surplusItems_eq_nil {actual : List (Value α)} {pointer : List Char} {start : Nat}
    (h : surplusItems actual pointer start = []) : actual = [] := by
  cases actual with
  | nil => rfl
  | cons other actual => cases h

theorem compareItems_complete {expected actual : List (Value α)} {path : List (List Char)}
    {start : Nat}
    (hitems : ∀ item ∈ expected, ∀ (other : Value α) {path : List (List Char)}, path ≠ [] →
      ComparesWell format item other path)
    (h : compareItems format expected actual (pointerText path) start = []) :
    List.Forall₂ (LooksEqual format) expected actual := by
  induction expected generalizing actual start with
  | nil =>
    rw [compareItems] at h
    rw [surplusItems_eq_nil h]
    exact .nil
  | cons item expected ih =>
    cases actual with
    | nil =>
      rw [compareItems] at h
      cases h
    | cons other actual =>
      rw [compareItems, List.append_eq_nil_iff, childPointer_pointerText] at h
      have hwell : ComparesWell format item other (path ++ [Nat.toDigits 10 start]) :=
        hitems item List.mem_cons_self other (by simp)
      exact .cons (hwell.complete h.1)
        (ih (fun item hitem => hitems item (List.mem_cons_of_mem _ hitem)) h.2)

/-- The findings of two lists, when those of their items are well. -/
theorem comparesWell_lists {expected actual : List (Value α)} {path : List (List Char)}
    (hitems : ∀ item ∈ expected, ∀ (other : Value α) {path : List (List Char)}, path ≠ [] →
      ComparesWell format item other path) :
    ComparesWell format (.list expected) (.list actual) path := by
  constructor
  · intro hempty
    rw [compareValue] at hempty
    have hall := compareItems_complete hitems hempty
    refine agree_of_children trivial fun token => ?_
    simp only [child]
    cases readIndex token with
    | none => exact .inl ⟨rfl, rfl⟩
    | some index =>
      simp only [Option.bind_some]
      by_cases hlt : index < expected.length
      · have hlt' : index < actual.length := hall.length_eq ▸ hlt
        refine .inr ⟨expected[index], actual[index], List.getElem?_eq_getElem hlt,
          List.getElem?_eq_getElem hlt', hall.get hlt hlt'⟩
      · have hge : actual.length ≤ index := hall.length_eq ▸ Nat.le_of_not_lt hlt
        exact .inl ⟨List.getElem?_eq_none (Nat.le_of_not_lt hlt), List.getElem?_eq_none hge⟩
  · intro finding hmem
    rw [compareValue] at hmem
    obtain ⟨index, below, hpointer, hdiffer⟩ := compareItems_located hitems hmem
    refine ⟨Nat.toDigits 10 index :: below, ?_, ?_⟩
    · rw [hpointer, Nat.zero_add]
    · rwa [descend_cons, descend_cons, child_list_index, child_list_index]

/-- Findings of values of different kinds. -/
theorem comparesWell_kinds {expected actual : Value α} {path : List (List Char)}
    (hpath : path ≠ [])
    (hfindings : compareValue format expected actual (pointerText path) =
      [⟨if (pointerText path).isEmpty then ['/'] else pointerText path, expected, actual⟩])
    (hkinds : ¬Matches (fun first second => leafEq format first second = true) (some expected)
      (some actual)) : ComparesWell format expected actual path := by
  constructor
  · intro hempty
    rw [hfindings] at hempty
    cases hempty
  · intro finding hmem
    rw [hfindings, List.mem_singleton] at hmem
    refine ⟨[], ?_, hkinds⟩
    rw [hmem, pointerText_isEmpty hpath, List.append_nil]
    rfl

mutual

/-- The comparison of a value finds every place where the other does not look equal, and no other
place. -/
theorem comparesWell : (expected : Value α) → (actual : Value α) → {path : List (List Char)} →
    path ≠ [] → ComparesWell format expected actual path
  | .leaf expected, .leaf actual, path, hpath => by
    by_cases heq : leafEq format expected actual = true
    · have hnil : compareValue format (.leaf expected) (.leaf actual) (pointerText path) = [] := by
        rw [compareValue, if_pos heq]
      refine ⟨fun _ below => ?_, fun finding hmem => ?_⟩
      · cases below with
        | nil => exact heq
        | cons token below => trivial
      · rw [hnil] at hmem
        cases hmem
    · refine comparesWell_kinds hpath ?_ heq
      rw [compareValue, if_neg heq]
  | .leaf _, .list _, _, hpath => comparesWell_kinds hpath rfl id
  | .leaf _, .object _, _, hpath => comparesWell_kinds hpath rfl id
  | .list _, .leaf _, _, hpath => comparesWell_kinds hpath rfl id
  | .list _, .object _, _, hpath => comparesWell_kinds hpath rfl id
  | .object _, .leaf _, _, hpath => comparesWell_kinds hpath rfl id
  | .object _, .list _, _, hpath => comparesWell_kinds hpath rfl id
  | .list expected, .list _, _, _ => comparesWell_lists (comparesWell_items expected)
  | .object expected, .object _, _, _ =>
    comparesWell_objects fun key item other hitem =>
      comparesWell_members expected key item hitem other (by simp)

theorem comparesWell_items : (expected : List (Value α)) → ∀ item ∈ expected,
    ∀ (other : Value α) {path : List (List Char)}, path ≠ [] → ComparesWell format item other path
  | [], _, hitem => absurd hitem List.not_mem_nil
  | item :: expected, next, hnext => (List.mem_cons.mp hnext).elim
      (fun heq other _ hpath => heq ▸ comparesWell item other hpath)
      fun hmem => comparesWell_items expected next hmem

theorem comparesWell_members : (expected : List (String × Value α)) →
    ∀ key item, expected.lookup key = some item → ∀ (other : Value α) {path : List (List Char)},
      path ≠ [] → ComparesWell format item other path
  | [], _, _, hlookup => (by cases hlookup)
  | (held, value) :: expected, key, item, hlookup => by
    intro other path hpath
    by_cases hkey : key = held
    · subst hkey
      rw [List.lookup_cons_self, Option.some.injEq] at hlookup
      exact hlookup ▸ comparesWell value other hpath
    · have hfalse : (key == held) = false := by simpa using hkey
      rw [List.lookup_cons, hfalse] at hlookup
      exact comparesWell_members expected key item hlookup other hpath

end

/-! ## When nothing is found -/

/-- The two values differ, and wherever they do both hold a number or a flag, of one value. -/
structure DifferInSpellingOnly (format : FloatFormat α) (expected actual : Value α) : Prop where
  differ : ∃ path, ¬Matches Eq (expected.descend path) (actual.descend path)
  lookAlike : ∀ path, ¬Matches Eq (expected.descend path) (actual.descend path) →
    ∃ first second, expected.descend path = some (.leaf first) ∧
      actual.descend path = some (.leaf second) ∧
      ∃ value, number? format first = some value ∧ number? format second = some value

theorem leafEq_iff {first second : Scalar α} : leafEq format first second = true ↔
    first = second ∨
      ∃ value, number? format first = some value ∧ number? format second = some value := by
  have hnumbers : ∀ x y : Option Rat,
      (x.any fun x => y.any fun y => x == y) = true ↔ ∃ value, x = some value ∧ y = some value := by
    intro x y
    cases x <;> cases y <;> simp
    exact eq_comm
  have hreduce : ∀ x y : Scalar α, (x = y → ∃ value, number? format x = some value) →
      ((∃ value, number? format x = some value ∧ number? format y = some value) ↔
        x = y ∨ ∃ value, number? format x = some value ∧ number? format y = some value) := by
    intro x y hnumber
    constructor
    · exact .inr
    · rintro (rfl | hsame)
      · obtain ⟨value, hvalue⟩ := hnumber rfl
        exact ⟨value, hvalue, hvalue⟩
      · exact hsame
  match first, second with
  | .null, .null => simp [leafEq]
  | .text first, .text second => simp [leafEq, number?]
  | .null, .flag _ | .null, .whole _ | .null, .float _ | .null, .text _ | .text _, .null
  | .text _, .flag _ | .text _, .whole _ | .text _, .float _ => simp [leafEq, number?]
  | .flag true, y | .flag false, y | .whole _, y | .float _, y =>
    rw [leafEq, hnumbers]
    · exact hreduce _ y fun _ => ⟨_, rfl⟩
    · intro hnull
      cases hnull
    · intro _ _ htext
      cases htext

theorem differInSpellingOnly_iff {expected actual : Value α} :
    DifferInSpellingOnly format expected actual ↔
      LooksEqual format expected actual ∧ ¬Agree Eq expected actual := by
  constructor
  · intro h
    refine ⟨fun path => ?_, fun hagree => ?_⟩
    · by_cases hmatch : Matches Eq (expected.descend path) (actual.descend path)
      · exact hmatch.mono fun x y hxy => leafEq_iff.mpr (.inl hxy)
      · obtain ⟨first, second, hfirst, hsecond, hvalue⟩ := h.lookAlike path hmatch
        rw [hfirst, hsecond]
        exact leafEq_iff.mpr (.inr hvalue)
    · obtain ⟨path, hpath⟩ := h.differ
      exact hpath (hagree path)
  · rintro ⟨hlooks, hdiffer⟩
    refine ⟨not_forall.mp hdiffer, fun path hpath => ?_⟩
    have hhere := hlooks path
    match hfirst : expected.descend path, hsecond : actual.descend path with
    | some (.leaf first), some (.leaf second) =>
      rw [hfirst, hsecond] at hhere hpath
      refine ⟨first, second, rfl, rfl, (leafEq_iff.mp hhere).resolve_left fun heq => ?_⟩
      exact hpath heq
    | none, none | some (.list _), some (.list _) | some (.object _), some (.object _) =>
      rw [hfirst, hsecond] at hpath
      exact absurd trivial hpath
    | none, some _ | some (.leaf _), none | some (.list _), none | some (.object _), none
    | some (.leaf _), some (.list _) | some (.leaf _), some (.object _)
    | some (.list _), some (.leaf _) | some (.list _), some (.object _)
    | some (.object _), some (.leaf _) | some (.object _), some (.list _) =>
      rw [hfirst, hsecond] at hhere
      exact hhere.elim

/-! ## Resuming -/

/-- What a comparison of two manifests is for: it finds nothing exactly when their identity parts
have the same canonical bytes, exactly when their workload fingerprints are the same unless the
digests collide, and each finding points at a difference. -/
structure ComparesExactly (format : FloatFormat α) (expected current : Manifest α) : Prop where
  bytes : compareManifests format expected current = [] ↔
    canonicalJsonBytes format (identityDocument expected) =
      canonicalJsonBytes format (identityDocument current)
  fingerprints : ∀ sha256 : List UInt8 → String,
    (sha256 (digestedBytes format (fingerprintedDocument expected)) =
        sha256 (digestedBytes format (fingerprintedDocument current)) →
      digestedBytes format (fingerprintedDocument expected) =
        digestedBytes format (fingerprintedDocument current)) →
    (compareManifests format expected current = [] ↔
      workloadSha256 format sha256 expected = workloadSha256 format sha256 current)
  pointers : ∀ finding ∈ compareManifests format expected current,
    DifferAt (identityDocument expected) (identityDocument current) finding.pointer

theorem members_keyed {document : List (String × Value α)} (hkeyed : Keyed (.object document))
    {keys : List String} (hkeys : keys.Nodup) : Keyed (members document keys) := by
  constructor
  · have hsub : ((keys.filterMap fun key =>
        (document.lookup key).map fun value => (key, value)).map Prod.fst).Sublist keys := by
      induction keys with
      | nil => exact List.Sublist.refl _
      | cons key keys ih =>
        have hrest := ih (List.nodup_cons.mp hkeys).2
        cases hlookup : document.lookup key with
        | none =>
          rw [List.filterMap_cons_none (by rw [hlookup, Option.map_none])]
          exact hrest.trans (List.sublist_cons_self _ _)
        | some value =>
          rw [List.filterMap_cons_some (by rw [hlookup, Option.map_some])]
          exact hrest.cons_cons key
    exact hsub.nodup hkeys
  · induction keys with
    | nil => trivial
    | cons key keys ih =>
      have hrest := ih (List.nodup_cons.mp hkeys).2
      cases hlookup : document.lookup key with
      | none => rwa [List.filterMap_cons_none (by rw [hlookup, Option.map_none])]
      | some value =>
        rw [List.filterMap_cons_some (by rw [hlookup, Option.map_some])]
        exact ⟨keyed_of_lookup hkeyed.2 hlookup, hrest⟩

theorem members_child (document : List (String × Value α)) (keys : List String)
    (token : List Char) : (members document keys).child token =
      if String.ofList token ∈ keys then document.lookup (String.ofList token) else none :=
  lookup_filterMap_keys document keys (String.ofList token)

/-- The schema is the same in every manifest, so the other members decide. -/
theorem agree_identity_iff {expected current : Manifest α} :
    Agree Eq (identityDocument expected) (identityDocument current) ↔
      Agree Eq (fingerprintedDocument expected) (fingerprintedDocument current) := by
  have hmem : ∀ key, key ∈ identityFields ↔ key = "$schema" ∨ key ∈ identityFields.drop 1 := by
    intro key
    simp [identityFields]
  constructor
  · intro h
    refine agree_of_children trivial fun token => ?_
    have hchild := h.child token
    rw [identityDocument, identityDocument, members_child, members_child] at hchild
    rw [fingerprintedDocument, fingerprintedDocument, members_child, members_child]
    by_cases hkey : String.ofList token ∈ identityFields.drop 1
    · rw [if_pos ((hmem _).mpr (.inr hkey)), if_pos ((hmem _).mpr (.inr hkey))] at hchild
      rwa [if_pos hkey, if_pos hkey]
    · rw [if_neg hkey, if_neg hkey]
      exact .inl ⟨rfl, rfl⟩
  · intro h
    refine agree_of_children trivial fun token => ?_
    have hchild := h.child token
    rw [fingerprintedDocument, fingerprintedDocument, members_child, members_child] at hchild
    rw [identityDocument, identityDocument, members_child, members_child]
    by_cases hschema : String.ofList token = "$schema"
    · rw [hschema, if_pos (by decide), if_pos (by decide), expected.schema, current.schema]
      refine .inr ⟨_, _, rfl, rfl, fun path => ?_⟩
      cases path with
      | nil => rfl
      | cons next path => trivial
    · by_cases hkey : String.ofList token ∈ identityFields.drop 1
      · rw [if_pos hkey, if_pos hkey] at hchild
        rwa [if_pos ((hmem _).mpr (.inr hkey)), if_pos ((hmem _).mpr (.inr hkey))]
      · have hnot : String.ofList token ∉ identityFields := fun hin =>
          ((hmem _).mp hin).elim hschema hkey
        rw [if_neg hnot, if_neg hnot]
        exact .inl ⟨rfl, rfl⟩

/-- An object's text ends with its brace. -/
theorem exists_dumpFields (fields : List (String × Value α)) :
    ∃ front, dumpFields format fields = front ++ [closeBrace] := by
  induction fields with
  | nil => exact ⟨[], rfl⟩
  | cons field fields ih =>
    obtain ⟨key, value⟩ := field
    obtain ⟨front, hfront⟩ := ih
    refine ⟨',' :: (quoted key.toList ++ ':' :: (dump format value ++ front)), ?_⟩
    rw [dumpFields, hfront]
    simp

theorem exists_dump_object (fields : List (String × Value α)) :
    ∃ front, dump format (.object fields) = front ++ [closeBrace] := by
  cases fields with
  | nil => exact ⟨[openBrace], rfl⟩
  | cons field fields =>
    obtain ⟨key, value⟩ := field
    obtain ⟨front, hfront⟩ : ∃ front, dumpFields format fields = front ++ [closeBrace] :=
      exists_dumpFields fields
    refine ⟨openBrace :: (quoted key.toList ++ ':' :: (dump format value ++ front)), ?_⟩
    rw [dump, hfront]
    simp

/-- What is digested of an object is its text. -/
theorem digestedBytes_fingerprinted (manifest : Manifest α) :
    digestedBytes format (fingerprintedDocument manifest) =
      utf8 (canonicalText format (fingerprintedDocument manifest)) := by
  obtain ⟨front, hfront⟩ : ∃ front,
      canonicalText format (fingerprintedDocument manifest) = front ++ [closeBrace] :=
    exists_dump_object _
  have hbrace : utf8 [closeBrace] = [125] := by decide
  rw [digestedBytes, canonicalJsonBytes, hfront, utf8_append, hbrace]
  simp [newline]

/-- Nothing is found exactly when the identity parts look equal. -/
theorem compareManifests_eq_nil_iff {expected current : Manifest α} :
    compareManifests format expected current = [] ↔
      LooksEqual format (identityDocument expected) (identityDocument current) := by
  have hwell : ComparesWell format (identityDocument expected) (identityDocument current) [] :=
    comparesWell_objects fun key item other hitem =>
      comparesWell_members _ key item hitem other (by simp)
  constructor
  · exact hwell.complete
  · intro hlooks
    refine List.eq_nil_iff_forall_not_mem.mpr fun finding hmem => ?_
    obtain ⟨below, -, hdiffer⟩ := hwell.located finding hmem
    exact hdiffer (hlooks below)

theorem compareManifests_located {expected current : Manifest α} :
    ∀ finding ∈ compareManifests format expected current,
      DifferAt (identityDocument expected) (identityDocument current) finding.pointer := by
  have hwell : ComparesWell format (identityDocument expected) (identityDocument current) [] :=
    comparesWell_objects fun key item other hitem =>
      comparesWell_members _ key item hitem other (by simp)
  intro finding hmem
  obtain ⟨below, hpointer, hdiffer⟩ := hwell.located finding hmem
  rw [DifferAt, hpointer, List.nil_append, resolve_pointerText, resolve_pointerText]
  exact fun heq => hdiffer (heq.mono fun x y hxy => leafEq_iff.mpr (.inl hxy))

/-- A comparison is exact unless the identity parts differ in the spelling of numbers only. -/
theorem compare_exact_iff (format : FloatFormat α) (expected current : Manifest α) :
    ComparesExactly format expected current ↔
      ¬DifferInSpellingOnly format (identityDocument expected) (identityDocument current) := by
  have hkeyed : ∀ manifest : Manifest α, Keyed (identityDocument manifest) := fun manifest =>
    members_keyed manifest.keyed (by decide)
  have hrest : ∀ manifest : Manifest α, Keyed (fingerprintedDocument manifest) := fun manifest =>
    members_keyed manifest.keyed (by decide)
  rw [differInSpellingOnly_iff]
  constructor
  · rintro h ⟨hlooks, hdiffer⟩
    have hbytes := h.bytes.mp (compareManifests_eq_nil_iff.mpr hlooks)
    exact hdiffer ((canonicalJsonBytes_eq_iff (hkeyed _) (hkeyed _)).mp hbytes)
  · intro h
    have hnil : compareManifests format expected current = [] ↔
        Agree Eq (identityDocument expected) (identityDocument current) := by
      rw [compareManifests_eq_nil_iff]
      constructor
      · intro hlooks
        by_contra hdiffer
        exact h ⟨hlooks, hdiffer⟩
      · exact fun hagree => hagree.mono fun x y hxy => leafEq_iff.mpr (.inl hxy)
    refine ⟨?_, fun sha256 hinjective => ?_, compareManifests_located⟩
    · rw [hnil, canonicalJsonBytes_eq_iff (hkeyed _) (hkeyed _)]
    · have hbytes : digestedBytes format (fingerprintedDocument expected) =
          digestedBytes format (fingerprintedDocument current) ↔
            Agree Eq (fingerprintedDocument expected) (fingerprintedDocument current) := by
        rw [digestedBytes_fingerprinted, digestedBytes_fingerprinted,
          ← canonicalText_eq_iff (hrest _) (hrest _)]
        exact ⟨utf8_inj, congrArg _⟩
      rw [hnil, agree_identity_iff, ← hbytes, workloadSha256, workloadSha256, canonicalSha256,
        canonicalSha256]
      constructor
      · intro hsame
        rw [hsame]
      · intro hdigest
        exact hinjective (String.append_right_inj _ |>.mp hdigest)

/-- A manifest of no work item whose Target has one parameter. -/
def parameterFields (parameter : Scalar Bool) : List (String × Value Bool) :=
  let text (value : String) : Value Bool := .leaf (.text value)
  let digest := text ("sha256:" ++ String.ofList (List.replicate 64 '0'))
  [("$schema", text manifestSchema), ("campaign_id", text "6a204bd8-9d2f-4b5e-8c3a-0f1e2d3c4b5a"),
    ("created_at", text "2026-01-01T00:00:00Z"),
    ("origin", .object [("execution_id", text ""), ("invocation_id", .leaf (.whole 1))]),
    ("target", .object [("vlnv", text "::soc:0"), ("name", text "sim"),
      ("selector", text "soc:sim"),
      ("project_identity", text "soc"), ("revision", text "HEAD"), ("role", text "candidate"),
      ("display_name", text "")]),
    ("workload", .object [("trace", .leaf (.flag false)), ("coverage", .leaf (.flag false)),
      ("eda", .object [("kind", text "verilator"), ("version", text "5.0")]),
      ("adapter_contract_version", text "1"),
      ("run_cwd", .object [("configured", text "run"), ("kind", text "literal")]),
      ("source_recipe", .object [("parameters",
        .list [.object [("name", text "WIDTH"), ("value", .leaf parameter)]])])]),
    ("required_suite", .object [("default_invocation", .leaf (.flag true)), ("names", .list [])]),
    ("build_variants", .list []), ("planning_disclosures", .list []), ("prerequisites", .list []),
    ("work_items", .list []),
    ("fingerprints", .object [("workload_sha256", digest), ("target_recipe_sha256", digest),
      ("source_closures_sha256", digest), ("required_suite_sha256", digest),
      ("planning_disclosures_sha256", digest), ("prerequisites_sha256", digest),
      ("work_items_sha256", digest)])]

def parameterManifest (parameter : Scalar Bool) : Manifest Bool where
  document := parameterFields parameter
  keyed := by simp [parameterFields, Keyed, KeyedFields, KeyedItems]
  fields key := by simp [parameterFields, manifestFields]
  schema := rfl

/-- The parameter's value is the flag `true` in one manifest and the number 1 in the other. -/
theorem not_compare_exact_flag : ¬∀ expected current : Manifest Bool,
    ComparesExactly halves expected current := by
  intro h
  have hexact := h (parameterManifest (.flag true)) (parameterManifest (.whole 1))
  have hkeyed : ∀ parameter, Keyed (identityDocument (parameterManifest parameter)) :=
    fun parameter => members_keyed (parameterManifest parameter).keyed (by decide)
  have hagree := (canonicalJsonBytes_eq_iff (hkeyed _) (hkeyed _)).mp (hexact.bytes.mp rfl)
  have hvalue : (Scalar.flag true : Scalar Bool) = .whole 1 :=
    hagree ["workload".toList, "source_recipe".toList, "parameters".toList, "0".toList,
      "value".toList]
  cases hvalue

end Booley.Campaigns
