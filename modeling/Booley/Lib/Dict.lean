import Booley.Lib.Except
import Mathlib.Algebra.BigOperators.Group.Finset.Basic
import Mathlib.Data.List.AList
import Mathlib.Tactic.Common

/-!
# Insertion-ordered dictionaries

The order-keeping removal of repeats, dictionaries held as lists of entries, and
dictionaries whose keys are distinct by construction.
-/
namespace Booley.Lib

universe u
variable {α κ ν : Type u}

/-- The distinct elements of a list, each at its first position. -/
def distinct [DecidableEq α] : List α → List α
  | [] => []
  | x :: xs => x :: (distinct xs).filter (· ≠ x)

@[simp] theorem mem_distinct [DecidableEq α] {xs : List α} {x : α} :
    x ∈ distinct xs ↔ x ∈ xs := by
  induction xs with
  | nil => simp [distinct]
  | cons y ys ih =>
    by_cases hx : x = y
    · simp [distinct, hx]
    · simp [distinct, hx, ih]

theorem distinct_nodup [DecidableEq α] (xs : List α) : (distinct xs).Nodup := by
  induction xs with
  | nil => simp [distinct]
  | cons y ys ih =>
    rw [distinct, List.nodup_cons]
    exact ⟨by simp, ih.filter _⟩

theorem length_distinct_le [DecidableEq α] (xs : List α) : (distinct xs).length ≤ xs.length := by
  induction xs with
  | nil => simp [distinct]
  | cons x xs ih =>
    have hfilter := List.length_filter_le (· ≠ x) (distinct xs)
    simp only [distinct, List.length_cons]
    omega

/-- A list that loses nothing when its repeats are removed has none. -/
theorem nodup_of_length_distinct [DecidableEq α] {xs : List α}
    (h : (distinct xs).length = xs.length) : xs.Nodup := by
  induction xs with
  | nil => exact List.nodup_nil
  | cons x xs ih =>
    have hfilter := List.length_filter_le (· ≠ x) (distinct xs)
    have hdistinct := length_distinct_le xs
    simp only [distinct, List.length_cons] at h
    refine List.nodup_cons.mpr ⟨?_, ih (by omega)⟩
    intro hmem
    have hlength : ((distinct xs).filter (· ≠ x)).length = (distinct xs).length := by omega
    have hall := List.length_filter_eq_length_iff.mp hlength
    simpa using hall x (mem_distinct.mpr hmem)

/-- At most one distinct element is left exactly when all elements are equal. -/
theorem length_distinct_le_one_iff [DecidableEq α] {xs : List α} :
    (distinct xs).length ≤ 1 ↔ ∀ x ∈ xs, ∀ y ∈ xs, x = y := by
  constructor
  · intro h x hx y hy
    have hx' := mem_distinct.mpr hx
    have hy' := mem_distinct.mpr hy
    cases hdistinct : distinct xs with
    | nil => simp [hdistinct] at hx'
    | cons only rest =>
      rw [hdistinct, List.length_cons] at h
      obtain rfl : rest = [] := List.eq_nil_of_length_eq_zero (by omega)
      rw [hdistinct, List.mem_singleton] at hx' hy'
      rw [hx', hy']
  · intro h
    have hnodup := distinct_nodup xs
    cases hdistinct : distinct xs with
    | nil => simp
    | cons first rest =>
      cases rest with
      | nil => simp
      | cons second rest =>
        rw [hdistinct] at hnodup
        have hfirst : first ∈ xs := mem_distinct.mp (by simp [hdistinct])
        have hsecond : second ∈ xs := mem_distinct.mp (by simp [hdistinct])
        have hne : first ≠ second := by
          intro heq
          simp [heq] at hnodup
        exact absurd (h first hfirst second hsecond) hne

theorem distinct_perm [DecidableEq α] {xs ys : List α} (h : ∀ x, x ∈ xs ↔ x ∈ ys) :
    (distinct xs).Perm (distinct ys) :=
  (List.perm_ext_iff_of_nodup (distinct_nodup xs) (distinct_nodup ys)).mpr fun x => by
    rw [mem_distinct, mem_distinct, h]

/-- Assignment to a key of a dictionary held as a list of entries. -/
def setItem [BEq κ] (dict : List (κ × ν)) (key : κ) (value : ν) : List (κ × ν) :=
  if (dict.lookup key).isSome then
    dict.map fun entry => if entry.1 == key then (key, value) else entry
  else dict ++ [(key, value)]

theorem mem_setItem [BEq κ] [LawfulBEq κ] {dict : List (κ × ν)} {key : κ} {value : ν}
    {entry : κ × ν} (h : entry ∈ setItem dict key value) :
    entry = (key, value) ∨ entry ∈ dict := by
  unfold setItem at h
  split at h
  · obtain ⟨other, hother, heq⟩ := List.mem_map.mp h
    by_cases hkey : (other.1 == key) = true
    · rw [if_pos hkey] at heq
      exact .inl heq.symm
    · rw [if_neg hkey] at heq
      exact .inr (heq ▸ hother)
  · rcases List.mem_append.mp h with hold | hnew
    · exact .inr hold
    · exact .inl (List.mem_singleton.mp hnew)

/-- Every entry of a dictionary filled from items was put there for an item. -/
theorem mem_foldl_setItem [BEq κ] [LawfulBEq κ] {key : ν → κ} {items : List ν}
    {dict : List (κ × ν)} {entry : κ × ν}
    (h : entry ∈ items.foldl (fun dict item => setItem dict (key item) item) dict) :
    (entry.2 ∈ items ∧ entry.1 = key entry.2) ∨ entry ∈ dict := by
  induction items generalizing dict with
  | nil => exact .inr h
  | cons item rest ih =>
    rcases ih h with ⟨hmem, hkey⟩ | hdict
    · exact .inl ⟨List.mem_cons_of_mem _ hmem, hkey⟩
    · rcases mem_setItem hdict with hnew | hold
      · rw [hnew]
        exact .inl ⟨List.mem_cons_self, rfl⟩
      · exact .inr hold

/-- Items of distinct keys are all kept, in their order. -/
theorem foldl_setItem [BEq κ] [LawfulBEq κ] {key : ν → κ} {items : List ν}
    (h : (items.map key).Nodup) (dict : List (κ × ν))
    (hnew : ∀ item ∈ items, ∀ entry ∈ dict, entry.1 ≠ key item) :
    items.foldl (fun dict item => setItem dict (key item) item) dict =
      dict ++ items.map fun item => (key item, item) := by
  induction items generalizing dict with
  | nil => simp
  | cons item rest ih =>
    obtain ⟨hfresh, hrest⟩ := List.nodup_cons.mp h
    have hnone : dict.lookup (key item) = none := by
      rw [List.lookup_eq_none_iff]
      intro entry hentry
      simpa using fun heq => hnew item List.mem_cons_self entry hentry (eq_of_beq heq).symm
    have hset : setItem dict (key item) item = dict ++ [(key item, item)] := by
      rw [setItem, hnone]
      rfl
    rw [List.foldl_cons, hset, ih hrest]
    · simp
    · intro other hother entry hentry
      rcases List.mem_append.mp hentry with hold | hlast
      · exact hnew other (List.mem_cons_of_mem _ hother) entry hold
      · rw [List.mem_singleton.mp hlast]
        intro heq
        exact hfresh (List.mem_map.mpr ⟨other, hother, heq.symm⟩)

/-- Replacing the value of a key in place. -/
theorem lookup_replaced [BEq κ] [LawfulBEq κ] (dict : List (κ × ν)) (key other : κ) (value : ν) :
    (dict.map fun entry => if entry.1 == key then (key, value) else entry).lookup other =
      if other == key then (dict.lookup key).map fun _ => value else dict.lookup other := by
  induction dict with
  | nil => simp
  | cons entry rest ih =>
    obtain ⟨first, old⟩ := entry
    rw [List.map_cons]
    by_cases hfirst : first = key
    · subst hfirst
      rw [if_pos (beq_self_eq_true first), List.lookup_cons, ih]
      cases hother : other == first <;> simp [List.lookup_cons, hother]
    · have hne : (first == key) = false := by simpa using hfirst
      have hne' : (key == first) = false := by simpa using Ne.symm hfirst
      rw [if_neg (by simp [hne]), List.lookup_cons, ih]
      cases hother : other == first with
      | true =>
        obtain rfl : other = first := eq_of_beq hother
        simp [hne]
      | false => simp [List.lookup_cons, hother, hne']

theorem lookup_setItem [BEq κ] [LawfulBEq κ] (dict : List (κ × ν)) (key other : κ) (value : ν) :
    (setItem dict key value).lookup other =
      if other == key then some value else dict.lookup other := by
  unfold setItem
  split
  next hfound =>
    obtain ⟨old, hold⟩ := Option.isSome_iff_exists.mp hfound
    rw [lookup_replaced, hold]
    rfl
  next hmissing =>
    rw [Bool.not_eq_true, Option.isSome_eq_false_iff, Option.isNone_iff_eq_none] at hmissing
    rw [List.lookup_append]
    cases hother : other == key with
    | true =>
      obtain rfl : other = key := eq_of_beq hother
      simp [hmissing]
    | false => simp [hother, List.lookup_cons]

/-- The last of the items of a key is what a dictionary filled from them holds. -/
theorem lookup_foldl_setItem {α : Type*} [BEq κ] [LawfulBEq κ] (key : α → κ) (value : α → ν)
    (items : List α) (dict : List (κ × ν)) (other : κ) :
    (items.foldl (fun dict item => setItem dict (key item) (value item)) dict).lookup other =
      ((items.filter fun item => other == key item).getLast?.map value).or
        (dict.lookup other) := by
  induction items generalizing dict with
  | nil => simp
  | cons item rest ih =>
    rw [List.foldl_cons, ih, lookup_setItem, List.filter_cons]
    cases hother : other == key item with
    | true =>
      rw [if_pos rfl, if_pos rfl, List.getLast?_cons]
      cases (rest.filter fun item => other == key item).getLast? <;> simp
    | false => rw [if_neg Bool.false_ne_true, if_neg Bool.false_ne_true]

theorem keys_setItem [BEq κ] [LawfulBEq κ] (dict : List (κ × ν)) (key : κ) (value : ν) :
    (setItem dict key value).map (·.1) =
      if (dict.lookup key).isSome then dict.map (·.1) else dict.map (·.1) ++ [key] := by
  unfold setItem
  split
  · rw [List.map_map]
    refine List.map_congr_left fun entry _ => ?_
    by_cases hkey : entry.1 = key <;> simp [hkey]
  · simp

theorem nodup_foldl_setItem {α : Type*} [BEq κ] [LawfulBEq κ] (key : α → κ) (value : α → ν)
    (items : List α) {dict : List (κ × ν)} (h : (dict.map (·.1)).Nodup) :
    ((items.foldl (fun dict item => setItem dict (key item) (value item)) dict).map
      (·.1)).Nodup := by
  induction items generalizing dict with
  | nil => exact h
  | cons item rest ih =>
    refine ih ?_
    rw [keys_setItem]
    split
    · exact h
    next hmissing =>
      refine List.nodup_append.mpr ⟨h, List.nodup_singleton _, ?_⟩
      rintro first hfirst other hother rfl
      rw [List.mem_singleton] at hother
      obtain ⟨entry, hentry, rfl⟩ := List.mem_map.mp hfirst
      exact hmissing (List.lookup_isSome_iff.mpr ⟨entry, hentry, by simp [hother]⟩)

/-- The entries of some of the keys, after an assignment. -/
theorem filter_setItem [BEq κ] [LawfulBEq κ] (kept : κ → Bool) (dict : List (κ × ν)) (key : κ)
    (value : ν) :
    (setItem dict key value).filter (kept ·.1) =
      if kept key then setItem (dict.filter (kept ·.1)) key value
      else dict.filter (kept ·.1) := by
  have hreplaced : (dict.map fun entry => if entry.1 == key then (key, value) else entry).filter
      (kept ·.1) = (dict.filter (kept ·.1)).map fun entry =>
        if entry.1 == key then (key, value) else entry := by
    rw [List.filter_map]
    congr 1
    refine List.filter_congr fun entry _ => ?_
    by_cases hentry : entry.1 = key <;> simp [hentry]
  cases hkept : kept key with
  | true =>
    have hlookup : (dict.filter (kept ·.1)).lookup key = dict.lookup key := by
      clear hreplaced
      induction dict with
      | nil => rfl
      | cons entry rest ih =>
        by_cases hentry : entry.1 = key
        · obtain ⟨first, old⟩ := entry
          obtain rfl : first = key := hentry
          simp [hkept]
        · obtain ⟨first, old⟩ := entry
          have hne : (key == first) = false := by simpa using Ne.symm hentry
          rw [List.filter_cons, List.lookup_cons, hne]
          split
          · rw [List.lookup_cons, hne, ih]
          · exact ih
    rw [if_pos rfl, setItem, setItem, hlookup]
    split
    · exact hreplaced
    · simp [hkept]
  | false =>
    rw [if_neg Bool.false_ne_true, setItem]
    split
    · rw [hreplaced]
      refine (List.map_congr_left fun entry hentry => ?_).trans (List.map_id _)
      have hother : ¬ (entry.1 == key) = true := fun heq => by
        have := (List.mem_filter.mp hentry).2
        rw [eq_of_beq heq, hkept] at this
        cases this
      rw [if_neg hother]
      rfl
    · simp [hkept]

/-- The entries of keys that no two items share are those of the items, in their order. -/
theorem filter_foldl_setItem [BEq κ] [LawfulBEq κ] {key : ν → κ} {kept : κ → Bool}
    {items : List ν} (h : ((items.filter fun item => kept (key item)).map key).Nodup) :
    (items.foldl (fun dict item => setItem dict (key item) item) []).filter (kept ·.1) =
      (items.filter fun item => kept (key item)).map fun item => (key item, item) := by
  have hfold : ∀ (items : List ν) (dict : List (κ × ν)),
      (items.foldl (fun dict item => setItem dict (key item) item) dict).filter (kept ·.1) =
        (items.filter fun item => kept (key item)).foldl
          (fun dict item => setItem dict (key item) item) (dict.filter (kept ·.1)) := by
    intro items
    induction items with
    | nil => exact fun _ => rfl
    | cons item rest ih =>
      intro dict
      rw [List.foldl_cons, ih, filter_setItem, List.filter_cons]
      split <;> rfl
  rw [hfold, List.filter_nil, foldl_setItem h [] (fun _ _ _ hentry => by cases hentry),
    List.nil_append]

/-- Assignment to a key that is not there yet; a key that is there keeps its value. -/
def setDefault [BEq κ] (dict : List (κ × ν)) (key : κ) (value : ν) : List (κ × ν) :=
  if (dict.lookup key).isSome then dict else dict ++ [(key, value)]

theorem mem_foldl_setDefault {α : Type*} [BEq κ] {key : α → κ} {value : α → ν} {items : List α}
    {dict : List (κ × ν)} {entry : κ × ν}
    (h : entry ∈ items.foldl (fun dict item => setDefault dict (key item) (value item)) dict) :
    entry ∈ dict ∨ ∃ item ∈ items, (key item, value item) = entry := by
  induction items generalizing dict with
  | nil => exact .inl h
  | cons item items ih =>
    rcases ih h with h | ⟨later, hlater, heq⟩
    · dsimp only [setDefault] at h
      split at h
      · exact .inl h
      · rcases List.mem_append.mp h with h | h
        · exact .inl h
        · exact .inr ⟨item, List.mem_cons_self, (List.mem_singleton.mp h).symm⟩
    · exact .inr ⟨later, List.mem_cons_of_mem _ hlater, heq⟩

/-- A dictionary: each key once. -/
abbrev Dict (κ ν : Type u) := AList fun _ : κ => ν

namespace Dict

variable [DecidableEq κ]

instance [DecidableEq ν] : DecidableEq (Dict κ ν) := fun a b =>
  decidable_of_iff (a.entries = b.entries) AList.ext_iff.symm

/-- Replace what a key holds, if anything, by a function of it. -/
def alter (dict : Dict κ ν) (key : κ) (f : Option ν → Option ν) : Dict κ ν :=
  match f (dict.lookup key) with
  | some value => dict.insert key value
  | none => dict.erase key

theorem lookup_alter (dict : Dict κ ν) (key other : κ) (f : Option ν → Option ν) :
    (alter dict key f).lookup other =
      if other = key then f (dict.lookup key) else dict.lookup other := by
  by_cases h : other = key
  · subst h
    unfold alter
    cases hf : f (dict.lookup other) with
    | none => simp
    | some value => simp
  · unfold alter
    cases hf : f (dict.lookup key) with
    | none => simp [AList.lookup_erase_ne h, h]
    | some value => simp [AList.lookup_insert_ne h, h]

/-- Altering distinct keys one after the other alters each of them once. -/
theorem lookup_foldl_alter (f : κ → Option ν → Option ν) (keys : List κ) (hkeys : keys.Nodup)
    (dict : Dict κ ν) (key : κ) :
    (keys.foldl (fun dict key => alter dict key (f key)) dict).lookup key =
      if key ∈ keys then f key (dict.lookup key) else dict.lookup key := by
  induction keys generalizing dict with
  | nil => simp
  | cons first rest ih =>
    obtain ⟨hfirst, hrest⟩ := List.nodup_cons.mp hkeys
    rw [List.foldl_cons, ih hrest, lookup_alter]
    by_cases hkey : key = first
    · subst hkey
      simp [hfirst]
    · simp [hkey]

/-- Inserting entries one after the other: the last entry of a key is what it holds. -/
theorem lookup_foldl_insert {α : Type*} (key : α → κ) (value : α → ν) (items : List α)
    (dict : Dict κ ν) (k : κ) :
    (items.foldl (fun dict item => dict.insert (key item) (value item)) dict).lookup k =
      ((items.reverse.find? (key · = k)).map value).or (dict.lookup k) := by
  induction items generalizing dict with
  | nil => simp
  | cons item rest ih =>
    rw [List.foldl_cons, ih, List.reverse_cons, List.find?_append]
    cases hrest : rest.reverse.find? (key · = k) with
    | some found => simp
    | none =>
      by_cases hk : key item = k
      · subst hk
        simp
      · simp [hk, AList.lookup_insert_ne (Ne.symm hk)]

theorem lookup_eq_none_iff {dict : Dict κ ν} {key : κ} :
    dict.lookup key = none ↔ key ∉ dict.keys := by
  rw [AList.lookup_eq_none, AList.mem_keys]

theorem lookup_eq_some_iff {dict : Dict κ ν} {key : κ} {value : ν} :
    dict.lookup key = some value ↔ ⟨key, value⟩ ∈ dict.entries :=
  AList.mem_lookup_iff

/-- A dictionary of the same keys, its values computed from the entries. -/
def mapValues {μ : Type u} (f : κ → ν → μ) (dict : Dict κ ν) : Dict κ μ :=
  dict.entries.foldl (fun result entry => result.insert entry.1 (f entry.1 entry.2)) ∅

theorem lookup_mapValues {μ : Type u} (f : κ → ν → μ) (dict : Dict κ ν) (key : κ) :
    (mapValues f dict).lookup key = (dict.lookup key).map (f key) := by
  have hfold := lookup_foldl_insert (fun entry : Sigma fun _ : κ => ν => entry.1)
    (fun entry => f entry.1 entry.2) dict.entries ∅ key
  rw [AList.lookup_empty, Option.or_none] at hfold
  rw [mapValues, hfold]
  cases hlookup : dict.lookup key with
  | none =>
    have hmissing : dict.entries.reverse.find? (·.1 = key) = none := by
      rw [List.find?_eq_none]
      intro entry hentry heq
      have hkey := lookup_eq_some_iff.mpr (List.mem_reverse.mp hentry)
      rw [of_decide_eq_true heq, hlookup] at hkey
      cases hkey
    rw [hmissing]
    rfl
  | some value =>
    have hmem : (⟨key, value⟩ : Sigma fun _ : κ => ν) ∈ dict.entries.reverse :=
      List.mem_reverse.mpr (lookup_eq_some_iff.mp hlookup)
    have hsome : (dict.entries.reverse.find? (·.1 = key)).isSome :=
      List.find?_isSome.mpr ⟨_, hmem, by simp⟩
    obtain ⟨found, hfound⟩ := Option.isSome_iff_exists.mp hsome
    obtain ⟨first, other⟩ := found
    obtain rfl : first = key := by simpa using List.find?_some hfound
    have hother := lookup_eq_some_iff.mpr
      (List.mem_reverse.mp (List.mem_of_find?_eq_some hfound))
    rw [hlookup] at hother
    rw [hfound, Option.some.inj hother]
    rfl

/-- Equality of dictionaries whatever the order of their entries. -/
def sameAs [DecidableEq ν] (dict other : Dict κ ν) : Bool :=
  dict.entries.all (fun entry => other.lookup entry.1 = some entry.2) &&
    other.entries.all (fun entry => dict.lookup entry.1 = some entry.2)

theorem sameAs_iff [DecidableEq ν] {dict other : Dict κ ν} :
    sameAs dict other = true ↔ ∀ key, dict.lookup key = other.lookup key := by
  simp only [sameAs, Bool.and_eq_true, List.all_eq_true, decide_eq_true_eq]
  constructor
  · rintro ⟨hleft, hright⟩ key
    apply Option.ext
    intro value
    constructor
    · intro hvalue
      exact hleft ⟨key, value⟩ (lookup_eq_some_iff.mp hvalue)
    · intro hvalue
      exact hright ⟨key, value⟩ (lookup_eq_some_iff.mp hvalue)
  · intro h
    constructor
    · rintro ⟨key, value⟩ hentry
      rw [← h key]
      exact lookup_eq_some_iff.mpr hentry
    · rintro ⟨key, value⟩ hentry
      rw [h key]
      exact lookup_eq_some_iff.mpr hentry

/-- The values of a dictionary add up over any distinct keys that cover its own. -/
theorem sum_values {κ μ : Type} [DecidableEq κ] [AddCommMonoid μ] {dict : Dict κ μ} {keys : List κ}
    (hnodup : keys.Nodup) (hcover : ∀ key ∈ dict.keys, key ∈ keys) :
    (dict.entries.map (·.2)).sum = (keys.map fun key => (dict.lookup key).getD 0).sum := by
  have hentries : dict.entries.map (·.2) = dict.keys.map fun key => (dict.lookup key).getD 0 := by
    rw [AList.keys, List.keys, List.map_map]
    apply List.map_congr_left
    intro entry hentry
    have hlookup := lookup_eq_some_iff.mpr (show ⟨entry.1, entry.2⟩ ∈ dict.entries from hentry)
    rw [Function.comp_apply, hlookup, Option.getD_some]
  rw [hentries, ← List.sum_toFinset _ hnodup, ← List.sum_toFinset _ dict.keys_nodup]
  apply Finset.sum_subset
  · intro key hkey
    exact List.mem_toFinset.mpr (hcover key (List.mem_toFinset.mp hkey))
  · intro key _ hfree
    have hnone := lookup_eq_none_iff.mpr fun hmem => hfree (List.mem_toFinset.mpr hmem)
    rw [hnone, Option.getD_none]

/-! ## Values put through a function that may fail -/

variable {ε μ : Type u} {f : κ → ν → Except ε μ}

/-- One entry with its value put through a function that may fail. -/
def mapEntry (f : κ → ν → Except ε μ) (entry : Sigma fun _ : κ => ν) :
    Except ε (Sigma fun _ : κ => μ) :=
  (fun value => ⟨entry.1, value⟩) <$> f entry.1 entry.2

omit [DecidableEq κ] in
theorem keys_mapM {entries : List (Sigma fun _ : κ => ν)} {mapped : List (Sigma fun _ : κ => μ)}
    (h : entries.mapM (mapEntry f) = .ok mapped) : mapped.keys = entries.keys := by
  induction entries generalizing mapped with
  | nil =>
    obtain rfl : [] = mapped := by simpa [pure, Except.pure] using h
    rfl
  | cons entry rest ih =>
    rw [List.mapM_cons] at h
    obtain ⟨first, hfirst, h⟩ := except_bind_eq_ok.mp h
    obtain ⟨others, hrest, h⟩ := except_bind_eq_ok.mp h
    obtain rfl : first :: others = mapped := by simpa [pure, Except.pure] using h
    obtain ⟨value, -, rfl⟩ := except_map_eq_ok.mp hfirst
    simp [ih hrest]

/-- The values of a dictionary put through a function that may fail, under the same keys. -/
def mapM (f : κ → ν → Except ε μ) (dict : Dict κ ν) : Except ε (Dict κ μ) :=
  match h : dict.entries.mapM (mapEntry f) with
  | .error refusal => .error refusal
  | .ok entries => .ok ⟨entries, by
      rw [List.NodupKeys, keys_mapM h]
      exact dict.nodupKeys⟩

omit [DecidableEq κ] in
theorem mapM_eq_ok {dict : Dict κ ν} {mapped : Dict κ μ} (h : mapM f dict = .ok mapped) :
    dict.entries.mapM (mapEntry f) = .ok mapped.entries := by
  unfold mapM at h
  split at h
  · cases h
  · rename_i entries hentries
    cases h
    exact hentries

theorem lookup_mapM {dict : Dict κ ν} {mapped : Dict κ μ} (h : mapM f dict = .ok mapped)
    {key : κ} {value : μ} :
    mapped.lookup key = some value ↔
      ∃ given, dict.lookup key = some given ∧ f key given = .ok value := by
  rw [lookup_eq_some_iff, mem_of_except_mapM_eq_ok (mapM_eq_ok h)]
  constructor
  · rintro ⟨⟨other, given⟩, hmem, hvalue⟩
    obtain ⟨result, hresult, heq⟩ := except_map_eq_ok.mp hvalue
    obtain ⟨rfl, rfl⟩ : other = key ∧ result = value := by simpa using heq
    exact ⟨given, lookup_eq_some_iff.mpr hmem, hresult⟩
  · rintro ⟨given, hgiven, hvalue⟩
    exact ⟨⟨key, given⟩, lookup_eq_some_iff.mp hgiven, except_map_eq_ok.mpr ⟨value, hvalue, rfl⟩⟩

/-- Every value of a dictionary is mapped when the map succeeds. -/
theorem exists_of_mapM {dict : Dict κ ν} {mapped : Dict κ μ} (h : mapM f dict = .ok mapped)
    {key : κ} {given : ν} (hgiven : dict.lookup key = some given) :
    ∃ value, f key given = .ok value ∧ mapped.lookup key = some value := by
  obtain ⟨entry, hentry⟩ :=
    exists_of_except_mapM_eq_ok (mapM_eq_ok h) (lookup_eq_some_iff.mp hgiven)
  obtain ⟨value, hvalue, -⟩ := except_map_eq_ok.mp hentry
  exact ⟨value, hvalue, (lookup_mapM h).mpr ⟨given, hgiven, hvalue⟩⟩

theorem exists_mapM {dict : Dict κ ν}
    (h : ∀ key given, dict.lookup key = some given → ∃ value, f key given = .ok value) :
    ∃ mapped, mapM f dict = .ok mapped := by
  have hentries : ∀ entry ∈ dict.entries,
      ∃ result, mapEntry f entry = .ok result := by
    intro entry hentry
    obtain ⟨value, hvalue⟩ := h entry.1 entry.2 (lookup_eq_some_iff.mpr hentry)
    exact ⟨⟨entry.1, value⟩, except_map_eq_ok.mpr ⟨value, hvalue, rfl⟩⟩
  obtain ⟨entries, hmapped⟩ := exists_except_mapM hentries
  unfold mapM
  split
  · rename_i refusal hrefusal
    rw [hmapped] at hrefusal
    cases hrefusal
  · exact ⟨_, rfl⟩

end Dict

end Booley.Lib
