import Booley.Targets.SurfaceDiff

/-!
# A delta as a patch

Applied to the baseline side, the delta of a surface gives the current side, exactly where the
comparison of two bodies distinguishes what the files distinguish.
-/
namespace Booley.Targets

open Booley.Lib

/-! ## Patches of a mapping -/

section Patch

variable {ν ρ : Type}

/-- The mapping without the deleted rows, with the added and modified ones set. -/
def patched (key : ρ → String) (value : ρ → ν) (before : Dict String ν) (changes : ChangeSet ρ) :
    Dict String ν :=
  (changes.added ++ changes.modified).foldl (fun dict row => dict.insert (key row) (value row))
    (changes.deleted.foldl (fun dict row => dict.erase (key row)) before)

/-- Both sides have the same keys, with the same values under a comparison. -/
def SameSides (same : ν → ν → Bool) (before after : Dict String ν) : Prop :=
  ∀ key, Option.Rel (fun value other => same value other = true) (before.lookup key)
    (after.lookup key)

def ChangeSet.isEmpty (changes : ChangeSet ρ) : Prop :=
  changes.added = [] ∧ changes.modified = [] ∧ changes.deleted = []

theorem lookup_foldl_erase (key : ρ → String) (rows : List ρ) (dict : Dict String ν)
    (k : String) : (rows.foldl (fun dict row => dict.erase (key row)) dict).lookup k =
      if k ∈ rows.map key then none else dict.lookup k := by
  induction rows generalizing dict with
  | nil => simp
  | cons row rest ih =>
    rw [List.foldl_cons, ih, List.map_cons]
    by_cases hk : k = key row
    · subst hk
      simp
    · simp [hk, AList.lookup_erase_ne hk]

/-- All the rows of a key carry what the key holds after them. -/
theorem lookup_foldl_insert_rows {key : ρ → String} {value : ρ → ν} {rows : List ρ}
    {dict : Dict String ν} {k : String} {found : Option ν}
    (h : ∀ row ∈ rows, key row = k → found = some (value row)) :
    (rows.foldl (fun dict row => dict.insert (key row) (value row)) dict).lookup k =
      if k ∈ rows.map key then found else dict.lookup k := by
  induction rows generalizing dict with
  | nil => simp
  | cons row rest ih =>
    rw [List.foldl_cons, ih fun other hother => h other (List.mem_cons_of_mem _ hother),
      List.map_cons]
    by_cases hk : k = key row
    · subst hk
      rw [h row List.mem_cons_self rfl]
      simp
    · simp [hk, AList.lookup_insert_ne hk]

end Patch

/-! ## Changed rows -/

section Rows

variable {ν : Type} (equal : ν → ν → Bool) (before after : Dict String ν)

theorem mem_added {key : String} : key ∈ (changedRows equal before after).added ↔
    before.lookup key = none ∧ (after.lookup key).isSome := by
  simp [changedRows, AList.lookup_eq_none, AList.lookup_isSome, AList.mem_keys, and_comm]

theorem mem_deleted {key : String} : key ∈ (changedRows equal before after).deleted ↔
    (before.lookup key).isSome ∧ after.lookup key = none := by
  simp [changedRows, AList.lookup_eq_none, AList.lookup_isSome, AList.mem_keys]

theorem mem_modified {key : String} : key ∈ (changedRows equal before after).modified ↔
    ∃ value other, before.lookup key = some value ∧ after.lookup key = some other ∧
      equal value other = false := by
  simp only [changedRows, mem_sortBy, List.mem_filter]
  constructor
  · rintro ⟨-, h⟩
    split at h
    next value other hvalue hother => exact ⟨value, other, hvalue, hother, by simpa using h⟩
    · cases h
  · rintro ⟨value, other, hvalue, hother, h⟩
    refine ⟨AList.mem_keys.mp (AList.lookup_isSome.mp (by simp [hvalue])), ?_⟩
    simp [hvalue, hother, h]

theorem added_nodup : (changedRows equal before after).added.Nodup :=
  (sortBy_perm _ _).nodup_iff.mpr (after.keys_nodup.filter _)

theorem modified_nodup : (changedRows equal before after).modified.Nodup :=
  (sortBy_perm _ _).nodup_iff.mpr (before.keys_nodup.filter _)

theorem deleted_nodup : (changedRows equal before after).deleted.Nodup :=
  (sortBy_perm _ _).nodup_iff.mpr (before.keys_nodup.filter _)

end Rows

/-! ## Exact patches -/

/-- The rows of one side: a row for each key, carrying the side's value. -/
structure RowsOf {ν ρ : Type} (key : ρ → String) (value : ρ → ν) (rows : Dict String ρ)
    (side : Dict String ν) : Prop where
  values : ∀ k, (rows.lookup k).map value = side.lookup k
  keys : ∀ k row, rows.lookup k = some row → key row = k

section Exact

variable {ν ρ : Type} {key : ρ → String} {value : ρ → ν} {rows : Dict String ρ}
  {side : Dict String ν}

theorem RowsOf.map_key (hrows : RowsOf key value rows side) {names : List String}
    (h : ∀ name ∈ names, (side.lookup name).isSome) :
    (names.filterMap rows.lookup).map key = names := by
  induction names with
  | nil => rfl
  | cons name rest ih =>
    have hname := h name List.mem_cons_self
    rw [← hrows.values, Option.isSome_map] at hname
    obtain ⟨row, hrow⟩ := Option.isSome_iff_exists.mp hname
    rw [List.filterMap_cons, hrow, List.map_cons, hrows.keys name row hrow,
      ih fun other hother => h other (List.mem_cons_of_mem _ hother)]

theorem RowsOf.value_of_mem (hrows : RowsOf key value rows side) {names : List String} {row : ρ}
    {k : String} (hrow : row ∈ names.filterMap rows.lookup) (hkey : key row = k) :
    side.lookup k = some (value row) := by
  obtain ⟨name, -, hlookup⟩ := List.mem_filterMap.mp hrow
  have hname := hrows.keys name row hlookup
  rw [← hkey, hname, ← hrows.values, hlookup]
  rfl

variable {beforeRows afterRows : Dict String ρ} {before after : Dict String ν}
  (hbefore : RowsOf key value beforeRows before) (hafter : RowsOf key value afterRows after)
  (equal : ν → ν → Bool)

include hbefore hafter

/-- A changed key holds the current value; every other key holds what it held. -/
theorem lookup_patched (k : String) :
    (patched key value before
      (changeSet beforeRows afterRows (changedRows equal before after))).lookup k =
      if k ∈ (changedRows equal before after).added ++ (changedRows equal before after).modified
      then after.lookup k
      else if k ∈ (changedRows equal before after).deleted then none else before.lookup k := by
  have hset : ∀ name ∈ (changedRows equal before after).added ++
      (changedRows equal before after).modified, (after.lookup name).isSome := by
    intro name hname
    rcases List.mem_append.mp hname with hadded | hmodified
    · exact ((mem_added equal before after).mp hadded).2
    · obtain ⟨-, other, -, hother, -⟩ := (mem_modified equal before after).mp hmodified
      rw [hother]
      rfl
  have hgone : ∀ name ∈ (changedRows equal before after).deleted,
      (before.lookup name).isSome := fun name hname =>
    ((mem_deleted equal before after).mp hname).1
  rw [patched, changeSet]
  dsimp only
  rw [← List.filterMap_append, lookup_foldl_insert_rows fun row hrow hkey =>
      hafter.value_of_mem hrow hkey, lookup_foldl_erase, hafter.map_key hset,
    hbefore.map_key hgone]

/-- Patching gives the current side, unless two values that are not the same are called equal. -/
theorem patched_same_iff {same : ν → ν → Bool} (hrefl : ∀ v, same v v = true) :
    SameSides same (patched key value before
        (changeSet beforeRows afterRows (changedRows equal before after))) after ↔
      ∀ k v w, before.lookup k = some v → after.lookup k = some w → equal v w = true →
        same v w = true := by
  have hself : ∀ found : Option ν, Option.Rel (fun v w => same v w = true) found found := by
    intro found
    cases found with
    | none => exact .none
    | some v => exact .some (hrefl v)
  constructor
  · intro h k v w hv hw hequal
    have hk := h k
    have hnot : k ∉ (changedRows equal before after).added ++
        (changedRows equal before after).modified := by
      rw [List.mem_append, mem_added, mem_modified]
      rintro (⟨hnone, -⟩ | ⟨v', w', hv', hw', hdiffer⟩)
      · rw [hv] at hnone
        cases hnone
      · rw [hv] at hv'
        rw [hw] at hw'
        rw [← Option.some.inj hv', ← Option.some.inj hw', hequal] at hdiffer
        cases hdiffer
    have hkept : k ∉ (changedRows equal before after).deleted := by
      rw [mem_deleted, hw]
      exact fun hdeleted => by cases hdeleted.2
    rw [lookup_patched hbefore hafter, if_neg hnot, if_neg hkept, hv, hw] at hk
    cases hk with
    | some hsame => exact hsame
  · intro h k
    rw [lookup_patched hbefore hafter]
    split
    · exact hself _
    next hnot =>
      rw [List.mem_append, mem_added, mem_modified, not_or] at hnot
      split
      next hdeleted =>
        rw [((mem_deleted equal before after).mp hdeleted).2]
        exact .none
      next hkept =>
        rw [mem_deleted] at hkept
        cases hv : before.lookup k with
        | none =>
          have hw : after.lookup k = none := by
            by_contra hne
            exact hnot.1 ⟨hv, Option.isSome_iff_ne_none.mpr hne⟩
          rw [hw]
          exact .none
        | some v =>
          cases hw : after.lookup k with
          | none => exact absurd ⟨by rw [hv]; rfl, hw⟩ hkept
          | some w =>
            refine .some (h k v w hv hw ?_)
            by_contra hdiffer
            exact hnot.2 ⟨v, w, hv, hw, by simpa using hdiffer⟩

/-- A delta without rows says that both sides have the same keys, with equal values. -/
theorem isEmpty_iff :
    (changeSet beforeRows afterRows (changedRows equal before after)).isEmpty ↔
      SameSides equal before after := by
  have hnil : ∀ {rows : Dict String ρ} {side : Dict String ν} {names : List String},
      RowsOf key value rows side → (∀ name ∈ names, (side.lookup name).isSome) →
      (names.filterMap rows.lookup = [] ↔ ∀ name, name ∉ names) := by
    intro rows side names hrows h
    rw [← List.eq_nil_iff_forall_not_mem, ← @List.map_eq_nil_iff _ _ key, hrows.map_key h]
  unfold ChangeSet.isEmpty changeSet
  dsimp only
  rw [hnil hafter fun name hname => ((mem_added equal before after).mp hname).2,
    hnil hafter fun name hname => by
      obtain ⟨-, other, -, hother, -⟩ := (mem_modified equal before after).mp hname
      rw [hother]
      rfl,
    hnil hbefore fun name hname => ((mem_deleted equal before after).mp hname).1]
  simp only [mem_added, mem_modified, mem_deleted, SameSides, ← forall_and]
  refine forall_congr' fun k => ?_
  cases hv : before.lookup k with
  | none =>
    cases hw : after.lookup k with
    | none => simp
    | some w => simp
  | some v =>
    cases hw : after.lookup k with
    | none => simp
    | some w => simp

end Exact

/-! ## The Targets that may select a declaration -/

/-- A value stands in an entry, under some flags or none. -/
inductive ExprNode.Offers : ExprNode → String → Prop
  | value (text : String) : Offers (.value text) text
  | under {nodes : List ExprNode} {node : ExprNode} {text : String} (h : node ∈ nodes)
      (hnode : Offers node text) : Offers (.condition nodes) text

mutual

theorem mem_leaves {text : String} : ∀ nodes : List ExprNode,
    text ∈ leaves nodes ↔ ∃ node ∈ nodes, node.Offers text
  | [] => by simp [leaves]
  | node :: rest => by
    rw [leaves, List.mem_append, mem_nodeLeaves node, mem_leaves rest, List.exists_mem_cons_iff]

theorem mem_nodeLeaves {text : String} : ∀ node : ExprNode,
    text ∈ nodeLeaves node ↔ node.Offers text
  | .value other => by
    rw [nodeLeaves, List.mem_singleton]
    constructor
    · rintro rfl
      exact .value text
    · intro h
      cases h
      rfl
  | .condition nodes => by
    rw [nodeLeaves, mem_leaves nodes]
    constructor
    · rintro ⟨node, hnode, h⟩
      exact .under hnode h
    · intro h
      cases h with
      | under hnode h => exact ⟨_, hnode, h⟩

end

section References

variable (readers : Readers) (path : String)

/-- An entry of a Target's list can stand for a value; one that cannot be parsed is its own
value. -/
def EntryOffers (entry : PlainData) (value : String) : Prop :=
  ∃ text, entry.text? = some text ∧
    (readers.parseExpression text = none ∧ value = text ∨
      ∃ nodes, readers.parseExpression text = some nodes ∧ ∃ node ∈ nodes, node.Offers value)

theorem mem_possibleExpressionValues {entry : PlainData} {value : String} :
    value ∈ possibleExpressionValues readers entry ↔ EntryOffers readers entry value := by
  unfold possibleExpressionValues EntryOffers
  cases entry.text? with
  | none => simp
  | some text =>
    cases hparse : readers.parseExpression text with
    | none => simp [hparse]
    | some nodes => simp [hparse, mem_leaves]

/-- A Target lists a fileset, or a fileset under some flags. -/
def MaySelectFileset (body : PlainData.Entries) (name : String) : Prop :=
  ∃ entries, targetEntries path "filesets" body = .ok entries ∧
    ∃ entry ∈ entries, EntryOffers readers entry name

/-- A Target lists a parameter, with a value or without, under some flags or none. -/
def MaySelectParameter (body : PlainData.Entries) (name : String) : Prop :=
  name ≠ "" ∧ ∃ entries, targetEntries path "parameters" body = .ok entries ∧
    ∃ entry ∈ entries, ∃ spec, EntryOffers readers entry spec ∧ parameterName spec = name

theorem mem_targetFilesetDefinitions {document body : PlainData.Entries} {names : List String}
    (h : targetFilesetDefinitions readers path document body = .ok names) (name : String) :
    name ∈ names ↔ MaySelectFileset readers path body name := by
  obtain ⟨possible, hpossible, h⟩ := except_bind_eq_ok.mp h
  obtain ⟨filesets, -, h⟩ := except_bind_eq_ok.mp h
  dsimp only at h
  split at h
  · cases h
    obtain ⟨entries, hentries, hpossible⟩ := except_bind_eq_ok.mp hpossible
    cases hpossible
    rw [mem_distinct, List.mem_flatMap]
    constructor
    · rintro ⟨entry, hentry, hname⟩
      exact ⟨entries, hentries, entry, hentry, (mem_possibleExpressionValues readers).mp hname⟩
    · rintro ⟨others, hothers, entry, hentry, hname⟩
      rw [hentries] at hothers
      cases hothers
      exact ⟨entry, hentry, (mem_possibleExpressionValues readers).mpr hname⟩
  · cases h

theorem mem_possibleTargetParameterNames {body : PlainData.Entries} {names : List String}
    (h : possibleTargetParameterNames readers path body = .ok names) (name : String) :
    name ∈ names ↔ MaySelectParameter readers path body name := by
  obtain ⟨entries, hentries, h⟩ := except_bind_eq_ok.mp h
  cases h
  simp only [mem_distinct, List.mem_filter, List.mem_map, List.mem_flatMap,
    mem_possibleExpressionValues, bne_iff_ne, MaySelectParameter, hentries, Except.ok.injEq,
    exists_eq_left']
  constructor
  · rintro ⟨⟨spec, ⟨entry, hentry, hoffers⟩, hname⟩, hne⟩
    exact ⟨hne, entry, hentry, spec, hoffers, hname⟩
  · rintro ⟨hne, entry, hentry, spec, hoffers, hname⟩
    exact ⟨⟨spec, ⟨entry, hentry, hoffers⟩, hname⟩, hne⟩

/-- What a name holds after entries were appended under their names. -/
theorem getD_foldl_alter (entries : List (String × String)) (dict : Dict String (List String))
    (name : String) :
    ((entries.foldl (fun references entry => references.alter entry.1 fun targets =>
      some (targets.getD [] ++ [entry.2])) dict).lookup name).getD [] =
      (dict.lookup name).getD [] ++ (entries.filter (·.1 = name)).map (·.2) := by
  induction entries generalizing dict with
  | nil => simp
  | cons entry rest ih =>
    rw [List.foldl_cons, ih, Dict.lookup_alter]
    by_cases hname : name = entry.1
    · subst hname
      simp
    · simp [hname, Ne.symm hname]

theorem mem_referencesBy {names : PlainData.Entries → Except SurfaceDiffError (List String)}
    {document : PlainData.Entries} {references : Dict String (List String)}
    (h : referencesBy names document = .ok references) (name canonical : String) :
    canonical ∈ (references.lookup name).getD [] ↔
      ∃ target ∈ targetBodies document, target.1 = canonical ∧
        ∃ selected, names target.2 = .ok selected ∧ name ∈ selected := by
  obtain ⟨selections, hselections, h⟩ := except_bind_eq_ok.mp h
  cases h
  rw [getD_foldl_alter]
  simp only [AList.lookup_empty, Option.getD_none, List.nil_append, List.mem_map, List.mem_filter,
    List.mem_flatten, decide_eq_true_eq]
  constructor
  · rintro ⟨entry, ⟨⟨selection, hselection, hentry⟩, rfl⟩, rfl⟩
    obtain ⟨target, htarget, hselected⟩ :=
      (mem_of_except_mapM_eq_ok hselections selection).mp hselection
    obtain ⟨selected, hnames, hselected⟩ := except_bind_eq_ok.mp hselected
    cases hselected
    obtain ⟨name, hname, rfl⟩ := List.mem_map.mp hentry
    exact ⟨target, htarget, rfl, selected, hnames, hname⟩
  · rintro ⟨target, htarget, rfl, selected, hnames, hname⟩
    refine ⟨(name, target.1), ⟨⟨selected.map fun name => (name, target.1), ?_, ?_⟩, rfl⟩, rfl⟩
    · refine (mem_of_except_mapM_eq_ok hselections _).mpr ⟨target, htarget, ?_⟩
      rw [hnames]
      rfl
    · exact List.mem_map_of_mem hname

end References

end Booley.Targets
