import Booley.Lib.Dict

/-!
# Three-way merges

A local copy and a stored copy that descend from one base are merged field by field:
a single value, a dictionary key by key, a list by the identity of its elements. Values
are compared by a Boolean test that need not be lawful.
-/
namespace Booley.Lib

universe u v
variable {κ ν : Type u} {α : Type u} {ι : Type v}

section Values

variable [BEq ν]

/-- Whether a local value differs from the base. -/
def scalarChanged (base loc : ν) : Bool := loc != base

/-- A single value: the local one when it changed, else the stored one. -/
def mergeScalar (base loc stored : ν) : ν :=
  if scalarChanged base loc then loc else stored

/-- Whether what a key holds locally differs from the base; a missing key differs from every
value. -/
def keyChanged (base loc : Option ν) : Bool :=
  match base, loc with
  | some old, some new => old != new
  | none, none => false
  | _, _ => true

/-- Whether a key that is gone locally is still stored as the base had it. -/
def deletionApplies (base stored : Option ν) : Bool :=
  match base, stored with
  | some old, some current => current == old
  | _, _ => false

/-- What one key holds after a merge. -/
def mergedValue (base loc stored : Option ν) : Option ν :=
  match loc with
  | some _ => if keyChanged base loc then loc else stored
  | none => if deletionApplies base stored then none else stored

theorem mergedValue_of_set {base loc stored : Option ν} (hset : loc.isSome)
    (hchanged : keyChanged base loc = true) : mergedValue base loc stored = loc := by
  obtain ⟨value, rfl⟩ := Option.isSome_iff_exists.mp hset
  simp [mergedValue, hchanged]

/-- A deletion that nobody else's change stands against removes the key. -/
theorem mergedValue_of_deleted {base stored : Option ν}
    (h : deletionApplies base stored = true) : mergedValue base none stored = none := by
  simp [mergedValue, h]

theorem mergedValue_of_unchanged {base loc stored : Option ν}
    (h : keyChanged base loc = false) : mergedValue base loc stored = stored := by
  cases loc with
  | some value => simp [mergedValue, h]
  | none =>
    cases base with
    | none => simp [mergedValue, deletionApplies]
    | some old => simp [keyChanged] at h

/-- Whether a local change decides what a key holds: it sets the key, or deletes it while the
store still has it as the base had it. -/
def keyApplied (base loc stored : Option ν) : Bool :=
  keyChanged base loc && (loc.isSome || deletionApplies base stored)

theorem mergedValue_of_applied {base loc stored : Option ν}
    (h : keyApplied base loc stored = true) : mergedValue base loc stored = loc := by
  rw [keyApplied, Bool.and_eq_true] at h
  cases loc with
  | some value => exact mergedValue_of_set rfl h.1
  | none => exact mergedValue_of_deleted (by simpa using h.2)

theorem mergedValue_of_not_applied {base loc stored : Option ν}
    (h : keyApplied base loc stored = false) : mergedValue base loc stored = stored := by
  by_cases hchanged : keyChanged base loc = true
  · rw [keyApplied, hchanged, Bool.true_and, Bool.or_eq_false_iff] at h
    obtain rfl : loc = none := by simpa using h.1
    simp [mergedValue, h.2]
  · exact mergedValue_of_unchanged (by simpa using hchanged)

/-- Two copies of which at most one changed a key are merged in either order. -/
theorem mergedValue_comm {base loc base' loc' : Option ν} (stored : Option ν)
    (h : keyChanged base loc = false ∨ keyChanged base' loc' = false) :
    mergedValue base' loc' (mergedValue base loc stored) =
      mergedValue base loc (mergedValue base' loc' stored) := by
  rcases h with h | h
  · rw [mergedValue_of_unchanged h, mergedValue_of_unchanged h]
  · rw [mergedValue_of_unchanged h, mergedValue_of_unchanged h]

theorem mergeScalar_comm {base loc base' loc' : ν} (stored : ν)
    (h : scalarChanged base loc = false ∨ scalarChanged base' loc' = false) :
    mergeScalar base' loc' (mergeScalar base loc stored) =
      mergeScalar base loc (mergeScalar base' loc' stored) := by
  rcases h with h | h
  · simp [mergeScalar, h]
  · simp [mergeScalar, h]

end Values

/-! ## Dictionaries -/

section Keyed

variable [DecidableEq κ] [BEq ν]

/-- A dictionary merged key by key. -/
def mergeKeyed (base loc stored : Dict κ ν) : Dict κ ν :=
  let merged := loc.keys.foldl (fun merged key => Dict.alter merged key fun current =>
    if keyChanged (base.lookup key) (loc.lookup key) then loc.lookup key else current) stored
  base.keys.foldl (fun merged key => Dict.alter merged key fun current =>
    if (loc.lookup key).isNone && deletionApplies (base.lookup key) (stored.lookup key) then none
    else current) merged

theorem lookup_mergeKeyed (base loc stored : Dict κ ν) (key : κ) :
    (mergeKeyed base loc stored).lookup key =
      mergedValue (base.lookup key) (loc.lookup key) (stored.lookup key) := by
  unfold mergeKeyed
  rw [Dict.lookup_foldl_alter (fun key current =>
      if (loc.lookup key).isNone && deletionApplies (base.lookup key) (stored.lookup key) then none
      else current) base.keys base.keys_nodup,
    Dict.lookup_foldl_alter (fun key current =>
      if keyChanged (base.lookup key) (loc.lookup key) then loc.lookup key else current)
      loc.keys loc.keys_nodup]
  cases hloc : loc.lookup key with
  | some value =>
    have hmem : key ∈ loc.keys := by
      by_contra hnot
      rw [Dict.lookup_eq_none_iff.mpr hnot] at hloc
      cases hloc
    simp [hmem, mergedValue]
  | none =>
    have hmem : key ∉ loc.keys := Dict.lookup_eq_none_iff.mp hloc
    by_cases hbase : key ∈ base.keys
    · simp [hmem, hbase, mergedValue]
    · have hnone : base.lookup key = none := Dict.lookup_eq_none_iff.mpr hbase
      simp [hmem, hbase, hnone, mergedValue, deletionApplies]

end Keyed

/-! ## Lists by identity -/

section Identity

variable [DecidableEq ι] (identity : α → ι)

/-- The elements of a list whose identity is neither seen before nor skipped. -/
def keepNew (skip : List ι) : List ι → List α → List α
  | _, [] => []
  | seen, item :: rest =>
    if identity item ∈ seen ∨ identity item ∈ skip then keepNew skip seen rest
    else item :: keepNew skip (identity item :: seen) rest

/-- A list merged by identity: the stored elements in stored order, then the local elements
that neither the store nor the base holds; repeats collapse. -/
def mergeByIdentity (base loc stored : List α) : List α :=
  keepNew identity [] [] stored ++
    keepNew identity (base.map identity) (stored.map identity) loc

theorem mem_keepNew (skip : List ι) (seen : List ι) (items : List α) (i : ι) :
    i ∈ (keepNew identity skip seen items).map identity ↔
      i ∈ items.map identity ∧ i ∉ seen ∧ i ∉ skip := by
  induction items generalizing seen with
  | nil => simp [keepNew]
  | cons item rest ih =>
    by_cases h : identity item ∈ seen ∨ identity item ∈ skip
    · rw [keepNew, if_pos h, ih, List.map_cons, List.mem_cons]
      constructor
      · rintro ⟨hmem, hseen, hskip⟩
        exact ⟨.inr hmem, hseen, hskip⟩
      · rintro ⟨rfl | hmem, hseen, hskip⟩
        · exact absurd h (by simp [hseen, hskip])
        · exact ⟨hmem, hseen, hskip⟩
    · rw [not_or] at h
      rw [keepNew, if_neg (by simp [h]), List.map_cons, List.mem_cons, ih, List.map_cons,
        List.mem_cons, List.mem_cons]
      by_cases hi : i = identity item
      · subst hi
        simp [h]
      · simp [hi]

theorem nodup_keepNew (skip : List ι) (seen : List ι) (items : List α) :
    ((keepNew identity skip seen items).map identity).Nodup := by
  induction items generalizing seen with
  | nil => simp [keepNew]
  | cons item rest ih =>
    by_cases h : identity item ∈ seen ∨ identity item ∈ skip
    · rw [keepNew, if_pos h]
      exact ih seen
    · rw [keepNew, if_neg h, List.map_cons, List.nodup_cons]
      refine ⟨fun hmem => ?_, ih _⟩
      have := (mem_keepNew identity skip _ rest _).mp hmem
      simp at this

/-- Without repeats nothing collapses. -/
theorem keepNew_eq_self {seen : List ι} {items : List α} (hnodup : (items.map identity).Nodup)
    (hseen : ∀ item ∈ items, identity item ∉ seen) : keepNew identity [] seen items = items := by
  induction items generalizing seen with
  | nil => rfl
  | cons item rest ih =>
    obtain ⟨hitem, hrest⟩ := List.nodup_cons.mp hnodup
    have hnew : ¬ (identity item ∈ seen ∨ identity item ∈ ([] : List ι)) := by
      simpa using hseen item List.mem_cons_self
    rw [keepNew, if_neg hnew, ih hrest]
    intro other hother
    rw [List.mem_cons, not_or]
    refine ⟨fun heq => hitem ?_, hseen other (List.mem_cons_of_mem _ hother)⟩
    rw [← heq]
    exact List.mem_map_of_mem hother

theorem mem_mergeByIdentity (base loc stored : List α) (i : ι) :
    i ∈ (mergeByIdentity identity base loc stored).map identity ↔
      i ∈ stored.map identity ∨ i ∈ loc.map identity ∧ i ∉ base.map identity := by
  rw [mergeByIdentity, List.map_append, List.mem_append, mem_keepNew, mem_keepNew]
  by_cases hi : i ∈ stored.map identity
  · simp [hi]
  · simp [hi]

theorem nodup_mergeByIdentity (base loc stored : List α) :
    ((mergeByIdentity identity base loc stored).map identity).Nodup := by
  rw [mergeByIdentity, List.map_append, List.nodup_append]
  refine ⟨nodup_keepNew .., nodup_keepNew .., fun a ha b hb heq => ?_⟩
  subst heq
  exact ((mem_keepNew ..).mp hb).2.1 ((mem_keepNew ..).mp ha).1

/-- What is stored without repeats stays first and in order. -/
theorem prefix_mergeByIdentity {stored : List α} (hnodup : (stored.map identity).Nodup)
    (base loc : List α) : stored <+: mergeByIdentity identity base loc stored := by
  rw [mergeByIdentity, keepNew_eq_self identity hnodup (by simp)]
  exact List.prefix_append ..

/-- A local copy that adds nothing to its base leaves the store as it is. -/
theorem mergeByIdentity_eq_stored {base loc stored : List α}
    (hnodup : (stored.map identity).Nodup)
    (hloc : ∀ i ∈ loc.map identity, i ∈ base.map identity) :
    mergeByIdentity identity base loc stored = stored := by
  have hnone : keepNew identity (base.map identity) (stored.map identity) loc = [] := by
    rw [List.eq_nil_iff_forall_not_mem]
    intro item hitem
    have hmem := (mem_keepNew identity _ _ loc (identity item)).mp (List.mem_map_of_mem hitem)
    exact hmem.2.2 (hloc _ hmem.1)
  rw [mergeByIdentity, keepNew_eq_self identity hnodup (by simp), hnone, List.append_nil]

end Identity

end Booley.Lib
