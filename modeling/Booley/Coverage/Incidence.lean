import Booley.Coverage.NativeRecords
import Mathlib.Algebra.Order.BigOperators.Group.List
import Mathlib.Data.List.Induction
import Mathlib.Tactic.Ring

/-!
# Hits by run against the native totals

A run's database may repeat an identity. The totals add the repeated records, the points keep the
last of them, so the two agree where no run has two records with hits for one identity.
-/
namespace Booley.Coverage

open Booley.Lib

variable {run key : String} {record : NativeRecord} {records merged : List NativeRecord}
variable {runs : List (String × List NativeRecord)} {incidence : Incidence}

/-! ## Totals -/

/-- The hits of an identity in a list of records. -/
def totalHits (records : List NativeRecord) (key : String) : Nat :=
  ((records.filter (·.identity == key)).map (·.hits)).sum

/-- The records of an identity that have hits. -/
def positiveRecords (records : List NativeRecord) (key : String) : List NativeRecord :=
  records.filter fun record => record.identity == key && decide (0 < record.hits)

theorem totalHits_cons (record : NativeRecord) (records : List NativeRecord) (key : String) :
    totalHits (record :: records) key =
      (if record.identity = key then record.hits else 0) + totalHits records key := by
  by_cases hkey : record.identity = key
  · simp [totalHits, hkey]
  · simp [totalHits, hkey]

theorem totalHits_append (first second : List NativeRecord) (key : String) :
    totalHits (first ++ second) key = totalHits first key + totalHits second key := by
  simp [totalHits]

theorem totalHits_flatMap (runs : List (String × List NativeRecord)) (key : String) :
    totalHits (runs.flatMap Prod.snd) key = (runs.map fun run => totalHits run.2 key).sum := by
  induction runs with
  | nil => rfl
  | cons run runs ih => rw [List.flatMap_cons, totalHits_append, ih, List.map_cons, List.sum_cons]

theorem totalHits_positive (records : List NativeRecord) (key : String) :
    totalHits records key = ((positiveRecords records key).map (·.hits)).sum := by
  induction records with
  | nil => rfl
  | cons record records ih =>
    rw [totalHits_cons, ih, positiveRecords, positiveRecords]
    by_cases hkey : record.identity = key
    · by_cases hpos : 0 < record.hits
      · simp [hkey, hpos]
      · simp [hkey, Nat.eq_zero_of_not_pos hpos]
    · simp [hkey]

theorem lookup_foldl_totals (records : List NativeRecord) (totals : Dict String Nat)
    (key : String) :
    (records.foldl (fun totals record =>
      totals.insert record.identity ((totals.lookup record.identity).getD 0 + record.hits))
        totals).lookup key =
      if records.any (·.identity == key) then
        some ((totals.lookup key).getD 0 + totalHits records key)
      else totals.lookup key := by
  induction records generalizing totals with
  | nil => simp
  | cons record records ih =>
    rw [List.foldl_cons, ih, List.any_cons, totalHits_cons]
    by_cases hkey : record.identity = key
    · subst hkey
      by_cases hany : records.any (·.identity == record.identity) = true
      · simp [hany, Nat.add_assoc]
      · have hnone : totalHits records record.identity = 0 := by
          have hempty : records.filter (·.identity == record.identity) = [] := by
            simpa [List.filter_eq_nil_iff] using hany
          rw [totalHits, hempty]
          rfl
        simp [hany, hnone]
    · have hfalse : (record.identity == key) = false := by simpa using hkey
      rw [AList.lookup_insert_ne (Ne.symm hkey), hfalse, Bool.false_or, if_neg hkey, Nat.zero_add]

theorem lookup_recordTotals (records : List NativeRecord) (key : String) :
    (recordTotals records).lookup key =
      if records.any (·.identity == key) then some (totalHits records key) else none := by
  rw [recordTotals, lookup_foldl_totals]
  simp

/-- The databases agree in their identities and in their totals. -/
theorem mergeIsEquivalent_iff : mergeIsEquivalent runs merged = true ↔
    ∀ key, (recordTotals (runs.flatMap Prod.snd)).lookup key = (recordTotals merged).lookup key :=
  Dict.sameAs_iff

theorem totalHits_of_equivalent (h : mergeIsEquivalent runs merged = true) (key : String) :
    totalHits (runs.flatMap Prod.snd) key = totalHits merged key := by
  have hzero : ∀ records : List NativeRecord,
      ((recordTotals records).lookup key).getD 0 = totalHits records key := by
    intro records
    rw [lookup_recordTotals]
    split
    · rfl
    · rename_i hnone
      have hempty : records.filter (·.identity == key) = [] := by
        simpa [List.filter_eq_nil_iff] using hnone
      rw [totalHits, hempty]
      rfl
  rw [← hzero, ← hzero, mergeIsEquivalent_iff.mp h key]

/-! ## The last record of a run -/

/-- The hits of the last record of an identity that has any. -/
def lastHits (records : List NativeRecord) (key : String) : Option Nat :=
  (positiveRecords records key).getLast?.map (·.hits)

def Incidence.hitsAt (incidence : Incidence) (key run : String) : Option Nat :=
  ((incidence.hits.lookup key).getD ∅).lookup run

theorem hitsAt_note (run other key : String) (incidence : Incidence) (record : NativeRecord) :
    (incidence.note run record).hitsAt key other =
      if 0 < record.hits ∧ record.identity = key ∧ run = other then some record.hits
      else incidence.hitsAt key other := by
  simp only [Incidence.hitsAt, Incidence.note]
  by_cases hpos : 0 < record.hits
  · rw [if_pos hpos]
    by_cases hkey : record.identity = key
    · subst hkey
      rw [AList.lookup_insert, Option.getD_some]
      by_cases hrun : run = other
      · subst hrun
        simp [hpos]
      · rw [AList.lookup_insert_ne (Ne.symm hrun)]
        simp [hrun]
    · rw [AList.lookup_insert_ne (Ne.symm hkey)]
      simp [hkey]
  · simp [hpos]

theorem lastHits_cons (record : NativeRecord) (records : List NativeRecord) (key : String) :
    lastHits (record :: records) key = (lastHits records key).or
      (if 0 < record.hits ∧ record.identity = key then some record.hits else none) := by
  by_cases hkey : record.identity = key ∧ 0 < record.hits
  · have hhead : positiveRecords (record :: records) key =
        record :: positiveRecords records key := by
      simp [positiveRecords, hkey.1, hkey.2]
    rw [lastHits, hhead, List.getLast?_cons, if_pos ⟨hkey.2, hkey.1⟩, lastHits]
    cases (positiveRecords records key).getLast? <;> rfl
  · have hhead : positiveRecords (record :: records) key = positiveRecords records key := by
      simp only [positiveRecords, List.filter_cons]
      rw [if_neg (by simpa using hkey)]
    rw [lastHits, hhead, if_neg (fun h => hkey ⟨h.2, h.1⟩), Option.or_none, lastHits]

theorem hitsAt_foldl_note (run other key : String) (records : List NativeRecord)
    (incidence : Incidence) :
    (records.foldl (Incidence.note run) incidence).hitsAt key other =
      if run = other then (lastHits records key).or (incidence.hitsAt key other)
      else incidence.hitsAt key other := by
  induction records generalizing incidence with
  | nil => simp [lastHits, positiveRecords]
  | cons record records ih =>
    rw [List.foldl_cons, ih, hitsAt_note, lastHits_cons]
    by_cases hrun : run = other
    · by_cases hrecord : 0 < record.hits ∧ record.identity = key
      · simp [hrun, hrecord.1, hrecord.2]
      · have hno : ¬ (0 < record.hits ∧ record.identity = key ∧ run = other) :=
          fun h => hrecord ⟨h.1, h.2.1⟩
        rw [if_pos hrun, if_pos hrun, if_neg hno, if_neg hrecord, Option.or_none]
    · simp [hrun]

theorem hitsAt_foldl_runs (runs : List (String × List NativeRecord))
    (hnodup : (runs.map Prod.fst).Nodup) (incidence : Incidence)
    (hfree : ∀ run ∈ runs, ∀ key, incidence.hitsAt key run.1 = none) (key other : String) :
    (runs.foldl (fun incidence run => run.2.foldl (Incidence.note run.1) incidence)
      incidence).hitsAt key other =
      ((runs.find? (·.1 == other)).bind fun run => lastHits run.2 key).or
        (incidence.hitsAt key other) := by
  induction runs generalizing incidence with
  | nil => simp
  | cons run runs ih =>
    obtain ⟨hnew, hrest⟩ := List.nodup_cons.mp hnodup
    rw [List.foldl_cons, ih hrest]
    · rw [hitsAt_foldl_note, List.find?_cons]
      by_cases hrun : run.1 = other
      · subst hrun
        have hnone : runs.find? (·.1 == run.1) = none := by
          rw [List.find?_eq_none]
          intro later hlater hsame
          exact hnew (List.mem_map.mpr ⟨later, hlater, by simpa using hsame⟩)
        simp [hnone]
      · have hfalse : (run.1 == other) = false := by simpa using hrun
        simp [hrun, hfalse]
    · intro later hlater key
      rw [hitsAt_foldl_note, if_neg]
      · exact hfree later (List.mem_cons_of_mem _ hlater) key
      · intro hsame
        exact hnew (List.mem_map.mpr ⟨later, hlater, hsame.symm⟩)

/-- A point holds the last hits of each run. -/
theorem hitsAt_incidenceOf (hnodup : (runs.map Prod.fst).Nodup) (key other : String) :
    (incidenceOf runs).hitsAt key other =
      (runs.find? (·.1 == other)).bind fun run => lastHits run.2 key := by
  have hempty : ∀ key run, Incidence.hitsAt ⟨∅, ∅⟩ key run = none := fun _ _ => rfl
  rw [incidenceOf, hitsAt_foldl_runs runs hnodup _ fun _ _ key => hempty key _, hempty,
    Option.or_none]

/-! ## Points -/

theorem records_foldl_note (run : String) (records : List NativeRecord) (incidence : Incidence) :
    (records.foldl (Incidence.note run) incidence).records =
      records.foldl (fun found record => found.insert record.identity record)
        incidence.records := by
  induction records generalizing incidence with
  | nil => rfl
  | cons record records ih =>
    rw [List.foldl_cons, ih]
    rfl

theorem records_incidenceOf (runs : List (String × List NativeRecord)) :
    (incidenceOf runs).records = (runs.flatMap Prod.snd).foldl
      (fun found record => found.insert record.identity record) ∅ := by
  have hgeneral : ∀ incidence : Incidence,
      (runs.foldl (fun incidence run => run.2.foldl (Incidence.note run.1) incidence)
        incidence).records = (runs.flatMap Prod.snd).foldl
          (fun found record => found.insert record.identity record) incidence.records := by
    induction runs with
    | nil => exact fun _ => rfl
    | cons run runs ih =>
      intro incidence
      rw [List.foldl_cons, ih, records_foldl_note, List.flatMap_cons, List.foldl_append]
  exact hgeneral ⟨∅, ∅⟩

theorem lookup_records (key : String) :
    (incidenceOf runs).records.lookup key =
      (runs.flatMap Prod.snd).reverse.find? fun record => record.identity = key := by
  have hlookup := Dict.lookup_foldl_insert (fun record : NativeRecord => record.identity)
    (fun record => record) (runs.flatMap Prod.snd) ∅ key
  rw [records_incidenceOf, hlookup]
  simp

theorem metric?_eq {other : NativeRecord} (h : record.identity = other.identity) :
    record.metric? = other.metric? := by
  have hsame : some record.attributes = some other.attributes := by
    rw [← record.parsed, ← other.parsed, h]
  rw [NativeRecord.metric?, NativeRecord.metric?, Option.some.inj hsame]

section Points

variable {pointId : NativePointIdentity → String} {sources : List CoverageSource}
variable {point : NativePoint}

/-- Where a point comes from. -/
theorem mem_normalizePoints (h : point ∈ normalizePoints pointId sources runs) :
    ∃ record ∈ runs.flatMap Prod.snd, ∃ metric, record.metric? = some metric ∧
      point.native.nativeKey = record.identity ∧
      point.hitsByRun = sortedItems (((incidenceOf runs).hits.lookup record.identity).getD ∅) := by
  have hmem := (List.mergeSort_perm _ _).mem_iff.mp h
  obtain ⟨entry, hentry, hpoint⟩ := List.mem_filterMap.mp hmem
  obtain ⟨metric, hmetric, rfl⟩ := Option.map_eq_some_iff.mp hpoint
  have hlookup := Dict.lookup_eq_some_iff.mpr hentry
  rw [lookup_records] at hlookup
  have hkey : entry.2.identity = entry.1 := by simpa using List.find?_some hlookup
  refine ⟨entry.2, List.mem_reverse.mp (List.mem_of_find?_eq_some hlookup), metric, hmetric, rfl, ?_⟩
  rw [hkey]
  rfl

/-- The keys of the points are the identities of a known type, each once. -/
theorem nativeKeys_normalizePoints :
    ((normalizePoints pointId sources runs).map (·.native.nativeKey)).Perm
      (((incidenceOf runs).records.entries.filter fun entry =>
        entry.2.metric?.isSome).map (·.1)) := by
  have hperm := (List.mergeSort_perm
    ((incidenceOf runs).records.entries.filterMap fun entry =>
      entry.2.metric?.map fun metric =>
        pointForRecord pointId entry.2 metric
          (matchSource (sourcesByPath sources) (entry.2.attribute "f"))
          (((incidenceOf runs).hits.lookup entry.1).getD ∅)) pointLe).map (·.native.nativeKey)
  refine hperm.trans (List.Perm.of_eq ?_)
  have hkeys : ∀ entry ∈ (incidenceOf runs).records.entries, entry.2.identity = entry.1 := by
    intro entry hentry
    have hlookup := Dict.lookup_eq_some_iff.mpr hentry
    rw [lookup_records] at hlookup
    simpa using List.find?_some hlookup
  generalize (incidenceOf runs).records.entries = entries at hkeys ⊢
  induction entries with
  | nil => rfl
  | cons entry entries ih =>
    have hrest := ih fun other hother => hkeys other (List.mem_cons_of_mem _ hother)
    cases hmetric : entry.2.metric? with
    | none => simpa [hmetric] using hrest
    | some metric =>
      have hkey := hkeys entry List.mem_cons_self
      simpa [hmetric, pointForRecord, hkey] using hrest

theorem nativeKeys_nodup :
    ((normalizePoints pointId sources runs).map (·.native.nativeKey)).Nodup := by
  rw [nativeKeys_normalizePoints.nodup_iff]
  exact (List.filter_sublist.map _).nodup (incidenceOf runs).records.keys_nodup

theorem find?_run (hnodup : (runs.map Prod.fst).Nodup) {run : String × List NativeRecord}
    (hrun : run ∈ runs) : runs.find? (·.1 == run.1) = some run := by
  cases hfound : runs.find? (·.1 == run.1) with
  | none =>
    have hnone := List.find?_eq_none.mp hfound run hrun
    simp at hnone
  | some found =>
    have hkey : found.1 = run.1 := by simpa using List.find?_some hfound
    rw [List.inj_on_of_nodup_map hnodup (List.mem_of_find?_eq_some hfound) hrun hkey]

/-- The hits of a point are the last hits of each run. -/
theorem hitsByRun_sum (hnodup : (runs.map Prod.fst).Nodup)
    (h : point ∈ normalizePoints pointId sources runs) :
    (point.hitsByRun.map Prod.snd).sum =
      (runs.map fun run => (lastHits run.2 point.native.nativeKey).getD 0).sum := by
  obtain ⟨record, -, metric, -, hkey, hhits⟩ := mem_normalizePoints h
  have hat := hitsAt_incidenceOf hnodup record.identity
  simp only [Incidence.hitsAt] at hat
  rw [hhits, hkey]
  generalize ((incidenceOf runs).hits.lookup record.identity).getD ∅ = dict at hat
  have hperm : ((sortedItems dict).map Prod.snd).Perm (dict.entries.map (·.2)) := by
    have hsorted := (List.mergeSort_perm (dict.entries.map fun entry => (entry.1, entry.2))
      fun first second => !textBefore second.1.toList first.1.toList).map Prod.snd
    rw [List.map_map] at hsorted
    exact hsorted
  have hcover : ∀ key ∈ dict.keys, key ∈ runs.map Prod.fst := by
    intro key hmem
    by_contra hnew
    have hnone : runs.find? (·.1 == key) = none := by
      rw [List.find?_eq_none]
      intro run hrun hsame
      exact hnew (List.mem_map.mpr ⟨run, hrun, by simpa using hsame⟩)
    have hlookup := hat key
    rw [hnone] at hlookup
    exact Dict.lookup_eq_none_iff.mp hlookup hmem
  rw [hperm.sum_eq, Dict.sum_values hnodup hcover, List.map_map]
  congr 1
  apply List.map_congr_left
  intro run hrun
  rw [Function.comp_apply, hat, find?_run hnodup hrun]
  rfl

/-- A run is named at a point exactly when it has a record with hits. -/
theorem mem_hitsByRun_iff (hnodup : (runs.map Prod.fst).Nodup)
    (h : point ∈ normalizePoints pointId sources runs) {run : String × List NativeRecord}
    (hrun : run ∈ runs) :
    run.1 ∈ point.hitsByRun.map Prod.fst ↔
      ∃ record ∈ run.2, record.identity = point.native.nativeKey ∧ 0 < record.hits := by
  obtain ⟨record, -, metric, -, hkey, hhits⟩ := mem_normalizePoints h
  have hat := hitsAt_incidenceOf hnodup record.identity run.1
  rw [find?_run hnodup hrun, Option.bind_some] at hat
  simp only [Incidence.hitsAt] at hat
  rw [hhits, hkey]
  generalize ((incidenceOf runs).hits.lookup record.identity).getD ∅ = dict at hat
  have hperm : ((sortedItems dict).map Prod.fst).Perm dict.keys := by
    have hsorted := (List.mergeSort_perm (dict.entries.map fun entry => (entry.1, entry.2))
      fun first second => !textBefore second.1.toList first.1.toList).map Prod.fst
    rw [List.map_map] at hsorted
    exact hsorted
  rw [hperm.mem_iff, ← not_iff_not, ← Dict.lookup_eq_none_iff, hat]
  simp only [lastHits, Option.map_eq_none_iff, List.getLast?_eq_none_iff, positiveRecords,
    List.filter_eq_nil_iff]
  simp

end Points

/-! ## When the points agree with the totals -/

theorem lastHits_le (records : List NativeRecord) (key : String) :
    (lastHits records key).getD 0 ≤ totalHits records key := by
  rw [totalHits_positive, lastHits]
  cases hlast : (positiveRecords records key).getLast? with
  | none => exact Nat.zero_le _
  | some record =>
    have hmem := List.mem_of_getLast? hlast
    exact List.single_le_sum (fun _ _ => Nat.zero_le _) _ (List.mem_map_of_mem hmem)

/-- The last hits are all of them where only one record has any. -/
theorem lastHits_eq_iff (records : List NativeRecord) (key : String) :
    (lastHits records key).getD 0 = totalHits records key ↔
      (positiveRecords records key).length ≤ 1 := by
  have hpos : ∀ record ∈ positiveRecords records key, 0 < record.hits := by
    intro record hmem
    simp only [positiveRecords, List.mem_filter, Bool.and_eq_true, decide_eq_true_eq] at hmem
    exact hmem.2.2
  rw [totalHits_positive, lastHits]
  generalize positiveRecords records key = found at hpos
  cases found using List.reverseRecOn with
  | nil => simp
  | append_singleton front last =>
    cases front with
    | nil => simp
    | cons first rest =>
      have hfirst := hpos first (by simp)
      rw [List.getLast?_concat]
      simp
      omega

theorem sum_eq_iff_of_le {α : Type} {xs : List α} {f g : α → Nat} (h : ∀ x ∈ xs, f x ≤ g x) :
    (xs.map f).sum = (xs.map g).sum ↔ ∀ x ∈ xs, f x = g x := by
  induction xs with
  | nil => simp
  | cons x xs ih =>
    have hx := h x List.mem_cons_self
    have hxs : ∀ y ∈ xs, f y ≤ g y := fun y hy => h y (List.mem_cons_of_mem _ hy)
    have hsum : (xs.map f).sum ≤ (xs.map g).sum := List.sum_le_sum hxs
    rw [List.map_cons, List.map_cons, List.sum_cons, List.sum_cons, List.forall_mem_cons, ← ih hxs]
    omega

/-- The points of a collection and its databases say the same. -/
structure IncidenceExact (runs : List (String × List NativeRecord)) (merged : List NativeRecord)
    (points : List NativePoint) : Prop where
  one : ∀ record ∈ runs.flatMap Prod.snd ++ merged, record.metric?.isSome = true →
    (points.filter (·.native.nativeKey == record.identity)).length = 1
  totals : ∀ point ∈ points, (point.hitsByRun.map Prod.snd).sum =
      totalHits (runs.flatMap Prod.snd) point.native.nativeKey ∧
    (point.hitsByRun.map Prod.snd).sum = totalHits merged point.native.nativeKey
  named : ∀ point ∈ points, ∀ run ∈ runs, run.1 ∈ point.hitsByRun.map Prod.fst ↔
    ∃ record ∈ run.2, record.identity = point.native.nativeKey ∧ 0 < record.hits

/-- No two records with hits of one identity of a known type. -/
def Unrepeated (records : List NativeRecord) : Prop :=
  ∀ record ∈ records, record.metric?.isSome = true →
    (positiveRecords records record.identity).length ≤ 1

section Exact

variable {pointId : NativePointIdentity → String} {sources : List CoverageSource}

theorem mem_raw_of_merged (h : mergeIsEquivalent runs merged = true) (hmem : record ∈ merged) :
    ∃ other ∈ runs.flatMap Prod.snd, other.identity = record.identity := by
  have hsame := mergeIsEquivalent_iff.mp h record.identity
  have hmerged : merged.any (·.identity == record.identity) = true := by
    simp only [List.any_eq_true, beq_iff_eq]
    exact ⟨record, hmem, rfl⟩
  rw [lookup_recordTotals, lookup_recordTotals, if_pos hmerged] at hsame
  split at hsame
  · rename_i hraw
    simp only [List.any_eq_true, beq_iff_eq] at hraw
    exact hraw
  · cases hsame

theorem one_point (pointId : NativePointIdentity → String) (sources : List CoverageSource)
    (h : record ∈ runs.flatMap Prod.snd) (hknown : record.metric?.isSome = true) :
    ∃ point ∈ normalizePoints pointId sources runs, point.native.nativeKey = record.identity := by
  have hlookup : (incidenceOf runs).records.lookup record.identity = _ := lookup_records _
  cases hfound : (runs.flatMap Prod.snd).reverse.find?
      (fun other => other.identity = record.identity) with
  | none =>
    have hnone := List.find?_eq_none.mp hfound record (List.mem_reverse.mpr h)
    simp at hnone
  | some last =>
    rw [hfound] at hlookup
    have hsame : last.identity = record.identity := by simpa using List.find?_some hfound
    have hentry := Dict.lookup_eq_some_iff.mp hlookup
    have hkey : record.identity ∈ (normalizePoints pointId sources runs).map
        (·.native.nativeKey) := by
      rw [nativeKeys_normalizePoints.mem_iff]
      refine List.mem_map.mpr ⟨⟨record.identity, last⟩, List.mem_filter.mpr ⟨hentry, ?_⟩, rfl⟩
      rw [metric?_eq hsame]
      exact hknown
    obtain ⟨point, hpoint, hname⟩ := List.mem_map.mp hkey
    exact ⟨point, hpoint, hname⟩

theorem one_of_nodup {points : List NativePoint} {key : String}
    (hnodup : (points.map (·.native.nativeKey)).Nodup)
    (h : ∃ point ∈ points, point.native.nativeKey = key) :
    (points.filter (·.native.nativeKey == key)).length = 1 := by
  have hcount := List.count_eq_one_of_mem hnodup (a := key) (by
    obtain ⟨point, hpoint, hname⟩ := h
    exact List.mem_map.mpr ⟨point, hpoint, hname⟩)
  rwa [List.count_eq_countP, List.countP_map, List.countP_eq_length_filter] at hcount

theorem incidenceExact_iff_unrepeated (hnodup : (runs.map Prod.fst).Nodup)
    (h : mergeIsEquivalent runs merged = true) :
    IncidenceExact runs merged (normalizePoints pointId sources runs) ↔
      ∀ run ∈ runs, Unrepeated run.2 := by
  have hbound : ∀ key, ∀ run ∈ runs, (lastHits run.2 key).getD 0 ≤ totalHits run.2 key :=
    fun key run _ => lastHits_le run.2 key
  constructor
  · intro hexact run hrun record hrecord hknown
    have hmem : record ∈ runs.flatMap Prod.snd := List.mem_flatMap.mpr ⟨run, hrun, hrecord⟩
    obtain ⟨point, hpoint, hkey⟩ := one_point pointId sources hmem hknown
    have htotal := (hexact.totals point hpoint).1
    rw [hitsByRun_sum hnodup hpoint, totalHits_flatMap, sum_eq_iff_of_le (hbound _), hkey] at htotal
    exact (lastHits_eq_iff run.2 record.identity).mp (htotal run hrun)
  · intro hunrepeated
    have htotal : ∀ point ∈ normalizePoints pointId sources runs,
        (point.hitsByRun.map Prod.snd).sum =
          totalHits (runs.flatMap Prod.snd) point.native.nativeKey := by
      intro point hpoint
      rw [hitsByRun_sum hnodup hpoint, totalHits_flatMap, sum_eq_iff_of_le (hbound _)]
      intro run hrun
      rw [lastHits_eq_iff]
      obtain ⟨record, -, metric, hmetric, hkey, -⟩ := mem_normalizePoints hpoint
      by_cases hheld : ∃ other ∈ run.2, other.identity = record.identity
      · obtain ⟨other, hother, hsame⟩ := hheld
        have hlength := hunrepeated run hrun other hother (by rw [metric?_eq hsame, hmetric]; rfl)
        rwa [hsame, ← hkey] at hlength
      · have hnone : positiveRecords run.2 point.native.nativeKey = [] := by
          rw [positiveRecords, List.filter_eq_nil_iff]
          intro other hother hmatch
          simp only [Bool.and_eq_true, beq_iff_eq] at hmatch
          exact hheld ⟨other, hother, hmatch.1.trans hkey⟩
        rw [hnone]
        exact Nat.zero_le _
    refine ⟨fun record hrecord hknown => one_of_nodup nativeKeys_nodup ?_,
      fun point hpoint => ⟨htotal point hpoint, ?_⟩,
      fun point hpoint run hrun => mem_hitsByRun_iff hnodup hpoint hrun⟩
    · rcases List.mem_append.mp hrecord with hraw | hmerged
      · exact one_point pointId sources hraw hknown
      · obtain ⟨other, hother, hsame⟩ := mem_raw_of_merged h hmerged
        rw [← hsame]
        exact one_point pointId sources hother (by rw [metric?_eq hsame]; exact hknown)
    · rw [htotal point hpoint, totalHits_of_equivalent h]

end Exact

/-! ## A collection -/

/-- The digits of a run's number stand before the second colon. -/
theorem runId_inj {index other : Nat} {name otherName : String}
    (h : runId index name = runId other otherName) : index = other := by
  have hchars := String.ofList_injective h
  rw [List.append_assoc, List.append_assoc] at hchars
  have hrest := congrArg (List.takeWhile Char.isDigit) (List.append_cancel_left hchars)
  have hdigits : ∀ (n : Nat) (text : List Char),
      (zeroPadded 3 n ++ ':' :: text).takeWhile Char.isDigit = zeroPadded 3 n := by
    intro n text
    have hcolon : (':' :: text).takeWhile Char.isDigit = [] := rfl
    rw [List.takeWhile_append_of_pos fun c hc => isDigit_of_mem_zeroPadded hc, hcolon,
      List.append_nil]
  rw [hdigits, hdigits] at hrest
  exact zeroPadded_inj hrest

theorem numberedFrom_nodup (index : Nat) (collected : List CollectedRun) :
    ((numberedFrom index collected).map Prod.fst).Nodup := by
  have hlater : ∀ (index : Nat) (collected : List CollectedRun),
      ∀ id ∈ (numberedFrom index collected).map Prod.fst,
        ∃ place name, index ≤ place ∧ id = runId place name := by
    intro index collected
    induction collected generalizing index with
    | nil => intro id hid; cases hid
    | cons run collected ih =>
      intro id hid
      rcases List.mem_cons.mp hid with rfl | hrest
      · exact ⟨index, run.name, Nat.le_refl _, rfl⟩
      · obtain ⟨place, name, hle, heq⟩ := ih (index + 1) id hrest
        exact ⟨place, name, by omega, heq⟩
  induction collected generalizing index with
  | nil => exact .nil
  | cons run collected ih =>
    refine List.nodup_cons.mpr ⟨fun hmem => ?_, ih (index + 1)⟩
    obtain ⟨place, name, hle, heq⟩ := hlater (index + 1) collected _ hmem
    have hsame := runId_inj heq
    omega

theorem forall_numberedFrom (index : Nat) (collected : List CollectedRun)
    (P : List NativeRecord → Prop) :
    (∀ run ∈ numberedFrom index collected, P run.2) ↔ ∀ run ∈ collected, P run.records := by
  induction collected generalizing index with
  | nil => simp [numberedFrom]
  | cons run collected ih => rw [numberedFrom, List.forall_mem_cons, ih, List.forall_mem_cons]

theorem mergeCollection_eq {pointId : NativePointIdentity → String}
    {sources : List CoverageSource} {collected : List CollectedRun}
    (h : mergeIsEquivalent (numberedFrom 1 collected) merged = true) :
    mergeCollection pointId sources collected merged =
      .complete (normalizePoints pointId sources (numberedFrom 1 collected)) := by
  rw [mergeCollection, if_pos h]

/-- Points and databases of a complete collection say the same exactly when no run repeats an
identity with hits. -/
theorem incidenceExact_iff (pointId : NativePointIdentity → String)
    (sources : List CoverageSource) (collected : List CollectedRun) (merged : List NativeRecord)
    (points : List NativePoint)
    (h : mergeCollection pointId sources collected merged = .complete points) :
    IncidenceExact (numberedFrom 1 collected) merged points ↔
      ∀ run ∈ collected, Unrepeated run.records := by
  rw [mergeCollection] at h
  split at h
  · rename_i hequivalent
    cases h
    rw [incidenceExact_iff_unrepeated (numberedFrom_nodup 1 collected) hequivalent,
      forall_numberedFrom]
  · cases h

/-! ## A line covered twice -/

def lineIdentity : String := "\x01f\x02top.v\x01l\x027\x01n\x023\x01t\x02line\x01h\x02top"

def lineRecord (hits : Nat) : NativeRecord where
  identity := lineIdentity
  attributes := [("f", "top.v"), ("l", "7"), ("n", "3"), ("t", "line"), ("h", "top")]
  hits := hits
  parsed := by decide +kernel

/-- Two runs that cover the line. -/
def coveredTwice : List CollectedRun := [⟨"smoke", [lineRecord 2]⟩, ⟨"reset", [lineRecord 3]⟩]

/-- One run whose database names the line twice. -/
def namedTwice : List CollectedRun := [⟨"smoke", [lineRecord 2, lineRecord 3]⟩]

theorem positive_lineRecord (hits : Nat) : ∀ record ∈ [lineRecord hits],
    (positiveRecords [lineRecord hits] record.identity).length ≤ 1 := by
  intro record _
  exact (List.length_filter_le _ _).trans (Nat.le_refl 1)

theorem incidenceExact_coveredTwice :
    IncidenceExact (numberedFrom 1 coveredTwice) [lineRecord 5]
      (normalizePoints (·.nativeKey) [] (numberedFrom 1 coveredTwice)) := by
  have hequivalent : mergeIsEquivalent (numberedFrom 1 coveredTwice) [lineRecord 5] = true := by
    decide +kernel
  refine (incidenceExact_iff _ [] coveredTwice [lineRecord 5] _
    (mergeCollection_eq hequivalent)).mpr ?_
  intro run hrun record hrecord _
  rcases List.mem_pair.mp hrun with rfl | rfl
  · exact positive_lineRecord 2 record hrecord
  · exact positive_lineRecord 3 record hrecord

/-- The point of a line that one database names twice holds the hits of the second record only. -/
theorem not_incidenceExact_namedTwice : ∃ points : List NativePoint,
    mergeCollection (·.nativeKey) [] namedTwice [lineRecord 5] = .complete points ∧
      ¬ IncidenceExact (numberedFrom 1 namedTwice) [lineRecord 5] points := by
  have hequivalent : mergeIsEquivalent (numberedFrom 1 namedTwice) [lineRecord 5] = true := by
    decide +kernel
  refine ⟨_, mergeCollection_eq hequivalent, fun hexact => ?_⟩
  have hunrepeated := (incidenceExact_iff_unrepeated (numberedFrom_nodup 1 namedTwice)
    hequivalent).mp hexact _ List.mem_cons_self (lineRecord 2) List.mem_cons_self (by decide +kernel)
  exact absurd hunrepeated (by decide +kernel)

end Booley.Coverage
