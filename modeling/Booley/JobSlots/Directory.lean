import Mathlib.Data.List.Nodup
import Mathlib.Data.List.Perm.Subperm
import Booley.JobSlots.Names

/-!
# The directory of a Job Class

The entry files of one class, and the file operations of the slot store: exclusive link, replace,
unlink and rename. Ranks and sequence numbers are read off a listing.
-/
namespace Booley.JobSlots

/-- The entry files of a class; a name occurs once. -/
structure Directory where
  entries : List Entry
  distinct : entries.Nodup

namespace Directory

def empty : Directory := ⟨[], List.nodup_nil⟩

instance : Membership Entry Directory := ⟨fun dir entry => entry ∈ dir.entries⟩

/-- `path.exists()` -/
def has (dir : Directory) (entry : Entry) : Bool := dir.entries.contains entry

/-- `path.unlink(missing_ok=True)` -/
def unlink (dir : Directory) (entry : Entry) : Directory where
  entries := dir.entries.filter (· != entry)
  distinct := dir.distinct.filter _

/-- The file appears under this name; one that is there is replaced. -/
def put (dir : Directory) (entry : Entry) : Directory where
  entries := entry :: (dir.unlink entry).entries
  distinct := List.nodup_cons.mpr ⟨by simp [unlink], (dir.unlink entry).distinct⟩

/-- `source.rename(target)` -/
def rename (dir : Directory) (source target : Entry) : Directory := (dir.unlink source).put target

/-- How many entries of a listing meet a test. -/
def count (dir : Directory) (test : Entry → Bool) : Nat := dir.entries.countP test

variable {dir other : Directory} {entry x : Entry} {test test' : Entry → Bool}

theorem mem_def : x ∈ dir ↔ x ∈ dir.entries := Iff.rfl

@[simp] theorem not_mem_empty : x ∉ empty := by simp [empty, mem_def]

theorem has_iff : dir.has entry = true ↔ entry ∈ dir := by simp [has, mem_def]

@[simp] theorem mem_unlink : x ∈ dir.unlink entry ↔ x ∈ dir ∧ x ≠ entry := by
  simp [unlink, mem_def]

@[simp] theorem mem_put : x ∈ dir.put entry ↔ x = entry ∨ x ∈ dir := by
  by_cases heq : x = entry
  · simp [put, mem_def, heq]
  · simp [put, unlink, mem_def, heq]

@[simp] theorem mem_rename {target : Entry} :
    x ∈ dir.rename entry target ↔ x = target ∨ x ∈ dir ∧ x ≠ entry := by
  simp [rename]

/-- A test that meets less of a smaller listing counts less. -/
theorem count_le (h : ∀ x ∈ dir, test x = true → x ∈ other ∧ test' x = true) :
    dir.count test ≤ other.count test' := by
  have hsub : (dir.entries.filter test).Subperm (other.entries.filter test') := by
    refine List.subperm_of_subset (dir.distinct.filter _) ?_
    intro x hx
    obtain ⟨hmem, htest⟩ := List.mem_filter.mp hx
    obtain ⟨hother, htest'⟩ := h x hmem htest
    exact List.mem_filter.mpr ⟨hother, htest'⟩
  rw [count, count, List.countP_eq_length_filter, List.countP_eq_length_filter]
  exact hsub.length_le

theorem count_unlink_le (test : Entry → Bool) : (dir.unlink entry).count test ≤ dir.count test :=
  count_le fun _ hmem htest => ⟨(mem_unlink.mp hmem).1, htest⟩

theorem count_put_le (test : Entry → Bool) : (dir.put entry).count test ≤ dir.count test + 1 := by
  have hrest : (dir.unlink entry).count test ≤ dir.count test := count_unlink_le test
  have hcount : (dir.put entry).count test ≤ (dir.unlink entry).count test + 1 := by
    simp only [count, put, List.countP_cons]
    split <;> omega
  omega

/-- An entry that fails the test, or is there already, adds nothing. -/
theorem count_put_of (h : test entry = true → entry ∈ dir) :
    (dir.put entry).count test ≤ dir.count test := by
  refine count_le fun x hmem htest => ⟨?_, htest⟩
  rcases mem_put.mp hmem with rfl | hx
  · exact h htest
  · exact hx

/-! ## Ranks -/

/-- Entries that hold a slot. -/
def isHolder (entry : Entry) : Bool := entry.state == .holder

/-- `_rank`: the entry's index in the sorted listing, as if it were there. -/
def rank (dir : Directory) (entry : Entry) : Nat := dir.count (before · entry)

/-- `_next_seq`: one past the largest sequence number of the listing. -/
def nextSeq (dir : Directory) : Nat :=
  dir.entries.foldl (fun top entry => Nat.max top entry.seq) 0 + 1

theorem seq_lt_nextSeq (h : x ∈ dir) : x.seq < dir.nextSeq := by
  have hmax : ∀ (entries : List Entry) (top : Nat),
      top ≤ entries.foldl (fun top entry => Nat.max top entry.seq) top ∧
        ∀ x ∈ entries, x.seq ≤ entries.foldl (fun top entry => Nat.max top entry.seq) top := by
    intro entries
    induction entries with
    | nil => simp
    | cons entry entries ih =>
      intro top
      obtain ⟨htop, hall⟩ := ih (Nat.max top entry.seq)
      have hleft : top ≤ Nat.max top entry.seq := Nat.le_max_left _ _
      have hright : entry.seq ≤ Nat.max top entry.seq := Nat.le_max_right _ _
      refine ⟨by simp only [List.foldl_cons]; omega, ?_⟩
      intro x hx
      rcases List.mem_cons.mp hx with rfl | hx
      · simp only [List.foldl_cons]
        omega
      · exact hall x hx
  have hle := (hmax dir.entries 0).2 x h
  exact Nat.lt_succ_of_le hle

/-- Every holder ranks ahead of a waiter. -/
theorem holders_le_rank (hwaiter : entry.state = .waiter) :
    dir.count isHolder ≤ dir.rank entry := by
  refine count_le fun x hmem hholder => ⟨hmem, ?_⟩
  exact before_of_holder (by simpa [isHolder] using hholder) hwaiter

theorem rank_unlink_le (x : Entry) : (dir.unlink x).rank entry ≤ dir.rank entry :=
  count_unlink_le _

end Directory

end Booley.JobSlots
