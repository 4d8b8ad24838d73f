import Mathlib.Data.List.Nodup
import Mathlib.Data.List.Pairwise
import Mathlib.Data.String.Basic
import Mathlib.Order.Basic

/-!
# Sorting by a key

A sort by key is stable: rows of one key keep their order. The order of the rows is lost exactly
where rows of one key are equal.
-/
namespace Booley.Lib

variable {α κ : Type*} [LinearOrder κ] {key : α → κ}

def keyLE (key : α → κ) (a b : α) : Bool := decide (key a ≤ key b)

theorem keyLE_trans (a b c : α) (hab : keyLE key a b = true) (hbc : keyLE key b c = true) :
    keyLE key a c = true :=
  decide_eq_true ((of_decide_eq_true hab).trans (of_decide_eq_true hbc))

theorem keyLE_total (a b : α) : (keyLE key a b || keyLE key b a) = true := by
  simpa [keyLE] using le_total (key a) (key b)

def sortBy (key : α → κ) (rows : List α) : List α := rows.mergeSort (keyLE key)

theorem sortBy_perm (key : α → κ) (rows : List α) : (sortBy key rows).Perm rows :=
  List.mergeSort_perm _ _

@[simp] theorem mem_sortBy {rows : List α} {row : α} : row ∈ sortBy key rows ↔ row ∈ rows :=
  (sortBy_perm key rows).mem_iff

theorem sortBy_sorted (key : α → κ) (rows : List α) :
    (sortBy key rows).Pairwise fun a b => key a ≤ key b := by
  have hpairwise := List.pairwise_mergeSort (@keyLE_trans α κ _ key) keyLE_total rows
  exact hpairwise.imp of_decide_eq_true

/-- Rows of one key stay in their order. -/
theorem filter_sortBy (rows : List α) (k : κ) :
    (sortBy key rows).filter (fun row => decide (key row = k)) =
      rows.filter fun row => decide (key row = k) := by
  have hsame : (rows.filter fun row => decide (key row = k)).Pairwise
      fun a b => keyLE key a b = true := by
    refine List.pairwise_of_forall_mem_list fun a ha b hb => ?_
    have ha := of_decide_eq_true (List.mem_filter.mp ha).2
    have hb := of_decide_eq_true (List.mem_filter.mp hb).2
    exact decide_eq_true (ha.trans hb.symm).le
  have hsublist : (rows.filter fun row => decide (key row = k)).Sublist (sortBy key rows) :=
    List.sublist_mergeSort keyLE_trans keyLE_total hsame List.filter_sublist
  have hfiltered := hsublist.filter fun row => decide (key row = k)
  rw [List.filter_filter, List.filter_congr fun _ _ => Bool.and_self _] at hfiltered
  exact (hfiltered.eq_of_length
    (((sortBy_perm key rows).filter _).length_eq.symm)).symm

/-- Rows that their keys tell apart are sorted one way only. -/
theorem sortBy_eq_of_perm {rows others : List α} (h : rows.Perm others)
    (hties : ∀ a ∈ rows, ∀ b ∈ rows, key a = key b → a = b) :
    sortBy key rows = sortBy key others := by
  have hperm : (sortBy key rows).Perm (sortBy key others) :=
    (sortBy_perm key rows).trans (h.trans (sortBy_perm key others).symm)
  refine hperm.eq_of_pairwise ?_ (sortBy_sorted key rows) (sortBy_sorted key others)
  intro a b ha hb hab hba
  exact hties a (mem_sortBy.mp ha) b (h.mem_iff.mpr (mem_sortBy.mp hb)) (le_antisymm hab hba)

/-! ## Rows of several lists -/

section Lists

variable {ι : Type*} {rows : ι → List α} {items : List ι}

/-- No two rows of two lists share a key, unless they are equal. -/
def Untied (key : α → κ) (rows : ι → List α) (items : List ι) : Prop :=
  items.Pairwise fun item other => ∀ a ∈ rows item, ∀ b ∈ rows other, key a = key b → a = b

/-- The sorted rows of several lists are the same in every order of the lists, if and only if no
two lists have different rows of one key. -/
theorem sortBy_flatMap_iff (honce : ∀ item ∈ items, ((rows item).map key).Nodup) :
    (∀ others, items.Perm others →
      sortBy key (others.flatMap rows) = sortBy key (items.flatMap rows)) ↔
    Untied key rows items := by
  constructor
  · intro h
    rw [Untied, List.pairwise_iff_forall_sublist]
    intro item other hsub a ha b hb hkey
    obtain ⟨rest, hperm⟩ := hsub.exists_perm_append
    have hswap : items.Perm (other :: item :: rest) :=
      hperm.trans (List.Perm.swap other item rest)
    have hsame := (h _ hperm).trans (h _ hswap).symm
    have hitem : item ∈ items := hsub.subset List.mem_cons_self
    have hother : other ∈ items := hsub.subset (by simp)
    -- the rows of the key of `a`, in the two orders
    have hrows := congrArg (List.filter fun row => decide (key row = key a)) hsame
    rw [filter_sortBy, filter_sortBy] at hrows
    simp only [List.cons_append, List.nil_append, List.flatMap_cons, List.filter_append] at hrows
    have hhead : ∀ {list : ι} {row : α}, list ∈ items → row ∈ rows list → key row = key a →
        ((rows list).filter fun row => decide (key row = key a)).head? = some row := by
      intro list row hlist hrow hrowKey
      cases hfilter : (rows list).filter fun row => decide (key row = key a) with
      | nil =>
        have hmem : row ∈ (rows list).filter fun row => decide (key row = key a) :=
          List.mem_filter.mpr ⟨hrow, decide_eq_true hrowKey⟩
        rw [hfilter] at hmem
        cases hmem
      | cons first tail =>
        have hfirst : first ∈ (rows list).filter fun row => decide (key row = key a) := by
          rw [hfilter]
          exact List.mem_cons_self
        obtain ⟨hmem, hfirstKey⟩ := List.mem_filter.mp hfirst
        have heq := List.inj_on_of_nodup_map (honce list hlist) hmem hrow
          ((of_decide_eq_true hfirstKey).trans hrowKey.symm)
        rw [heq]
        rfl
    have hheads := congrArg List.head? hrows
    simp only [List.head?_append, hhead hitem ha rfl, hhead hother hb hkey.symm,
      Option.some_or] at hheads
    exact Option.some.inj hheads
  · intro hties others hperm
    refine (sortBy_eq_of_perm (hperm.flatMap_right rows) ?_).symm
    have hall : ∀ item ∈ items, ∀ other ∈ items, ∀ a ∈ rows item, ∀ b ∈ rows other,
        key a = key b → a = b := by
      have hsymm : Std.Symm fun item other : ι => ∀ a ∈ rows item, ∀ b ∈ rows other,
          key a = key b → a = b :=
        ⟨fun item other h a ha b hb hkey => (h b hb a ha hkey.symm).symm⟩
      exact List.Pairwise.forall_of_forall (fun item hitem a ha b hb hkey =>
        List.inj_on_of_nodup_map (honce item hitem) ha hb hkey) hties
    intro a ha b hb hkey
    obtain ⟨item, hitem, ha⟩ := List.mem_flatMap.mp ha
    obtain ⟨other, hother, hb⟩ := List.mem_flatMap.mp hb
    exact hall item hitem other hother a ha b hb hkey

end Lists

end Booley.Lib
