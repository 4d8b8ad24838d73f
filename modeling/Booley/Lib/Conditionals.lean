import Mathlib.Data.List.ReduceOption
import Mathlib.Tactic.Common

/-!
# Conditional text

A text with conditional branches is a nest of chains: a condition, further conditions that are only
asked where all before them failed, and at last a branch for the rest. It stands for the lines of
the branches that are taken.
-/
namespace Booley.Lib

universe u v

variable {α : Type u} {μ : Type v}

/-- What a line that is not text says. A flag that cannot be read is missing. -/
inductive Directive (μ : Type v) where
  | opening (negated : Bool) (flag : Option μ)
  | elsif (flag : Option μ)
  | otherwise
  | closing
deriving DecidableEq, Repr

mutual
/-- Lines and chains of branches, one behind the other. -/
inductive Block (α : Type u) (μ : Type v) where
  | nil
  | line (text : α) (rest : Block α μ)
  | chain (opening : α) (negated : Bool) (flag : μ) (body : Block α μ) (tail : Branches α μ)
      (rest : Block α μ)
/-- What follows the first branch of a chain. -/
inductive Branches (α : Type u) (μ : Type v) where
  | elsif (line : α) (flag : μ) (body : Block α μ) (tail : Branches α μ)
  | otherwise (line : α) (body : Block α μ) (closing : α)
  | closing (line : α)
end

mutual
/-- The lines of a block as they stand in the text. -/
def Block.lines : Block α μ → List α
  | .nil => []
  | .line text rest => text :: rest.lines
  | .chain opening _ _ body tail rest => opening :: (body.lines ++ (tail.lines ++ rest.lines))
def Branches.lines : Branches α μ → List α
  | .elsif line _ body tail => line :: (body.lines ++ tail.lines)
  | .otherwise line body closing => line :: (body.lines ++ [closing])
  | .closing line => [line]
end

mutual
/-- The flags that some condition of a block tests. -/
def Block.flags : Block α μ → List μ
  | .nil => []
  | .line _ rest => rest.flags
  | .chain _ _ flag body tail rest => flag :: (body.flags ++ (tail.flags ++ rest.flags))
def Branches.flags : Branches α μ → List μ
  | .elsif _ flag body tail => flag :: (body.flags ++ tail.flags)
  | .otherwise _ body _ => body.flags
  | .closing _ => []
end

mutual
/-- The lines that a block stands for, where `holds` says at each line whether a flag is defined
there. -/
def Block.compiled (holds : α → μ → Bool) : Block α μ → List α
  | .nil => []
  | .line text rest => text :: rest.compiled holds
  | .chain opening negated flag body tail rest =>
    (if holds opening flag != negated then body.compiled holds else tail.compiled holds) ++
      rest.compiled holds
def Branches.compiled (holds : α → μ → Bool) : Branches α μ → List α
  | .elsif line flag body tail =>
    if holds line flag then body.compiled holds else tail.compiled holds
  | .otherwise _ body _ => body.compiled holds
  | .closing _ => []
end

mutual
/-- A block has the shape that `read` makes of its lines. -/
def Block.ReadBy (read : α → Option (Directive μ)) : Block α μ → Prop
  | .nil => True
  | .line text rest => read text = none ∧ rest.ReadBy read
  | .chain opening negated flag body tail rest =>
    read opening = some (.opening negated (some flag)) ∧ body.ReadBy read ∧ tail.ReadBy read ∧
      rest.ReadBy read
def Branches.ReadBy (read : α → Option (Directive μ)) : Branches α μ → Prop
  | .elsif line flag body tail =>
    read line = some (.elsif (some flag)) ∧ body.ReadBy read ∧ tail.ReadBy read
  | .otherwise line body closing =>
    read line = some .otherwise ∧ body.ReadBy read ∧ read closing = some .closing
  | .closing line => read line = some .closing
end

mutual
theorem Block.mem_lines_of_compiled {holds : α → μ → Bool} {x : α} :
    ∀ block : Block α μ, x ∈ block.compiled holds → x ∈ block.lines
  | .nil, h => h
  | .line text rest, h => by
    rcases List.mem_cons.mp h with rfl | h
    · exact List.mem_cons_self
    · exact List.mem_cons_of_mem _ (rest.mem_lines_of_compiled h)
  | .chain opening negated flag body tail rest, h => by
    simp only [Block.compiled, List.mem_append] at h
    simp only [Block.lines, List.mem_cons, List.mem_append]
    rcases h with h | h
    · split at h
      · exact .inr (.inl (body.mem_lines_of_compiled h))
      · exact .inr (.inr (.inl (tail.mem_lines_of_compiled h)))
    · exact .inr (.inr (.inr (rest.mem_lines_of_compiled h)))
theorem Branches.mem_lines_of_compiled {holds : α → μ → Bool} {x : α} :
    ∀ tail : Branches α μ, x ∈ tail.compiled holds → x ∈ tail.lines
  | .elsif line flag body tail, h => by
    simp only [Branches.compiled] at h
    simp only [Branches.lines, List.mem_cons, List.mem_append]
    split at h
    · exact .inr (.inl (body.mem_lines_of_compiled h))
    · exact .inr (.inr (tail.mem_lines_of_compiled h))
  | .otherwise line body closing, h => by
    simp only [Branches.lines, List.mem_cons, List.mem_append]
    exact .inr (.inl (body.mem_lines_of_compiled h))
  | .closing line, h => by cases h
end

mutual
/-- Two readings that agree on the lines of a block give it the same shape. -/
theorem Block.ReadBy.congr {read other : α → Option (Directive μ)} :
    ∀ {block : Block α μ}, block.ReadBy read → (∀ x ∈ block.lines, other x = read x) →
      block.ReadBy other
  | .nil, _, _ => trivial
  | .line _ _, ⟨htext, hrest⟩, hagree => by
    refine ⟨?_, hrest.congr fun x hx => hagree x (List.mem_cons_of_mem _ hx)⟩
    rw [hagree _ List.mem_cons_self, htext]
  | .chain _ _ _ _ _ _, ⟨hopening, hbody, htail, hrest⟩, hagree => by
    simp only [Block.lines, List.mem_cons, List.mem_append] at hagree
    refine ⟨?_, hbody.congr fun x hx => hagree x (.inr (.inl hx)),
      htail.congr fun x hx => hagree x (.inr (.inr (.inl hx))),
      hrest.congr fun x hx => hagree x (.inr (.inr (.inr hx)))⟩
    rw [hagree _ (.inl rfl), hopening]
theorem Branches.ReadBy.congr {read other : α → Option (Directive μ)} :
    ∀ {tail : Branches α μ}, tail.ReadBy read → (∀ x ∈ tail.lines, other x = read x) →
      tail.ReadBy other
  | .elsif _ _ _ _, ⟨hline, hbody, htail⟩, hagree => by
    simp only [Branches.lines, List.mem_cons, List.mem_append] at hagree
    refine ⟨?_, hbody.congr fun x hx => hagree x (.inr (.inl hx)),
      htail.congr fun x hx => hagree x (.inr (.inr hx))⟩
    rw [hagree _ (.inl rfl), hline]
  | .otherwise _ _ _, ⟨hline, hbody, hclosing⟩, hagree => by
    simp only [Branches.lines, List.mem_cons, List.mem_append, List.mem_nil_iff, or_false]
      at hagree
    refine ⟨?_, hbody.congr fun x hx => hagree x (.inr (.inl hx)), ?_⟩
    · rw [hagree _ (.inl rfl), hline]
    · rw [hagree _ (.inr (.inr rfl)), hclosing]
  | .closing _, hline, hagree => by
    rw [Branches.ReadBy, hagree _ List.mem_cons_self]
    exact hline
end

end Booley.Lib
