import Booley.Waves.StoredBits
import Booley.Waves.Virtual
import Mathlib.Data.Set.Basic

/-!
# What virtual expressions read

An expression names slices of signals, and reads them in two ways: equalities compare the bits
of the slice, orders and truth values read the whole value as a number first.
-/
namespace Booley.Waves

open Booley.Lib

/-! ## Two assignments -/

/-- The bits of every signal at its declared width, the most significant first. -/
structure Assignment (widths : Nat → Nat) where
  bits : Nat → Text
  length_bits : ∀ idx, (bits idx).length = widths idx
  logic_bits : ∀ idx, (bits idx).all isLogic = true

def Assignment.stored {widths : Nat → Nat} (values : Assignment widths) (idx : Nat) : Text :=
  storedValue (values.bits idx)

/-- The signals and slices that an expression names. -/
abbrev SliceSet := Set (Nat × Option BitSlice)

section Readings

variable {widths : Nat → Nat}

/-- Slices as resolution admits them: within the declared width. -/
def InRange (widths : Nat → Nat) (operands : SliceSet) : Prop :=
  ∀ idx slice, (idx, some slice) ∈ operands → slice.2 ≤ slice.1 ∧ slice.1 < widths idx

/-- Two assignments hold the same bits in every named slice, and in every signal that is named
whole. -/
structure Agree (left right : Assignment widths) (operands : SliceSet) : Prop where
  whole : ∀ idx, (idx, none) ∈ operands → left.bits idx = right.bits idx
  sliced : ∀ idx slice, (idx, some slice) ∈ operands →
    slicedBits (left.bits idx) slice = slicedBits (right.bits idx) slice

def ResolvedRhs.Within (widths : Nat → Nat) (operands : SliceSet) : ResolvedRhs → Prop
  | .value _ => True
  | .signal idx width slice => width = widths idx ∧ (idx, slice) ∈ operands

/-- An atom compares and reads as numbers only named slices, at their declared widths. -/
def ResolvedAtom.Within (widths : Nat → Nat) (compared numeric : SliceSet) : ResolvedAtom → Prop
  | .nonZero idx width slice => width = widths idx ∧ (idx, slice) ∈ numeric
  | .equal idx width slice rhs | .notEqual idx width slice rhs =>
    (width = widths idx ∧ (idx, slice) ∈ compared) ∧ rhs.Within widths compared
  | .gt idx width slice rhs | .gte idx width slice rhs | .lt idx width slice rhs
  | .lte idx width slice rhs =>
    (width = widths idx ∧ (idx, slice) ∈ numeric) ∧ rhs.Within widths numeric
  | .virtualRef _ => True

mutual

def ResolvedExpr.Within (widths : Nat → Nat) (compared numeric : SliceSet) : ResolvedExpr → Prop
  | .atom a => a.Within widths compared numeric
  | .not inner => inner.Within widths compared numeric
  | .combine _ children => ExprsWithin widths compared numeric children

def ExprsWithin (widths : Nat → Nat) (compared numeric : SliceSet) : List ResolvedExpr → Prop
  | [] => True
  | child :: rest =>
    child.Within widths compared numeric ∧ ExprsWithin widths compared numeric rest

end

variable {left right : Assignment widths} {compared numeric : SliceSet}

mutual

/-- An expression whose atoms evaluate alike evaluates alike. -/
theorem evalExpr_eq {getLeft getRight : Nat → Text} {getVirtual : Nat → Bool}
    (hatom : ∀ a : ResolvedAtom, a.Within widths compared numeric →
      evalAtom a getLeft getVirtual = evalAtom a getRight getVirtual) :
    ∀ expr : ResolvedExpr, expr.Within widths compared numeric →
      evalExpr getLeft getVirtual expr = evalExpr getRight getVirtual expr
  | .atom a, h => hatom a h
  | .not inner, h => by rw [evalExpr, evalExpr, evalExpr_eq hatom inner h]
  | .combine op children, h => by rw [evalExpr, evalExpr, evalExprs_eq hatom children h]

theorem evalExprs_eq {getLeft getRight : Nat → Text} {getVirtual : Nat → Bool}
    (hatom : ∀ a : ResolvedAtom, a.Within widths compared numeric →
      evalAtom a getLeft getVirtual = evalAtom a getRight getVirtual) :
    ∀ children : List ResolvedExpr, ExprsWithin widths compared numeric children →
      evalExprs getLeft getVirtual children = evalExprs getRight getVirtual children
  | [], _ => rfl
  | child :: rest, h => by
    rw [evalExprs, evalExprs, evalExpr_eq hatom child h.1, evalExprs_eq hatom rest h.2]

end

/-! ## Telling readings apart -/

/-- A hex text of a number. -/
def numberText (value : Nat) : Text := '0' :: ((Nat.digits 16 value).reverse.map nibbleToHex)

end Readings

/-! ## Two bits and one of them named -/

end Booley.Waves
