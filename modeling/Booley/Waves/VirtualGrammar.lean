import Booley.Lib.Except
import Booley.Waves.VirtualSyntax

/-!
# The grammar of virtual signals

The parser accepts exactly the tokens of the grammar, and returns the one tree they spell.
-/
namespace Booley.Waves

open Booley.Lib

variable {tokens rest : List Token} {expr : Expr} {pattern : Text} {slice : Option SliceSpec}

def Rhs.token : Rhs → Token
  | .value hex => .literal hex
  | .signal pattern slice => .signal pattern slice

/-- The nonterminals; a chain holds the terms behind an operator. -/
inductive Form where
  | primary
  | term
  | chain (op : CombineOp)
  | expr

/-- The trees that tokens spell. -/
inductive Spells : Form → List Token → Expr → Prop
  | signal (pattern : Text) (slice : Option SliceSpec) :
      Spells .primary [.signal pattern slice] (.atom (.nonZero pattern slice))
  | compared (pattern : Text) (slice : Option SliceSpec) (op : CmpOp) (rhs : Rhs) :
      Spells .primary [.signal pattern slice, .cmp op, rhs.token]
        (.atom (op.atom pattern slice rhs))
  | group {tokens : List Token} {expr : Expr} (h : Spells .expr tokens expr) :
      Spells .primary (.lparen :: (tokens ++ [.rparen])) expr
  | groupCompared {tokens : List Token} {pattern : Text} {slice : Option SliceSpec}
      (h : Spells .expr tokens (.atom (.nonZero pattern slice))) (op : CmpOp) (rhs : Rhs) :
      Spells .primary (.lparen :: (tokens ++ [.rparen, .cmp op, rhs.token]))
        (.atom (op.atom pattern slice rhs))
  | not {tokens : List Token} {expr : Expr} (h : Spells .primary tokens expr) :
      Spells .term (.not :: tokens) (.not expr)
  | plain {tokens : List Token} {expr : Expr} (h : Spells .primary tokens expr) :
      Spells .term tokens expr
  | last {tokens : List Token} {expr : Expr} (op : CombineOp) (h : Spells .term tokens expr) :
      Spells (.chain op) tokens (.combine op [expr])
  | more {tokens others : List Token} {expr : Expr} {op : CombineOp} {children : List Expr}
      (h : Spells .term tokens expr) (hothers : Spells (.chain op) others (.combine op children)) :
      Spells (.chain op) (tokens ++ .combine op :: others) (.combine op (expr :: children))
  | single {tokens : List Token} {expr : Expr} (h : Spells .term tokens expr) :
      Spells .expr tokens expr
  | combined {tokens others : List Token} {expr : Expr} {op : CombineOp} {children : List Expr}
      (h : Spells .term tokens expr) (hothers : Spells (.chain op) others (.combine op children)) :
      Spells .expr (tokens ++ .combine op :: others) (.combine op (expr :: children))

/-! ## What the parser returns is spelled -/

/-- What a parser returns is spelled by the tokens it took. -/
def Sound (form : Form) (parse : List Token → Except VirtualError (Expr × List Token)) : Prop :=
  ∀ tokens expr rest, parse tokens = .ok (expr, rest) →
    ∃ used, tokens = used ++ rest ∧ Spells form used expr

theorem parseCmpTail_ok {atom : Atom} (h : parseCmpTail pattern slice tokens = .ok (atom, rest)) :
    (tokens = rest ∧ atom = .nonZero pattern slice) ∨
      ∃ op rhs, tokens = .cmp op :: rhs.token :: rest ∧ atom = op.atom pattern slice rhs := by
  unfold parseCmpTail at h
  split at h
  case h_1 op hex _ =>
    cases h
    exact .inr ⟨op, .value hex, rfl, rfl⟩
  case h_2 op name other _ =>
    cases h
    exact .inr ⟨op, .signal name other, rfl, rfl⟩
  case h_3 => cases h
  case h_4 =>
    cases h
    exact .inl ⟨rfl, rfl⟩

section Terms

variable {parse : List Token → Except VirtualError (Expr × List Token)}

theorem Sound.primary (hparse : Sound .expr parse) : Sound .primary (parsePrimary parse) := by
  intro tokens expr rest h
  unfold parsePrimary at h
  split at h
  · obtain ⟨⟨inner, after⟩, hinner, hthen⟩ := except_bind_eq_ok.mp h
    obtain ⟨used, rfl, hspelled⟩ := hparse _ _ _ hinner
    split at hthen
    · rename_i pattern slice after heq
      obtain ⟨rfl, rfl⟩ := Prod.mk.inj heq
      obtain ⟨⟨atom, final⟩, htail, hatom⟩ := except_bind_eq_ok.mp hthen
      cases hatom
      rcases parseCmpTail_ok htail with ⟨rfl, rfl⟩ | ⟨op, rhs, rfl, rfl⟩
      · exact ⟨_, by simp, .group hspelled⟩
      · exact ⟨_, by simp, .groupCompared hspelled op rhs⟩
    · cases hthen
    · rename_i heq
      cases hthen
      cases heq
      exact ⟨_, by simp, .group hspelled⟩
    · cases hthen
  · obtain ⟨⟨atom, final⟩, hatom, hthen⟩ := except_bind_eq_ok.mp h
    cases hthen
    unfold parseAtom at hatom
    split at hatom
    · rcases parseCmpTail_ok hatom with ⟨rfl, rfl⟩ | ⟨op, rhs, rfl, rfl⟩
      · exact ⟨_, rfl, .signal _ _⟩
      · exact ⟨_, rfl, .compared _ _ op rhs⟩
    · cases hatom
    · cases hatom

theorem Sound.term (hparse : Sound .expr parse) : Sound .term (parseTerm parse) := by
  intro tokens expr rest h
  unfold parseTerm at h
  split at h
  · obtain ⟨⟨inner, after⟩, hinner, hthen⟩ := except_bind_eq_ok.mp h
    cases hthen
    obtain ⟨used, rfl, hspelled⟩ := hparse.primary _ _ _ hinner
    exact ⟨_, rfl, .not hspelled⟩
  · obtain ⟨used, rfl, hspelled⟩ := hparse.primary _ _ _ h
    exact ⟨used, rfl, .plain hspelled⟩

theorem Sound.terms (hparse : Sound .expr parse) {op : CombineOp} {fuel : Nat}
    {children : List Expr} (h : parseTerms parse op fuel tokens = .ok (children, rest)) :
    ∃ used, tokens = used ++ rest ∧ Spells (.chain op) used (.combine op children) := by
  induction fuel generalizing tokens children with
  | zero => cases h
  | succ fuel ih =>
    obtain ⟨⟨child, after⟩, hchild, hthen⟩ := except_bind_eq_ok.mp h
    obtain ⟨used, rfl, hspelled⟩ := hparse.term _ _ _ hchild
    split at hthen
    · rename_i next others heq
      obtain ⟨rfl, rfl⟩ := Prod.mk.inj heq
      split at hthen
      · cases hthen
      · rename_i hsame
        obtain rfl := not_not.mp hsame
        obtain ⟨⟨further, final⟩, hfurther, hboth⟩ := except_bind_eq_ok.mp hthen
        cases hboth
        obtain ⟨more, rfl, hmore⟩ := ih hfurther
        exact ⟨_, by simp, .more hspelled hmore⟩
    · rename_i heq
      cases heq
      cases hthen
      exact ⟨used, rfl, .last op hspelled⟩

end Terms

theorem parseExpr_sound (fuel : Nat) : Sound .expr (parseExpr fuel) := by
  induction fuel with
  | zero => exact fun _ _ _ h => by cases h
  | succ fuel ih =>
    intro tokens expr rest h
    obtain ⟨⟨first, after⟩, hfirst, hthen⟩ := except_bind_eq_ok.mp h
    obtain ⟨used, rfl, hspelled⟩ := ih.term _ _ _ hfirst
    split at hthen
    · rename_i op others heq
      obtain ⟨rfl, rfl⟩ := Prod.mk.inj heq
      obtain ⟨⟨children, final⟩, hchildren, hboth⟩ := except_bind_eq_ok.mp hthen
      cases hboth
      obtain ⟨more, rfl, hmore⟩ := ih.terms hchildren
      exact ⟨_, by simp, .combined hspelled hmore⟩
    · rename_i heq
      cases heq
      cases hthen
      exact ⟨used, rfl, .single hspelled⟩

/-! ## What is spelled is returned -/

/-- No comparison goes on here. -/
def Follows (rest : List Token) : Prop := ∀ op others, rest ≠ .cmp op :: others

/-- An expression cannot go on here. -/
def Closes (rest : List Token) : Prop := Follows rest ∧ ∀ op others, rest ≠ .combine op :: others

theorem parseCmpTail_follows (h : Follows rest) :
    parseCmpTail pattern slice rest = .ok (.nonZero pattern slice, rest) := by
  unfold parseCmpTail
  split
  · exact absurd rfl (h _ _)
  · exact absurd rfl (h _ _)
  · exact absurd rfl (h _ _)
  · rfl

theorem parseCmpTail_rhs (op : CmpOp) (rhs : Rhs) :
    parseCmpTail pattern slice (.cmp op :: rhs.token :: rest) =
      .ok (op.atom pattern slice rhs, rest) := by
  cases rhs <;> rfl

theorem parsePrimary_group {parse : List Token → Except VirtualError (Expr × List Token)}
    (h : parse tokens = .ok (expr, .rparen :: rest)) (hrest : Follows rest) :
    parsePrimary parse (.lparen :: tokens) = .ok (expr, rest) := by
  simp only [parsePrimary, h, except_ok_bind]
  split
  · rename_i heq
    cases heq
    rw [parseCmpTail_follows hrest]
    rfl
  · rename_i heq
    cases heq
    exact absurd rfl (hrest _ _)
  · rename_i heq
    cases heq
    rfl
  · rename_i hnone
    exact absurd rfl (hnone _ _)

theorem parseTerm_plain {parse : List Token → Except VirtualError (Expr × List Token)}
    (h : Spells .primary tokens expr) :
    parseTerm parse (tokens ++ rest) = parsePrimary parse (tokens ++ rest) := by
  cases h <;> rfl

/-- With fuel for its tokens, the parser returns the tree before whatever cannot continue it. -/
def Parsed : Form → List Token → Expr → Prop
  | .primary, tokens, expr => ∀ fuel rest, tokens.length ≤ fuel → Follows rest →
      parsePrimary (parseExpr fuel) (tokens ++ rest) = .ok (expr, rest)
  | .term, tokens, expr => ∀ fuel rest, tokens.length ≤ fuel → Follows rest →
      parseTerm (parseExpr fuel) (tokens ++ rest) = .ok (expr, rest)
  | .chain op, tokens, expr => ∀ fuel limit rest, tokens.length ≤ fuel → tokens.length < limit →
      Closes rest → ∀ children, expr = .combine op children →
        parseTerms (parseExpr fuel) op limit (tokens ++ rest) = .ok (children, rest)
  | .expr, tokens, expr => ∀ fuel rest, tokens.length < fuel → Closes rest →
      parseExpr fuel (tokens ++ rest) = .ok (expr, rest)

theorem Spells.parsed {form : Form} (h : Spells form tokens expr) : Parsed form tokens expr := by
  induction h with
  | signal pattern slice =>
    intro fuel rest _ hrest
    simp [parsePrimary, parseAtom, parseCmpTail_follows hrest, except_ok_bind]
  | compared pattern slice op rhs =>
    intro fuel rest _ _
    simp [parsePrimary, parseAtom, parseCmpTail_rhs, except_ok_bind]
  | @group tokens expr _ ih =>
    intro fuel rest hfuel hrest
    rw [List.length_cons, List.length_append] at hfuel
    rw [List.cons_append, List.append_assoc]
    have hinner := ih fuel (.rparen :: rest) (by omega) (by simp [Closes, Follows])
    exact parsePrimary_group hinner hrest
  | @groupCompared tokens pattern slice _ op rhs ih =>
    intro fuel rest hfuel _
    rw [List.length_cons, List.length_append] at hfuel
    have hinner := ih fuel (.rparen :: .cmp op :: rhs.token :: rest) (by omega)
      (by simp [Closes, Follows])
    rw [List.cons_append, List.append_assoc]
    unfold parsePrimary
    simp [hinner, except_ok_bind, parseCmpTail_rhs]
  | @not tokens expr _ ih =>
    intro fuel rest hfuel hrest
    have hinner := ih fuel rest (Nat.le_of_succ_le hfuel) hrest
    simp [parseTerm, hinner, except_ok_bind]
  | plain h ih =>
    intro fuel rest hfuel hrest
    rw [parseTerm_plain h]
    exact ih fuel rest hfuel hrest
  | last op _ ih =>
    intro fuel limit rest hfuel hlimit hrest children hchildren
    obtain ⟨limit, rfl⟩ := Nat.exists_eq_succ_of_ne_zero (Nat.ne_of_gt (Nat.zero_lt_of_lt hlimit))
    cases hchildren
    unfold parseTerms
    rw [ih fuel rest hfuel hrest.1, except_ok_bind]
    split
    · rename_i heq
      cases heq
      exact absurd rfl (hrest.2 _ _)
    · rename_i heq
      cases heq
      rfl
  | @more tokens others expr op children _ _ ih ihothers =>
    intro fuel limit rest hfuel hlimit hrest children' hchildren
    obtain ⟨limit, rfl⟩ := Nat.exists_eq_succ_of_ne_zero (Nat.ne_of_gt (Nat.zero_lt_of_lt hlimit))
    cases hchildren
    rw [List.length_append, List.length_cons] at hfuel hlimit
    have hchild := ih fuel (.combine op :: (others ++ rest)) (by omega) (by simp [Follows])
    have hothers := ihothers fuel limit rest (by omega) (by omega) hrest _ rfl
    unfold parseTerms
    rw [List.append_assoc, List.cons_append, hchild, except_ok_bind]
    simp [hothers, except_ok_bind]
  | single _ ih =>
    intro fuel rest hfuel hrest
    obtain ⟨fuel, rfl⟩ := Nat.exists_eq_succ_of_ne_zero (Nat.ne_of_gt (Nat.zero_lt_of_lt hfuel))
    unfold parseExpr
    rw [ih fuel rest (Nat.le_of_lt_succ hfuel) hrest.1, except_ok_bind]
    split
    · rename_i heq
      cases heq
      exact absurd rfl (hrest.2 _ _)
    · rename_i heq
      cases heq
      rfl
  | @combined tokens others expr op children _ _ ih ihothers =>
    intro fuel rest hfuel hrest
    obtain ⟨fuel, rfl⟩ := Nat.exists_eq_succ_of_ne_zero (Nat.ne_of_gt (Nat.zero_lt_of_lt hfuel))
    rw [List.length_append, List.length_cons] at hfuel
    have hchild := ih fuel (.combine op :: (others ++ rest)) (by omega) (by simp [Follows])
    have hothers := ihothers fuel ((others ++ rest).length + 1) rest (by omega)
      (by rw [List.length_append]; omega) hrest _ rfl
    unfold parseExpr
    rw [List.append_assoc, List.cons_append, hchild, except_ok_bind]
    simp only [hothers, except_ok_bind]

/-- The parser accepts exactly what the grammar derives as an expression, with the tree derived. -/
theorem parseTokens_eq_ok : parseTokens tokens = .ok expr ↔ Spells .expr tokens expr := by
  constructor
  · intro h
    obtain ⟨⟨found, rest⟩, hfound, h⟩ := except_bind_eq_ok.mp h
    obtain ⟨used, hused, hspelled⟩ := parseExpr_sound _ _ _ _ hfound
    split at h
    · rename_i heq
      cases h
      cases heq
      rw [List.append_nil] at hused
      exact hused ▸ hspelled
    · cases h
  · intro h
    have hparsed := h.parsed (tokens.length + 1) [] (Nat.lt_succ_self _) (by simp [Closes, Follows])
    rw [List.append_nil] at hparsed
    unfold parseTokens
    rw [hparsed]
    rfl

/-! ## Fuel -/

/-- The fuel that `parseTokens` gives is never used up. -/
abbrev Fuelled {α : Type} (result : Except VirtualError α) : Prop := result ≠ .error .nesting

theorem Fuelled.bind {α β : Type} {result : Except VirtualError α}
    {next : α → Except VirtualError β} (h : Fuelled result) (hnext : ∀ a, result = .ok a → Fuelled (next a)) :
    Fuelled (result >>= next) := by
  cases result with
  | error error => exact fun heq => h (by cases heq; rfl)
  | ok a => exact hnext a rfl

theorem fuelled_parseTerm {parse : List Token → Except VirtualError (Expr × List Token)}
    (h : ∀ others, others.length < tokens.length → Fuelled (parse others)) :
    Fuelled (parseTerm parse tokens) := by
  have htail : ∀ pattern slice others, Fuelled (parseCmpTail pattern slice others) := by
    intro pattern slice others
    unfold parseCmpTail
    split <;> simp
  have hprimary : ∀ others, others.length ≤ tokens.length →
      Fuelled (parsePrimary parse others) := by
    intro others hlength
    unfold parsePrimary
    split
    · refine (h _ hlength).bind fun _ _ => ?_
      split
      · exact (htail _ _ _).bind (by simp)
      all_goals simp
    · refine Fuelled.bind ?_ (by simp)
      unfold parseAtom
      split
      · exact htail _ _ _
      all_goals simp
  unfold parseTerm
  split
  · exact (hprimary _ (Nat.le_succ _)).bind (by simp)
  · exact hprimary _ (Nat.le_refl _)

theorem fuelled_parseExpr (fuel : Nat) (tokens : List Token) (h : tokens.length < fuel) :
    Fuelled (parseExpr fuel tokens) := by
  induction fuel generalizing tokens with
  | zero => cases h
  | succ fuel ih =>
    have hterm : ∀ others, others.length ≤ fuel → Fuelled (parseTerm (parseExpr fuel) others) :=
      fun others hlength => fuelled_parseTerm fun _ hless => ih _ (by omega)
    have hterms : ∀ op limit others, others.length ≤ fuel → others.length < limit →
        Fuelled (parseTerms (parseExpr fuel) op limit others) := by
      intro op limit
      induction limit with
      | zero => exact fun _ _ hnone => by cases hnone
      | succ limit ihlimit =>
        intro others hlength hless
        refine (hterm others hlength).bind fun ⟨child, after⟩ hchild => ?_
        obtain ⟨used, rfl, -⟩ := (parseExpr_sound fuel).term _ _ _ hchild
        split
        · rename_i heq
          cases heq
          split
          · simp
          · simp only [List.length_append, List.length_cons] at hlength hless
            exact (ihlimit _ (by omega) (by omega)).bind (by simp)
        · simp
    refine (hterm tokens (Nat.le_of_lt_succ h)).bind fun ⟨first, after⟩ hfirst => ?_
    obtain ⟨used, rfl, -⟩ := (parseExpr_sound fuel).term _ _ _ hfirst
    split
    · rename_i heq
      cases heq
      rw [List.length_append, List.length_cons] at h
      exact (hterms _ _ _ (by omega) (Nat.lt_succ_self _)).bind (by simp)
    · simp

/-! ## Writing a tree -/

def Atom.spelling : Atom → List Token
  | .nonZero pattern slice => [.signal pattern slice]
  | .equal pattern slice rhs => [.signal pattern slice, .cmp .eq, rhs.token]
  | .notEqual pattern slice rhs => [.signal pattern slice, .cmp .neq, rhs.token]
  | .gt pattern slice rhs => [.signal pattern slice, .cmp .gt, rhs.token]
  | .gte pattern slice rhs => [.signal pattern slice, .cmp .gte, rhs.token]
  | .lt pattern slice rhs => [.signal pattern slice, .cmp .lt, rhs.token]
  | .lte pattern slice rhs => [.signal pattern slice, .cmp .lte, rhs.token]

mutual

/-- The tokens of a tree, with every operand in parentheses. -/
def Expr.spelling : Expr → List Token
  | .atom atom => atom.spelling
  | .not inner => .not :: .lparen :: (inner.spelling ++ [.rparen])
  | .combine op children => chainSpelling op children

def chainSpelling (op : CombineOp) : List Expr → List Token
  | [] => []
  | [child] => .lparen :: (child.spelling ++ [.rparen])
  | child :: other :: children =>
    .lparen :: (child.spelling ++ [.rparen]) ++ .combine op :: chainSpelling op (other :: children)

end

mutual

/-- Every combination has two children or more. -/
def Expr.Wide : Expr → Prop
  | .atom _ => True
  | .not inner => inner.Wide
  | .combine _ children => 2 ≤ children.length ∧ AllWide children

def AllWide : List Expr → Prop
  | [] => True
  | child :: children => child.Wide ∧ AllWide children

end

theorem spells_atom (atom : Atom) : Spells .primary atom.spelling (.atom atom) := by
  cases atom with
  | nonZero pattern slice => exact .signal pattern slice
  | equal pattern slice rhs => exact .compared pattern slice .eq rhs
  | notEqual pattern slice rhs => exact .compared pattern slice .neq rhs
  | gt pattern slice rhs => exact .compared pattern slice .gt rhs
  | gte pattern slice rhs => exact .compared pattern slice .gte rhs
  | lt pattern slice rhs => exact .compared pattern slice .lt rhs
  | lte pattern slice rhs => exact .compared pattern slice .lte rhs

mutual

theorem spells_spelling : (expr : Expr) → expr.Wide → Spells .expr expr.spelling expr
  | .atom atom, _ => .single (.plain (spells_atom atom))
  | .not inner, h => .single (.not (.group (spells_spelling inner h)))
  | .combine _ [], h => absurd h.1 (by simp)
  | .combine _ [_], h => absurd h.1 (by simp)
  | .combine op (child :: other :: children), h =>
    .combined (.plain (.group (spells_spelling child h.2.1)))
      (spells_chainSpelling op (other :: children) (List.cons_ne_nil _ _) h.2.2)

theorem spells_chainSpelling (op : CombineOp) : (children : List Expr) → children ≠ [] →
    AllWide children → Spells (.chain op) (chainSpelling op children) (.combine op children)
  | [], h, _ => absurd rfl h
  | [child], _, h => .last op (.plain (.group (spells_spelling child h.1)))
  | child :: other :: children, _, h =>
    .more (.plain (.group (spells_spelling child h.1)))
      (spells_chainSpelling op (other :: children) (List.cons_ne_nil _ _) h.2)

end

/-- What the grammar derives: a chain may hold one child. -/
def Form.Widens : Form → Expr → Prop
  | .chain _, .combine _ children => children ≠ [] ∧ AllWide children
  | _, expr => expr.Wide

theorem Spells.widens {form : Form} (h : Spells form tokens expr) : form.Widens expr := by
  induction h with
  | signal | compared | groupCompared => trivial
  | group _ ih | not _ ih | plain _ ih | single _ ih => exact ih
  | last op _ ih => exact ⟨by simp, ih, trivial⟩
  | more _ _ ih ihothers => exact ⟨by simp, ih, ihothers.2⟩
  | combined _ _ ih ihothers =>
    exact ⟨Nat.succ_le_succ (List.length_pos_iff.mpr ihothers.1), ih, ihothers.2⟩

/-- The parser returns exactly the trees whose combinations have two children or more, and such a
tree for the tokens it is written as; it never runs out of fuel. -/
theorem parseTokens_spelling_iff :
    ((∃ tokens, parseTokens tokens = .ok expr) ↔ expr.Wide) ∧
      (parseTokens expr.spelling = .ok expr ↔ expr.Wide) ∧
        ∀ tokens, parseTokens tokens ≠ .error .nesting := by
  have hwide : ∀ tokens, parseTokens tokens = .ok expr → expr.Wide :=
    fun tokens h => (parseTokens_eq_ok.mp h).widens
  have hwritten : expr.Wide → parseTokens expr.spelling = .ok expr :=
    fun h => parseTokens_eq_ok.mpr (spells_spelling expr h)
  refine ⟨⟨fun ⟨tokens, h⟩ => hwide tokens h, fun h => ⟨_, hwritten h⟩⟩, ⟨hwide _, hwritten⟩, ?_⟩
  intro tokens
  refine (fuelled_parseExpr _ tokens (Nat.lt_succ_self _)).bind fun ⟨_, rest⟩ _ => ?_
  cases rest <;> simp

/-! ## Definitions -/

theorem Spells.ne_nil {form : Form} (h : Spells form tokens expr) : tokens ≠ [] := by
  induction h <;> simp_all

/-- A definition is accepted exactly as a name before the first equals sign, which is no part of a
comparison, with an expression of the grammar behind it. -/
theorem parseVirtualDef_ok_iff {text name : Text} :
    parseVirtualDef text = .ok ⟨name, expr⟩ ↔ name ≠ [] ∧ ∃ left right tokens,
      text = left ++ '=' :: right ∧ '=' ∉ left ∧ right.head? ≠ some '=' ∧
        name = trim isWhitespace left ∧ tokenize (trim isWhitespace right) = .ok tokens ∧
          Spells .expr tokens expr := by
  constructor
  · intro h
    unfold parseVirtualDef at h
    split at h
    · cases h
    · cases h
    · rename_i c right hright hdrop
      have hhead := List.head?_dropWhile_not (· ≠ '=') text
      rw [hdrop] at hhead
      obtain rfl : c = '=' := by simpa using hhead
      dsimp only at h
      split_ifs at h with hname hshown
      obtain ⟨tokens, htokens, h⟩ := except_bind_eq_ok.mp h
      split_ifs at h with hnone
      obtain ⟨found, hfound, h⟩ := except_bind_eq_ok.mp h
      cases h
      refine ⟨hname, _, right, tokens, ?_, fun hmem => ?_, ?_, rfl, htokens,
        parseTokens_eq_ok.mp hfound⟩
      · rw [← hdrop, List.takeWhile_append_dropWhile]
      · simpa using List.mem_takeWhile_imp hmem
      · rintro hequal
        obtain ⟨rest, rfl⟩ := List.head?_eq_some_iff.mp hequal
        exact hright _ rfl
  · rintro ⟨hname, left, right, tokens, rfl, hleft, hright, rfl, htokens, hspelled⟩
    have hfree : ∀ c ∈ left, decide (c ≠ '=') = true := by
      intro c hc
      simpa using fun heq : c = '=' => hleft (heq ▸ hc)
    have hshown : trim isWhitespace right ≠ [] := by
      intro hempty
      rw [hempty] at htokens
      cases htokens
      exact hspelled.ne_nil rfl
    have hdrop : (left ++ '=' :: right).dropWhile (· ≠ '=') = '=' :: right := by
      rw [List.dropWhile_append_of_pos hfree, List.dropWhile_cons_of_neg (by simp)]
    have htake : (left ++ '=' :: right).takeWhile (· ≠ '=') = left := by
      rw [List.takeWhile_append_of_pos hfree, List.takeWhile_cons_of_neg (by simp),
        List.append_nil]
    unfold parseVirtualDef
    rw [hdrop, htake]
    split
    · rename_i heq
      cases heq
    · rename_i heq
      cases heq
      exact absurd rfl hright
    · rename_i heq
      cases heq
      dsimp only
      rw [if_neg hname, if_neg hshown, htokens, except_ok_bind, if_neg hspelled.ne_nil,
        parseTokens_eq_ok.mpr hspelled]
      rfl

end Booley.Waves
