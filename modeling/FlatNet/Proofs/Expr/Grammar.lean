import FlatNet.Expr.Parser

/-!
# The grammar of expressions

An expression is derived from the rules

    E = T {('+'|'-') T}
    T = P {('*'|'/') P}
    P = A ['^' P] | ('-'|'+') P
    A = number | name | name '(' [E {',' E}] ')' | '(' E ')'

A derivation is a tree with one node for every use of a rule; `tokens` is what it derives, and
`tree` is the expression that it stands for.  The main statement is `Sum.injective_tokens`: a
row of tokens has at most one derivation.  It is proved rule by rule for derivations with something
behind them, which must not begin with a token that could continue the rule.
-/

set_option autoImplicit false

namespace FlatNet.Expr.Grammar

/-- The operators of a sum; they also stand before an operand, as its sign. -/
inductive Additive where
  | plus
  | minus
  deriving DecidableEq

/-- The operators of a product. -/
inductive Multiplicative where
  | times
  | per
  deriving DecidableEq

/-- The operator of a sum. -/
def Additive.op : Additive → BinaryOp
  | plus => .add
  | minus => .sub

/-- The operator of a product. -/
def Multiplicative.op : Multiplicative → BinaryOp
  | times => .mul
  | per => .div

mutual

/-- `E = T {('+'|'-') T}`. -/
inductive Sum where
  | mk (first : Product) (rest : SumTail)

/-- The summands behind the first: `{('+'|'-') T}`. -/
inductive SumTail where
  | nil
  | cons (op : Additive) (next : Product) (rest : SumTail)

/-- `T = P {('*'|'/') P}`. -/
inductive Product where
  | mk (first : Factor) (rest : ProductTail)

/-- The factors behind the first: `{('*'|'/') P}`. -/
inductive ProductTail where
  | nil
  | cons (op : Multiplicative) (next : Factor) (rest : ProductTail)

/-- `P = A ['^' P] | ('-'|'+') P`. -/
inductive Factor where
  | base (a : Atom)
  | raised (a : Atom) (exponent : Factor)
  | signed (sign : Additive) (operand : Factor)

/-- `A = number | name | name '(' [E {',' E}] ')' | '(' E ')'`. -/
inductive Atom where
  | number (value : Binary64)
  | name (s : String)
  | call (function : String) (args : Arguments)
  | group (inner : Sum)

/-- `[E {',' E}]`. -/
inductive Arguments where
  | none
  | some (first : Sum) (rest : ArgumentsTail)

/-- The arguments behind the first: `{',' E}`. -/
inductive ArgumentsTail where
  | nil
  | cons (next : Sum) (rest : ArgumentsTail)

end

/-! ## What is derived -/

mutual

/-- The tokens that a derivation derives. -/
def Sum.tokens : Sum → List Token
  | .mk first rest => first.tokens ++ rest.tokens

/-- The tokens of the summands behind the first. -/
def SumTail.tokens : SumTail → List Token
  | .nil => []
  | .cons op next rest => .operator op.op :: (next.tokens ++ rest.tokens)

/-- The tokens of a product. -/
def Product.tokens : Product → List Token
  | .mk first rest => first.tokens ++ rest.tokens

/-- The tokens of the factors behind the first. -/
def ProductTail.tokens : ProductTail → List Token
  | .nil => []
  | .cons op next rest => .operator op.op :: (next.tokens ++ rest.tokens)

/-- The tokens of a factor. -/
def Factor.tokens : Factor → List Token
  | .base a => a.tokens
  | .raised a exponent => a.tokens ++ .operator .pow :: exponent.tokens
  | .signed sign operand => .operator sign.op :: operand.tokens

/-- The tokens of an atom. -/
def Atom.tokens : Atom → List Token
  | .number value => [.number value]
  | .name s => [.name s]
  | .call function args => .name function :: .opening :: (args.tokens ++ [.closing])
  | .group inner => .opening :: (inner.tokens ++ [.closing])

/-- The tokens of the arguments of a call, without the parentheses. -/
def Arguments.tokens : Arguments → List Token
  | .none => []
  | .some first rest => first.tokens ++ rest.tokens

/-- The tokens of the arguments behind the first. -/
def ArgumentsTail.tokens : ArgumentsTail → List Token
  | .nil => []
  | .cons next rest => .comma :: (next.tokens ++ rest.tokens)

end

mutual

/-- The expression that a derivation stands for.  The operators of sums and products associate to
the left and powers to the right; a plus sign disappears, and a minus sign before a plain number
becomes part of it. -/
def Sum.tree : Sum → Expr
  | .mk first rest => rest.tree first.tree

/-- The sum whose first operands make up `lhs`. -/
def SumTail.tree : SumTail → Expr → Expr
  | .nil, lhs => lhs
  | .cons op next rest, lhs => rest.tree (.binary op.op lhs next.tree)

/-- The expression that a product stands for. -/
def Product.tree : Product → Expr
  | .mk first rest => rest.tree first.tree

/-- The product whose first operands make up `lhs`. -/
def ProductTail.tree : ProductTail → Expr → Expr
  | .nil, lhs => lhs
  | .cons op next rest, lhs => rest.tree (.binary op.op lhs next.tree)

/-- The expression that a factor stands for. -/
def Factor.tree : Factor → Expr
  | .base a => a.tree
  | .raised a exponent => .binary .pow a.tree exponent.tree
  | .signed .plus operand => operand.tree
  | .signed .minus operand => negated operand.tree

/-- The expression that an atom stands for. -/
def Atom.tree : Atom → Expr
  | .number value => .num value
  | .name s => .sym s
  | .call function args => .call function args.trees
  | .group inner => inner.tree

/-- The expressions that arguments stand for. -/
def Arguments.trees : Arguments → List Expr
  | .none => []
  | .some first rest => first.tree :: rest.trees

/-- The expressions that the arguments behind the first stand for. -/
def ArgumentsTail.trees : ArgumentsTail → List Expr
  | .nil => []
  | .cons next rest => next.tree :: rest.trees

end

/-! ## Adding an operand at the end -/

/-- One more summand at the end of a tail. -/
def SumTail.snoc : SumTail → Additive → Product → SumTail
  | .nil, op, last => .cons op last .nil
  | .cons op' next rest, op, last => .cons op' next (rest.snoc op last)

/-- One more summand at the end of a sum. -/
def Sum.snoc : Sum → Additive → Product → Sum
  | .mk first rest, op, last => .mk first (rest.snoc op last)

/-- One more factor at the end of a tail. -/
def ProductTail.snoc : ProductTail → Multiplicative → Factor → ProductTail
  | .nil, op, last => .cons op last .nil
  | .cons op' next rest, op, last => .cons op' next (rest.snoc op last)

/-- One more factor at the end of a product. -/
def Product.snoc : Product → Multiplicative → Factor → Product
  | .mk first rest, op, last => .mk first (rest.snoc op last)

/-- One more argument at the end of a tail. -/
def ArgumentsTail.snoc : ArgumentsTail → Sum → ArgumentsTail
  | .nil, last => .cons last .nil
  | .cons next rest, last => .cons next (rest.snoc last)

/-- One more summand at the end of a tail adds its operator and its tokens at the end. -/
theorem SumTail.tokens_snoc : (rest : SumTail) → (op : Additive) → (last : Product) →
    (rest.snoc op last).tokens = rest.tokens ++ .operator op.op :: last.tokens
  | .nil, op, last => by simp [SumTail.snoc, SumTail.tokens]
  | .cons op' next rest, op, last => by
    simp [SumTail.snoc, SumTail.tokens, rest.tokens_snoc op last]

/-- One more summand at the end of a tail becomes the right operand of all that stands before it. -/
theorem SumTail.tree_snoc : (rest : SumTail) → (op : Additive) → (last : Product) → (lhs : Expr) →
    (rest.snoc op last).tree lhs = .binary op.op (rest.tree lhs) last.tree
  | .nil, op, last, lhs => by simp [SumTail.snoc, SumTail.tree]
  | .cons op' next rest, op, last, lhs => by
    simp [SumTail.snoc, SumTail.tree, rest.tree_snoc op last]

/-- One more summand adds its operator and its tokens at the end of a sum. -/
theorem Sum.tokens_snoc (d : Sum) (op : Additive) (last : Product) :
    (d.snoc op last).tokens = d.tokens ++ .operator op.op :: last.tokens := by
  cases d with
  | mk first rest => simp [Sum.snoc, Sum.tokens, rest.tokens_snoc op last]

/-- One more summand becomes the right operand of the sum before it. -/
theorem Sum.tree_snoc (d : Sum) (op : Additive) (last : Product) :
    (d.snoc op last).tree = .binary op.op d.tree last.tree := by
  cases d with
  | mk first rest => simp [Sum.snoc, Sum.tree, rest.tree_snoc op last]

/-- One more factor at the end of a tail adds its operator and its tokens at the end. -/
theorem ProductTail.tokens_snoc : (rest : ProductTail) → (op : Multiplicative) → (last : Factor) →
    (rest.snoc op last).tokens = rest.tokens ++ .operator op.op :: last.tokens
  | .nil, op, last => by simp [ProductTail.snoc, ProductTail.tokens]
  | .cons op' next rest, op, last => by
    simp [ProductTail.snoc, ProductTail.tokens, rest.tokens_snoc op last]

/-- One more factor at the end of a tail becomes the right operand of all that stands before it. -/
theorem ProductTail.tree_snoc : (rest : ProductTail) → (op : Multiplicative) → (last : Factor) →
    (lhs : Expr) → (rest.snoc op last).tree lhs = .binary op.op (rest.tree lhs) last.tree
  | .nil, op, last, lhs => by simp [ProductTail.snoc, ProductTail.tree]
  | .cons op' next rest, op, last, lhs => by
    simp [ProductTail.snoc, ProductTail.tree, rest.tree_snoc op last]

/-- One more factor adds its operator and its tokens at the end of a product. -/
theorem Product.tokens_snoc (d : Product) (op : Multiplicative) (last : Factor) :
    (d.snoc op last).tokens = d.tokens ++ .operator op.op :: last.tokens := by
  cases d with
  | mk first rest => simp [Product.snoc, Product.tokens, rest.tokens_snoc op last]

/-- One more factor becomes the right operand of the product before it. -/
theorem Product.tree_snoc (d : Product) (op : Multiplicative) (last : Factor) :
    (d.snoc op last).tree = .binary op.op d.tree last.tree := by
  cases d with
  | mk first rest => simp [Product.snoc, Product.tree, rest.tree_snoc op last]

/-- One more argument adds a comma and its tokens at the end. -/
theorem ArgumentsTail.tokens_snoc : (rest : ArgumentsTail) → (last : Sum) →
    (rest.snoc last).tokens = rest.tokens ++ .comma :: last.tokens
  | .nil, last => by simp [ArgumentsTail.snoc, ArgumentsTail.tokens]
  | .cons next rest, last => by
    simp [ArgumentsTail.snoc, ArgumentsTail.tokens, rest.tokens_snoc last]

/-- One more argument adds its tree at the end. -/
theorem ArgumentsTail.trees_snoc : (rest : ArgumentsTail) → (last : Sum) →
    (rest.snoc last).trees = rest.trees ++ [last.tree]
  | .nil, last => by simp [ArgumentsTail.snoc, ArgumentsTail.trees]
  | .cons next rest, last => by
    simp [ArgumentsTail.snoc, ArgumentsTail.trees, rest.trees_snoc last]

/-- A factor as a product, and a product as a sum. -/
def Factor.toProduct (p : Factor) : Product := .mk p .nil

/-- A product as a sum of one summand. -/
def Product.toSum (d : Product) : Sum := .mk d .nil

/-- A factor that is taken as a product derives the same tokens. -/
@[simp] theorem Factor.tokens_toProduct (p : Factor) : p.toProduct.tokens = p.tokens := by
  simp [Factor.toProduct, Product.tokens, ProductTail.tokens]

/-- A factor that is taken as a product stands for the same expression. -/
@[simp] theorem Factor.tree_toProduct (p : Factor) : p.toProduct.tree = p.tree := by
  simp [Factor.toProduct, Product.tree, ProductTail.tree]

/-- A product that is taken as a sum derives the same tokens. -/
@[simp] theorem Product.tokens_toSum (d : Product) : d.toSum.tokens = d.tokens := by
  simp [Product.toSum, Sum.tokens, SumTail.tokens]

/-- A product that is taken as a sum stands for the same expression. -/
@[simp] theorem Product.tree_toSum (d : Product) : d.toSum.tree = d.tree := by
  simp [Product.toSum, Sum.tree, SumTail.tree]

/-! ## Unique derivations -/

/-- No token stands behind that could continue a phrase: neither a parenthesis nor an operator of at
least the given strength. -/
def Ends (strength : Nat) (behind : List Token) : Prop :=
  ∀ t ∈ behind.head?, t ≠ .opening ∧ ∀ op : BinaryOp, t = .operator op → op.strength < strength

/-- What does not continue a rule does not continue one whose operators are stronger. -/
theorem Ends.mono {strength strength' : Nat} {behind : List Token} (h : Ends strength behind)
    (hle : strength ≤ strength') : Ends strength' behind := by
  intro t ht
  obtain ⟨hopening, hop⟩ := h t ht
  refine ⟨hopening, ?_⟩
  intro op hop'
  have hlt := hop op hop'
  omega

/-- A weaker operator does not continue a rule. -/
theorem ends_operator {strength : Nat} {op : BinaryOp} (h : op.strength < strength)
    (behind : List Token) : Ends strength (.operator op :: behind) := by
  intro t ht
  simp at ht
  subst ht
  refine ⟨by simp, ?_⟩
  intro op' hop
  simp at hop
  rwa [← hop]

/-- A closing parenthesis continues no rule. -/
theorem ends_closing (strength : Nat) (behind : List Token) :
    Ends strength (.closing :: behind) := by
  intro t ht
  simp at ht
  subst ht
  simp

/-- A comma continues no rule. -/
theorem ends_comma (strength : Nat) (behind : List Token) : Ends strength (.comma :: behind) := by
  intro t ht
  simp at ht
  subst ht
  simp

/-- An opening parenthesis could make a call of the name before it. -/
theorem not_ends_opening {strength : Nat} {behind : List Token} :
    ¬Ends strength (.opening :: behind) := by
  intro h
  exact (h .opening (by simp)).1 rfl

/-- An operator that does not continue a rule is weaker than its operators. -/
theorem strength_lt_of_ends {strength : Nat} {op : BinaryOp} {behind : List Token}
    (h : Ends strength (.operator op :: behind)) : op.strength < strength :=
  (h (.operator op) (by simp)).2 op rfl

/-- The operators of a sum are the weakest. -/
@[simp] theorem Additive.strength_op (op : Additive) : op.op.strength = 1 := by
  cases op <;> rfl

/-- The operators of a product are stronger than those of a sum. -/
@[simp] theorem Multiplicative.strength_op (op : Multiplicative) : op.op.strength = 2 := by
  cases op <;> rfl

/-- The power is the strongest operator. -/
@[simp] theorem strength_pow : BinaryOp.pow.strength = 4 := rfl

/-- The two operators of a sum are different. -/
theorem Additive.op_injective {op op' : Additive} (h : op.op = op'.op) : op = op' := by
  cases op <;> cases op' <;> first | rfl | cases h

/-- The two operators of a product are different. -/
theorem Multiplicative.op_injective {op op' : Multiplicative} (h : op.op = op'.op) : op = op' := by
  cases op <;> cases op' <;> first | rfl | cases h

/-- What follows a summand does not continue the product in it. -/
theorem SumTail.ends {rest : SumTail} {behind : List Token} (h : Ends 1 behind) :
    Ends 2 (rest.tokens ++ behind) := by
  cases rest with
  | nil => exact h.mono (by omega)
  | cons op next rest => exact ends_operator (by simp) _

/-- What follows a factor does not continue the power in it. -/
theorem ProductTail.ends {rest : ProductTail} {behind : List Token} (h : Ends 2 behind) :
    Ends 4 (rest.tokens ++ behind) := by
  cases rest with
  | nil => exact h.mono (by omega)
  | cons op next rest => exact ends_operator (by simp) _

/-- The first token of an atom is neither an operator nor closes anything. -/
theorem Atom.exists_tokens_eq_cons (a : Atom) :
    ∃ t ts, a.tokens = t :: ts ∧ t ≠ .closing ∧ ∀ op, t ≠ .operator op := by
  cases a with
  | number value => exact ⟨_, _, rfl, by simp, by simp⟩
  | name s => exact ⟨_, _, rfl, by simp, by simp⟩
  | call function args => exact ⟨_, _, rfl, by simp, by simp⟩
  | group inner => exact ⟨_, _, rfl, by simp, by simp⟩

/-- A factor derives at least one token, and the first is no closing parenthesis. -/
theorem Factor.exists_tokens_eq_cons (p : Factor) : ∃ t ts, p.tokens = t :: ts ∧ t ≠ .closing := by
  cases p with
  | base a =>
    obtain ⟨t, ts, hts, hclosing, -⟩ := a.exists_tokens_eq_cons
    exact ⟨t, ts, hts, hclosing⟩
  | raised a exponent =>
    obtain ⟨t, ts, hts, hclosing, -⟩ := a.exists_tokens_eq_cons
    exact ⟨t, _, by simp [Factor.tokens, hts]; rfl, hclosing⟩
  | signed sign operand => exact ⟨_, _, rfl, by simp⟩

/-- A sum derives at least one token, and the first is no closing parenthesis. -/
theorem Sum.exists_tokens_eq_cons (d : Sum) : ∃ t ts, d.tokens = t :: ts ∧ t ≠ .closing := by
  obtain ⟨⟨first, rest⟩, more⟩ := d
  obtain ⟨t, ts, hts, hclosing⟩ := first.exists_tokens_eq_cons
  exact ⟨t, _, by simp [Sum.tokens, Product.tokens, hts]; rfl, hclosing⟩

/-- An atom and an operand with a sign begin differently. -/
theorem Atom.tokens_append_ne_operator (a : Atom) {op : BinaryOp} {behind behind' : List Token}
    (h : a.tokens ++ behind = .operator op :: behind') : False := by
  obtain ⟨t, ts, hts, -, hop⟩ := a.exists_tokens_eq_cons
  rw [hts] at h
  simp at h
  exact hop op h.1

/-- What stands behind an argument does not continue it. -/
theorem ArgumentsTail.ends (rest : ArgumentsTail) {behind : List Token} :
    Ends 1 (rest.tokens ++ .closing :: behind) := by
  cases rest with
  | nil => exact ends_closing 1 behind
  | cons next rest => exact ends_comma 1 _

mutual

/-- Two sums that derive the same tokens, each with something behind it that does not continue it,
are equal, and so is what stands behind them. -/
theorem Sum.unique : (d d' : Sum) → {behind behind' : List Token} → Ends 1 behind →
    Ends 1 behind' → d.tokens ++ behind = d'.tokens ++ behind' → d = d' ∧ behind = behind'
  | .mk first rest, .mk first' rest', behind, behind', h, h', heq => by
    simp only [Sum.tokens, List.append_assoc] at heq
    obtain ⟨rfl, htail⟩ := first.unique first' (SumTail.ends h) (SumTail.ends h') heq
    obtain ⟨rfl, rfl⟩ := rest.unique rest' h h' htail
    exact ⟨rfl, rfl⟩

/-- The summands behind the first are determined by the tokens: both tails go on with an operator,
or both end. -/
theorem SumTail.unique : (d d' : SumTail) → {behind behind' : List Token} → Ends 1 behind →
    Ends 1 behind' → d.tokens ++ behind = d'.tokens ++ behind' → d = d' ∧ behind = behind'
  | .nil, .nil, _, _, _, _, heq => ⟨rfl, heq⟩
  | .nil, .cons op next rest, behind, behind', h, _, heq => by
    simp only [SumTail.tokens, List.nil_append, List.cons_append] at heq
    rw [heq] at h
    have hlt := strength_lt_of_ends h
    simp at hlt
  | .cons op next rest, .nil, behind, behind', _, h', heq => by
    simp only [SumTail.tokens, List.nil_append, List.cons_append] at heq
    rw [← heq] at h'
    have hlt := strength_lt_of_ends h'
    simp at hlt
  | .cons op next rest, .cons op' next' rest', behind, behind', h, h', heq => by
    simp only [SumTail.tokens, List.cons_append, List.append_assoc, List.cons.injEq,
      Token.operator.injEq] at heq
    obtain ⟨hop, heq⟩ := heq
    obtain rfl := Additive.op_injective hop
    obtain ⟨rfl, htail⟩ := next.unique next' (SumTail.ends h) (SumTail.ends h') heq
    obtain ⟨rfl, rfl⟩ := rest.unique rest' h h' htail
    exact ⟨rfl, rfl⟩

/-- The product at the front of the tokens is determined by them. -/
theorem Product.unique : (d d' : Product) → {behind behind' : List Token} → Ends 2 behind →
    Ends 2 behind' → d.tokens ++ behind = d'.tokens ++ behind' → d = d' ∧ behind = behind'
  | .mk first rest, .mk first' rest', behind, behind', h, h', heq => by
    simp only [Product.tokens, List.append_assoc] at heq
    obtain ⟨rfl, htail⟩ := first.unique first' (ProductTail.ends h) (ProductTail.ends h') heq
    obtain ⟨rfl, rfl⟩ := rest.unique rest' h h' htail
    exact ⟨rfl, rfl⟩

/-- The factors behind the first are determined by the tokens: both tails go on with an operator, or
both end. -/
theorem ProductTail.unique : (d d' : ProductTail) → {behind behind' : List Token} →
    Ends 2 behind → Ends 2 behind' → d.tokens ++ behind = d'.tokens ++ behind' →
    d = d' ∧ behind = behind'
  | .nil, .nil, _, _, _, _, heq => ⟨rfl, heq⟩
  | .nil, .cons op next rest, behind, behind', h, _, heq => by
    simp only [ProductTail.tokens, List.nil_append, List.cons_append] at heq
    rw [heq] at h
    have hlt := strength_lt_of_ends h
    simp at hlt
  | .cons op next rest, .nil, behind, behind', _, h', heq => by
    simp only [ProductTail.tokens, List.nil_append, List.cons_append] at heq
    rw [← heq] at h'
    have hlt := strength_lt_of_ends h'
    simp at hlt
  | .cons op next rest, .cons op' next' rest', behind, behind', h, h', heq => by
    simp only [ProductTail.tokens, List.cons_append, List.append_assoc, List.cons.injEq,
      Token.operator.injEq] at heq
    obtain ⟨hop, heq⟩ := heq
    obtain rfl := Multiplicative.op_injective hop
    obtain ⟨rfl, htail⟩ := next.unique next' (ProductTail.ends h) (ProductTail.ends h') heq
    obtain ⟨rfl, rfl⟩ := rest.unique rest' h h' htail
    exact ⟨rfl, rfl⟩

/-- The factor at the front of the tokens is determined by them: a sign tells a signed one, and a
caret behind the atom a raised one. -/
theorem Factor.unique : (p p' : Factor) → {behind behind' : List Token} → Ends 4 behind →
    Ends 4 behind' → p.tokens ++ behind = p'.tokens ++ behind' → p = p' ∧ behind = behind'
  | .base a, .base a', behind, behind', h, h', heq => by
    obtain ⟨rfl, rfl⟩ := a.unique a' (h.mono (by omega)) (h'.mono (by omega)) heq
    exact ⟨rfl, rfl⟩
  | .base a, .raised a' exponent', behind, behind', h, _, heq => by
    simp only [Factor.tokens, List.append_assoc, List.cons_append] at heq
    obtain ⟨-, rfl⟩ := a.unique a' (h.mono (by omega)) (ends_operator (by simp) _) heq
    have hlt := strength_lt_of_ends h
    simp at hlt
  | .raised a exponent, .base a', behind, behind', _, h', heq => by
    simp only [Factor.tokens, List.append_assoc, List.cons_append] at heq
    obtain ⟨-, rfl⟩ := a.unique a' (ends_operator (by simp) _) (h'.mono (by omega)) heq
    have hlt := strength_lt_of_ends h'
    simp at hlt
  | .raised a exponent, .raised a' exponent', behind, behind', h, h', heq => by
    simp only [Factor.tokens, List.append_assoc, List.cons_append] at heq
    obtain ⟨rfl, htail⟩ := a.unique a' (ends_operator (by simp) _) (ends_operator (by simp) _) heq
    simp only [List.cons.injEq, true_and] at htail
    obtain ⟨rfl, rfl⟩ := exponent.unique exponent' h h' htail
    exact ⟨rfl, rfl⟩
  | .signed sign operand, .signed sign' operand', behind, behind', h, h', heq => by
    simp only [Factor.tokens, List.cons_append, List.cons.injEq, Token.operator.injEq] at heq
    obtain ⟨hsign, heq⟩ := heq
    obtain rfl := Additive.op_injective hsign
    obtain ⟨rfl, rfl⟩ := operand.unique operand' h h' heq
    exact ⟨rfl, rfl⟩
  | .base a, .signed sign operand, behind, behind', _, _, heq =>
    (a.tokens_append_ne_operator heq).elim
  | .signed sign operand, .base a, behind, behind', _, _, heq =>
    (a.tokens_append_ne_operator heq.symm).elim
  | .raised a exponent, .signed sign operand, behind, behind', _, _, heq => by
    simp only [Factor.tokens, List.append_assoc] at heq
    exact (a.tokens_append_ne_operator heq).elim
  | .signed sign operand, .raised a exponent, behind, behind', _, _, heq => by
    simp only [Factor.tokens, List.append_assoc] at heq
    exact (a.tokens_append_ne_operator heq.symm).elim

/-- The atom at the front of the tokens is determined by them: an opening parenthesis behind a name
tells a call. -/
theorem Atom.unique : (a a' : Atom) → {behind behind' : List Token} → Ends 5 behind →
    Ends 5 behind' → a.tokens ++ behind = a'.tokens ++ behind' → a = a' ∧ behind = behind'
  | .number value, .number value', _, _, _, _, heq => by
    simpa [Atom.tokens] using heq
  | .name s, .name s', _, _, _, _, heq => by
    simpa [Atom.tokens] using heq
  | .name s, .call function args, behind, behind', h, _, heq => by
    simp only [Atom.tokens, List.cons_append, List.nil_append, List.cons.injEq] at heq
    rw [heq.2] at h
    exact (not_ends_opening h).elim
  | .call function args, .name s, behind, behind', _, h', heq => by
    simp only [Atom.tokens, List.cons_append, List.nil_append, List.cons.injEq] at heq
    rw [← heq.2] at h'
    exact (not_ends_opening h').elim
  | .call function args, .call function' args', behind, behind', _, _, heq => by
    simp only [Atom.tokens, List.cons_append, List.append_assoc, List.nil_append, List.cons.injEq,
      Token.name.injEq, true_and] at heq
    obtain ⟨rfl, heq⟩ := heq
    obtain ⟨rfl, rfl⟩ := args.unique args' heq
    exact ⟨rfl, rfl⟩
  | .group inner, .group inner', behind, behind', _, _, heq => by
    simp only [Atom.tokens, List.cons_append, List.append_assoc, List.nil_append, List.cons.injEq,
      true_and] at heq
    obtain ⟨rfl, htail⟩ := inner.unique inner' (ends_closing _ _) (ends_closing _ _) heq
    simp only [List.cons.injEq, true_and] at htail
    exact ⟨rfl, htail⟩
  | .number _, .name _, _, _, _, _, heq => by simp [Atom.tokens] at heq
  | .number _, .call _ _, _, _, _, _, heq => by simp [Atom.tokens] at heq
  | .number _, .group _, _, _, _, _, heq => by simp [Atom.tokens] at heq
  | .name _, .number _, _, _, _, _, heq => by simp [Atom.tokens] at heq
  | .name _, .group _, _, _, _, _, heq => by simp [Atom.tokens] at heq
  | .call _ _, .number _, _, _, _, _, heq => by simp [Atom.tokens] at heq
  | .call _ _, .group _, _, _, _, _, heq => by simp [Atom.tokens] at heq
  | .group _, .number _, _, _, _, _, heq => by simp [Atom.tokens] at heq
  | .group _, .name _, _, _, _, _, heq => by simp [Atom.tokens] at heq
  | .group _, .call _ _, _, _, _, _, heq => by simp [Atom.tokens] at heq

/-- The arguments of a call are determined by the tokens up to the closing parenthesis. -/
theorem Arguments.unique : (args args' : Arguments) → {behind behind' : List Token} →
    args.tokens ++ .closing :: behind = args'.tokens ++ .closing :: behind' →
    args = args' ∧ behind = behind'
  | .none, .none, _, _, heq => by simpa [Arguments.tokens] using heq
  | .none, .some first rest, _, _, heq => by
    obtain ⟨t, ts, hts, hclosing⟩ := first.exists_tokens_eq_cons
    simp only [Arguments.tokens, hts, List.nil_append, List.cons_append, List.cons.injEq] at heq
    exact (hclosing heq.1.symm).elim
  | .some first rest, .none, _, _, heq => by
    obtain ⟨t, ts, hts, hclosing⟩ := first.exists_tokens_eq_cons
    simp only [Arguments.tokens, hts, List.nil_append, List.cons_append, List.cons.injEq] at heq
    exact (hclosing heq.1).elim
  | .some first rest, .some first' rest', _, _, heq => by
    simp only [Arguments.tokens, List.append_assoc] at heq
    obtain ⟨rfl, htail⟩ := first.unique first' rest.ends rest'.ends heq
    obtain ⟨rfl, rfl⟩ := rest.unique rest' htail
    exact ⟨rfl, rfl⟩

/-- The arguments behind the first are determined by the tokens up to the closing parenthesis. -/
theorem ArgumentsTail.unique : (args args' : ArgumentsTail) → {behind behind' : List Token} →
    args.tokens ++ .closing :: behind = args'.tokens ++ .closing :: behind' →
    args = args' ∧ behind = behind'
  | .nil, .nil, _, _, heq => by simpa [ArgumentsTail.tokens] using heq
  | .nil, .cons _ _, _, _, heq => by simp [ArgumentsTail.tokens] at heq
  | .cons _ _, .nil, _, _, heq => by simp [ArgumentsTail.tokens] at heq
  | .cons next rest, .cons next' rest', _, _, heq => by
    simp only [ArgumentsTail.tokens, List.cons_append, List.append_assoc, List.cons.injEq,
      true_and] at heq
    obtain ⟨rfl, htail⟩ := next.unique next' rest.ends rest'.ends heq
    obtain ⟨rfl, rfl⟩ := rest.unique rest' htail
    exact ⟨rfl, rfl⟩

end

end FlatNet.Expr.Grammar
