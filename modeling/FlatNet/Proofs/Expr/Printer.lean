import FlatNet.Proofs.Expr.Parser
import FlatNet.Proofs.Expr.Scanner
import FlatNet.Proofs.Number.Sign

/-!
# Written expressions are read again

The written form of an expression is the spelling of the tokens `written`, which have a derivation:
parentheses stand exactly where a phrase of the grammar could not begin or end otherwise.  What the
derivation stands for is `reread`.  It differs from the expression in its literals only.  The sign
of a literal is read as an operator: it is lost with a zero, and behind it the base of a power is
read as if the sign stood before the power.  Infinities and what is not a number are read as names.
-/

set_option autoImplicit false

namespace FlatNet

namespace Binary64

/-- The digits that the number is written with, its sign apart, are read as the number without its
sign. -/
def ReadsBack (x : Binary64) : Prop :=
  ∃ l, Literal.read x.abs.text.toList = some (l, []) ∧ (l.decimal false).toBinary64 = x.abs

/-- What is not finite is no whole number. -/
theorem natAbs?_of_not_isFinite {x : Binary64} (h : x.isFinite = false) : x.natAbs? = none := by
  simp [natAbs?, h]

/-- What is no number is written `NaN`. -/
theorem text_of_isNaN {x : Binary64} (h : x.isNaN = true) : x.text = "NaN" := by
  have hfinite : x.isFinite = false := by
    simp only [isNaN, decide_eq_true_eq] at h
    simp only [isFinite, decide_eq_false_iff_not]
    omega
  simp [text, natAbs?_of_not_isFinite hfinite, h, positionalText, writtenWith]

/-- Positive infinity is written `inf`. -/
theorem text_of_not_isFinite {x : Binary64} (hnan : x.isNaN = false) (h : x.isFinite = false)
    (hsign : x.isNegative = false) : x.text = "inf" := by
  simp [text, natAbs?_of_not_isFinite h, hnan, positionalText, exponentialText, writtenWith, h,
    hsign]

end Binary64

namespace Expr

open Grammar

/-! ## The tokens of a written expression -/

/-- The token that a literal is written with behind its sign. -/
def digits (x : Binary64) : Token :=
  if x.isNaN then .name "NaN" else if x.isFinite then .number x.abs else .name "inf"

/-- The tokens that a literal is written with. -/
def literalTokens (x : Binary64) : List Token :=
  if x.showsMinus then [.operator .sub, digits x] else [digits x]

/-- The tokens in parentheses. -/
def parenthesized (ts : List Token) : List Token := .opening :: (ts ++ [.closing])

/-- The tokens of an operand, given its own tokens. -/
def enclosed (e : Expr) (demand : Nat) (ts : List Token) : List Token :=
  if e.meets demand then ts else parenthesized ts

mutual

/-- The tokens that an expression is written with. -/
def written : Expr → List Token
  | num x => literalTokens x
  | sym name => [.name name]
  | neg operand => .operator .sub :: enclosed operand (minusStrength + 1) (written operand)
  | binary op lhs rhs =>
    enclosed lhs op.leftDemand (written lhs) ++
      .operator op :: enclosed rhs op.rightDemand (written rhs)
  | call name args => .name name :: parenthesized (writtenArguments args)

/-- The tokens that the arguments of a call are written with. -/
def writtenArguments : List Expr → List Token
  | [] => []
  | arg :: args => written arg ++ writtenMore args

/-- The tokens that arguments are written with behind another one. -/
def writtenMore : List Expr → List Token
  | [] => []
  | arg :: args => .comma :: (written arg ++ writtenMore args)

end

/-! ## What is read -/

/-- What the literal is read as behind its sign. -/
def magnitude (x : Binary64) : Expr :=
  if x.isNaN then sym "NaN" else if x.isFinite then num x.abs else sym "inf"

/-- The expression behind a minus sign, if there is one. -/
def signed (minus : Bool) (e : Expr) : Expr := if minus then negated e else e

/-- What is read for two operands and their operator, given what is read for each; the sign of a
literal is not raised to a power with it. -/
def joined (op : BinaryOp) (lhs lhs' rhs' : Expr) : Expr :=
  match op, lhs with
  | .pow, num x => signed x.showsMinus (binary .pow (magnitude x) rhs')
  | _, _ => binary op lhs' rhs'

mutual

/-- The expression that is read from the written form of an expression. -/
def reread : Expr → Expr
  | num x => signed x.showsMinus (magnitude x)
  | sym name => sym name
  | neg operand => negated (reread operand)
  | binary op lhs rhs => joined op lhs (reread lhs) (reread rhs)
  | call name args => call name (rereadAll args)

/-- The expressions that are read from the written forms of a list of expressions. -/
def rereadAll : List Expr → List Expr
  | [] => []
  | arg :: args => reread arg :: rereadAll args

end

mutual

/-- The names in an expression, of symbols and of functions. -/
def names : Expr → List String
  | num _ => []
  | sym name => [name]
  | neg operand => names operand
  | binary _ lhs rhs => names lhs ++ names rhs
  | call name args => name :: namesOfAll args

/-- The names in a list of expressions. -/
def namesOfAll : List Expr → List String
  | [] => []
  | arg :: args => names arg ++ namesOfAll args

end

mutual

/-- The literals in an expression. -/
def literals : Expr → List Binary64
  | num x => [x]
  | sym _ => []
  | neg operand => literals operand
  | binary _ lhs rhs => literals lhs ++ literals rhs
  | call _ args => literalsOfAll args

/-- The literals in a list of expressions. -/
def literalsOfAll : List Expr → List Binary64
  | [] => []
  | arg :: args => literals arg ++ literalsOfAll args

end

/-! ## The written form spells the tokens -/

/-- The spelling of a row of tokens. -/
def spelled (ts : List Token) : List Char := ts.flatMap Token.spelling

/-- No tokens are spelled by no characters. -/
@[simp] theorem spelled_nil : spelled [] = [] := rfl

/-- Tokens are spelled one after another. -/
@[simp] theorem spelled_cons (t : Token) (ts : List Token) :
    spelled (t :: ts) = t.spelling ++ spelled ts := rfl

/-- Two rows of tokens are spelled one after the other. -/
@[simp] theorem spelled_append (ts us : List Token) :
    spelled (ts ++ us) = spelled ts ++ spelled us := List.flatMap_append

/-- An operator is spelled by its sign. -/
@[simp] theorem spelling_operator (op : BinaryOp) :
    (Token.operator op).spelling = op.sign.toList := by
  simp [Token.spelling, Token.chars, Token.gap]

/-- The digits of a literal are spelled as the number without its sign is written. -/
theorem spelling_digits (x : Binary64) : (digits x).spelling = x.abs.text.toList := by
  have hmagnitude := Binary64.magnitude_abs x
  unfold digits
  split
  · rename_i hnan
    rw [← Binary64.isNaN_congr hmagnitude] at hnan
    rw [Binary64.text_of_isNaN hnan]
    rfl
  · rename_i hnan
    split
    · simp [Token.spelling, Token.chars, Token.gap]
    · rename_i hfinite
      rw [← Binary64.isNaN_congr hmagnitude, Bool.not_eq_true] at hnan
      rw [← Binary64.isFinite_congr hmagnitude, Bool.not_eq_true] at hfinite
      rw [Binary64.text_of_not_isFinite hnan hfinite (Binary64.isNegative_abs x)]
      rfl

/-- A literal is written by spelling its tokens. -/
theorem spelled_literalTokens (x : Binary64) : spelled (literalTokens x) = x.text.toList := by
  rw [Binary64.text_eq]
  unfold literalTokens Binary64.minusText
  split <;> simp [spelling_digits, BinaryOp.sign]

/-- Tokens in parentheses are spelled between the two characters. -/
theorem spelled_parenthesized (ts : List Token) :
    spelled (parenthesized ts) = '(' :: (spelled ts ++ [')']) := by
  simp [parenthesized, Token.spelling, Token.chars, Token.gap]

/-- An operand is put in parentheses among the tokens exactly if it is in the text. -/
theorem spelled_enclosed {e : Expr} {ts : List Token} {written : String}
    (h : spelled ts = written.toList) (demand : Nat) :
    spelled (enclosed e demand ts) = (enclose e demand written).toList := by
  unfold enclosed enclose
  split
  · exact h
  · simp [spelled_parenthesized, h]

mutual

/-- An expression is written by spelling its tokens. -/
theorem spelled_written : (e : Expr) → spelled e.written = e.text.toList
  | num x => by
    rw [written, text]
    exact spelled_literalTokens x
  | sym name => by simp [written, text, Token.spelling, Token.chars, Token.gap]
  | neg operand => by
    rw [written, text, spelled_cons, spelled_enclosed (spelled_written operand),
      String.toList_append]
    rfl
  | binary op lhs rhs => by
    rw [written, text, spelled_append, spelled_cons, spelled_enclosed (spelled_written lhs),
      spelled_enclosed (spelled_written rhs)]
    simp
  | call name args => by
    rw [written, text, spelled_cons, spelled_parenthesized, spelled_writtenArguments args]
    simp [Token.spelling, Token.chars, Token.gap]

/-- Arguments are written by spelling their tokens, with a comma and a blank between them. -/
theorem spelled_writtenArguments : (args : List Expr) →
    spelled (writtenArguments args) = (", ".intercalate (texts args)).toList
  | [] => rfl
  | [arg] => by
    rw [writtenArguments, texts, spelled_append, spelled_written arg]
    simp [writtenMore, texts]
  | arg :: next :: args => by
    have hmore := spelled_writtenArguments (next :: args)
    rw [writtenArguments, spelled_append] at hmore
    rw [writtenArguments, writtenMore, texts, texts, String.intercalate_cons_cons, spelled_append,
      spelled_cons, spelled_append, spelled_written arg, hmore, texts]
    simp [Token.spelling, Token.chars, Token.gap]

end

/-! ## The tokens have a derivation -/

/-- An expression that meets a demand meets every weaker one. -/
theorem meets_mono {e : Expr} {demand demand' : Nat} (hle : demand ≤ demand')
    (h : e.meets demand' = true) : e.meets demand = true := by
  cases e <;> simp [meets] at h ⊢ <;> omega

/-- The expression is written as a literal behind a minus sign. -/
def beginsWithMinus : Expr → Bool
  | num x => x.showsMinus
  | _ => false

/-- The tokens of the expression have a derivation as every phrase that its strength allows, which
stands for what is read. -/
structure Derived (e : Expr) : Prop where
  sum : ∃ d : Sum, d.tokens = e.written ∧ d.tree = e.reread
  product : e.meets 2 = true → ∃ d : Product, d.tokens = e.written ∧ d.tree = e.reread
  factor : e.meets 3 = true → ∃ p : Factor, p.tokens = e.written ∧ p.tree = e.reread
  atom : e.meets 5 = true → e.beginsWithMinus = false →
    ∃ a : Atom, a.tokens = e.written ∧ a.tree = e.reread

namespace Derived

variable {e : Expr} {demand : Nat}

/-- What has a derivation as a product, and may not stand as a factor, has the derivations that its
strength allows. -/
theorem of_product {d : Product} (htokens : d.tokens = e.written) (htree : d.tree = e.reread)
    (hthree : e.meets 3 = false) : Derived e where
  sum := ⟨d.toSum, by simpa using htokens, by simpa using htree⟩
  product _ := ⟨d, htokens, htree⟩
  factor h := by simp [hthree] at h
  atom h _ := by simp [meets_mono (by omega : 3 ≤ 5) h] at hthree

/-- What has a derivation as a factor has one as every weaker phrase; as an atom it needs one of its
own. -/
theorem of_factor {p : Factor} (htokens : p.tokens = e.written) (htree : p.tree = e.reread)
    (hatom : e.meets 5 = true → e.beginsWithMinus = false →
      ∃ a : Atom, a.tokens = e.written ∧ a.tree = e.reread) : Derived e where
  sum := ⟨p.toProduct.toSum, by simpa using htokens, by simpa using htree⟩
  product _ := ⟨p.toProduct, by simpa using htokens, by simpa using htree⟩
  factor _ := ⟨p, htokens, htree⟩
  atom := hatom

/-- What has a derivation as an atom has one as every phrase. -/
theorem of_atom {a : Atom} (htokens : a.tokens = e.written) (htree : a.tree = e.reread) :
    Derived e :=
  of_factor (p := .base a) (by simpa [Factor.tokens] using htokens)
    (by simpa [Factor.tree] using htree) fun _ _ => ⟨a, htokens, htree⟩

/-- In parentheses an operand is an atom. -/
theorem exists_group (h : Derived e) :
    ∃ a : Atom, a.tokens = parenthesized e.written ∧ a.tree = e.reread := by
  obtain ⟨d, htokens, htree⟩ := h.sum
  exact ⟨.group d, by simp [Atom.tokens, htokens, parenthesized], by simpa [Atom.tree] using htree⟩

/-- The operand of a demand that only atoms meet is an atom, in parentheses if need be. -/
theorem exists_atom (h : Derived e) (hminus : e.beginsWithMinus = false) :
    ∃ a : Atom, a.tokens = enclosed e 5 e.written ∧ a.tree = e.reread := by
  unfold enclosed
  split
  · exact h.atom ‹_› hminus
  · exact h.exists_group

/-- An operand that must be at least a factor is one, in parentheses if need be. -/
theorem exists_factor (h : Derived e) (hdemand : 3 ≤ demand) :
    ∃ p : Factor, p.tokens = enclosed e demand e.written ∧ p.tree = e.reread := by
  unfold enclosed
  split
  · exact h.factor (meets_mono hdemand ‹_›)
  · obtain ⟨a, htokens, htree⟩ := h.exists_group
    exact ⟨.base a, by simpa [Factor.tokens] using htokens, by simpa [Factor.tree] using htree⟩

/-- An operand that must be at least a product is one, in parentheses if need be. -/
theorem exists_product (h : Derived e) (hdemand : 2 ≤ demand) :
    ∃ d : Product, d.tokens = enclosed e demand e.written ∧ d.tree = e.reread := by
  unfold enclosed
  split
  · exact h.product (meets_mono hdemand ‹_›)
  · obtain ⟨a, htokens, htree⟩ := h.exists_group
    refine ⟨(Factor.base a).toProduct, ?_, ?_⟩
    · simpa [Factor.tokens] using htokens
    · simpa [Factor.tree] using htree

/-- Every operand is a sum. -/
theorem exists_sum (h : Derived e) (demand : Nat) :
    ∃ d : Sum, d.tokens = enclosed e demand e.written ∧ d.tree = e.reread := by
  unfold enclosed
  split
  · exact h.sum
  · obtain ⟨a, htokens, htree⟩ := h.exists_group
    refine ⟨(Factor.base a).toProduct.toSum, ?_, ?_⟩
    · simpa [Factor.tokens] using htokens
    · simpa [Factor.tree] using htree

end Derived

/-- What a literal is written with behind its sign is an atom. -/
theorem exists_atom_digits (x : Binary64) :
    ∃ a : Atom, a.tokens = [digits x] ∧ a.tree = magnitude x := by
  unfold digits magnitude
  split
  · exact ⟨.name "NaN", rfl, rfl⟩
  · split
    · exact ⟨.number x.abs, rfl, rfl⟩
    · exact ⟨.name "inf", rfl, rfl⟩

/-- A literal is derived as an atom, behind a minus sign if it shows one. -/
theorem derived_num (x : Binary64) : Derived (num x) := by
  obtain ⟨a, htokens, htree⟩ := exists_atom_digits x
  cases hminus : x.showsMinus with
  | false =>
    refine .of_atom (a := a) ?_ ?_
    · simp [htokens, written, literalTokens, hminus]
    · simp [htree, reread, signed, hminus]
  | true =>
    refine .of_factor (p := .signed .minus (.base a)) ?_ ?_ ?_
    · simp [Factor.tokens, htokens, written, literalTokens, hminus, Additive.op]
    · simp [Factor.tree, htree, reread, signed, hminus]
    · intro _ hfalse
      simp [beginsWithMinus, hminus] at hfalse

/-- A negation is derived as a minus sign before a factor. -/
theorem derived_neg {operand : Expr} (h : Derived operand) : Derived (neg operand) := by
  obtain ⟨p, htokens, htree⟩ := h.exists_factor (by decide : 3 ≤ minusStrength + 1)
  refine .of_factor (p := .signed .minus p) ?_ ?_ ?_
  · simp [Factor.tokens, htokens, written, Additive.op]
  · simp [Factor.tree, htree, reread]
  · intro hmeets _
    simp [meets, minusStrength] at hmeets

/-- Only a power treats the sign of a literal in a way of its own. -/
theorem joined_of_ne_pow {op : BinaryOp} (h : op ≠ .pow) (lhs lhs' rhs' : Expr) :
    joined op lhs lhs' rhs' = binary op lhs' rhs' := by
  unfold joined
  split
  · exact absurd rfl h
  · rfl

/-- Without a minus sign in front, the left operand is read as it is by itself. -/
theorem joined_of_not_beginsWithMinus {lhs : Expr} (h : lhs.beginsWithMinus = false)
    (op : BinaryOp) (rhs' : Expr) :
    joined op lhs lhs.reread rhs' = binary op lhs.reread rhs' := by
  unfold joined
  split
  · rename_i x
    have hminus : x.showsMinus = false := h
    simp [reread, signed, hminus]
  · rfl

/-- A sum or a difference is derived by one more summand at the end of its left operand. -/
theorem derived_additive {lhs rhs : Expr} (op : Additive) (hlhs : Derived lhs)
    (hrhs : Derived rhs) : Derived (binary op.op lhs rhs) := by
  obtain ⟨d, htokens, htree⟩ := hlhs.exists_sum op.op.leftDemand
  obtain ⟨d', htokens', htree'⟩ :=
    hrhs.exists_product (by cases op <;> decide : 2 ≤ op.op.rightDemand)
  have hne : op.op ≠ .pow := by cases op <;> simp [Additive.op]
  refine ⟨⟨d.snoc op d', ?_, ?_⟩, ?_, ?_, ?_⟩
  · rw [Sum.tokens_snoc, htokens, htokens', written]
  · rw [Sum.tree_snoc, htree, htree', reread, joined_of_ne_pow hne]
  · intro hmeets
    simp [meets] at hmeets
  · intro hmeets
    simp [meets] at hmeets
  · intro hmeets _
    simp [meets] at hmeets

/-- A product or a quotient is derived by one more factor at the end of its left operand. -/
theorem derived_multiplicative {lhs rhs : Expr} (op : Multiplicative) (hlhs : Derived lhs)
    (hrhs : Derived rhs) : Derived (binary op.op lhs rhs) := by
  obtain ⟨d, htokens, htree⟩ :=
    hlhs.exists_product (by cases op <;> decide : 2 ≤ op.op.leftDemand)
  obtain ⟨p, htokens', htree'⟩ :=
    hrhs.exists_factor (by cases op <;> decide : 3 ≤ op.op.rightDemand)
  have hne : op.op ≠ .pow := by cases op <;> simp [Multiplicative.op]
  refine .of_product (d := d.snoc op p) ?_ ?_ ?_
  · rw [Product.tokens_snoc, htokens, htokens', written]
  · rw [Product.tree_snoc, htree, htree', reread, joined_of_ne_pow hne]
  · simp [meets]

/-- The base of a power is an atom, or a literal whose sign is read before the power. -/
theorem derived_pow {lhs rhs : Expr} (hlhs : Derived lhs) (hrhs : Derived rhs) :
    Derived (binary .pow lhs rhs) := by
  obtain ⟨p, htokens, htree⟩ := hrhs.exists_factor (by decide : 3 ≤ BinaryOp.pow.rightDemand)
  have hweak : (binary .pow lhs rhs).meets 5 = false := rfl
  cases hminus : lhs.beginsWithMinus with
  | false =>
    obtain ⟨a, htokens', htree'⟩ := hlhs.exists_atom hminus
    refine .of_factor (p := .raised a p) ?_ ?_ fun h => by simp [hweak] at h
    · rw [Factor.tokens, htokens, htokens', written]
      rfl
    · rw [Factor.tree, htree, htree', reread, joined_of_not_beginsWithMinus hminus]
  | true =>
    cases lhs with
    | num x =>
      have hminus : x.showsMinus = true := hminus
      obtain ⟨a, htokens', htree'⟩ := exists_atom_digits x
      refine .of_factor (p := .signed .minus (.raised a p)) ?_ ?_ fun h => by simp [hweak] at h
      · simp [Factor.tokens, htokens, htokens', written, enclosed, meets, literalTokens, hminus,
          Additive.op]
      · simp [Factor.tree, htree, htree', reread, joined, signed, hminus]
    | _ => simp [beginsWithMinus] at hminus

mutual

/-- The tokens of every expression have a derivation that stands for what is read. -/
theorem derived : (e : Expr) → Derived e
  | num x => derived_num x
  | sym name => .of_atom (a := .name name) (by simp [Atom.tokens, written])
    (by simp [Atom.tree, reread])
  | neg operand => derived_neg (derived operand)
  | binary .add lhs rhs => derived_additive .plus (derived lhs) (derived rhs)
  | binary .sub lhs rhs => derived_additive .minus (derived lhs) (derived rhs)
  | binary .mul lhs rhs => derived_multiplicative .times (derived lhs) (derived rhs)
  | binary .div lhs rhs => derived_multiplicative .per (derived lhs) (derived rhs)
  | binary .pow lhs rhs => derived_pow (derived lhs) (derived rhs)
  | call name args => by
    obtain ⟨as, htokens, htrees⟩ := derivedArguments args
    refine .of_atom (a := .call name as) ?_ ?_
    · simp [Atom.tokens, htokens, written, parenthesized]
    · simp [Atom.tree, htrees, reread]

/-- The tokens of arguments have a derivation, with the trees that are read for them. -/
theorem derivedArguments : (args : List Expr) →
    ∃ as : Arguments, as.tokens = writtenArguments args ∧ as.trees = rereadAll args
  | [] => ⟨.none, rfl, rfl⟩
  | arg :: args => by
    obtain ⟨d, htokens, htree⟩ := (derived arg).sum
    obtain ⟨more, htokens', htrees⟩ := derivedMore args
    refine ⟨.some d more, ?_, ?_⟩
    · rw [Arguments.tokens, htokens, htokens', writtenArguments]
    · rw [Arguments.trees, htree, htrees, rereadAll]

/-- The tokens of the arguments behind the first have a derivation, with the trees that are read for
them. -/
theorem derivedMore : (args : List Expr) →
    ∃ more : ArgumentsTail, more.tokens = writtenMore args ∧ more.trees = rereadAll args
  | [] => ⟨.nil, rfl, rfl⟩
  | arg :: args => by
    obtain ⟨d, htokens, htree⟩ := (derived arg).sum
    obtain ⟨more, htokens', htrees⟩ := derivedMore args
    refine ⟨.cons d more, ?_, ?_⟩
    · rw [ArgumentsTail.tokens, htokens, htokens', writtenMore]
    · rw [ArgumentsTail.trees, htree, htrees, rereadAll]

end

/-! ## The tokens do not run together -/

/-- The tokens are apart, and no star stands at either end of them. -/
structure Phrase (ts : List Token) : Prop where
  nonempty : ts ≠ []
  apart : ts.IsChain Token.Apart
  first : ∀ t ∈ ts.head?, t ≠ .operator .mul
  last : ∀ t ∈ ts.getLast?, t ≠ .operator .mul

/-- A token that is no word is apart from what follows it, but for two stars. -/
theorem apart_of_isWord_left {t u : Token} (ht : t.isWord = false)
    (h : t = .operator .mul → u ≠ .operator .mul) : t.Apart u :=
  ⟨fun hword => by simp [ht] at hword, h⟩

/-- A token that is no word is apart from what precedes it, but for two stars. -/
theorem apart_of_isWord_right {t u : Token} (hu : u.isWord = false)
    (h : t = .operator .mul → u ≠ .operator .mul) : t.Apart u := ⟨fun _ => hu, h⟩

namespace Phrase

variable {ts us : List Token} {t : Token}

/-- A single token is a phrase unless it is a star. -/
theorem singleton (h : t ≠ .operator .mul) : Phrase [t] where
  nonempty := by simp
  apart := .singleton t
  first := by simpa using h
  last := by simpa using h

/-- A token that is no word stands before a phrase. -/
theorem cons (h : Phrase ts) (ht : t.isWord = false) (hmul : t ≠ .operator .mul) :
    Phrase (t :: ts) where
  nonempty := by simp
  apart := List.isChain_cons.2
    ⟨fun _ _ => apart_of_isWord_left ht fun heq => absurd heq hmul, h.apart⟩
  first := by simpa using hmul
  last := by
    rw [List.getLast?_cons_of_ne_nil h.nonempty]
    exact h.last

/-- Two phrases stand on both sides of a token that is no word. -/
theorem append_cons (h : Phrase ts) (h' : Phrase us) (ht : t.isWord = false) :
    Phrase (ts ++ t :: us) where
  nonempty := by simp
  apart := by
    refine h.apart.append (List.isChain_cons.2 ⟨fun u hu => ?_, h'.apart⟩) fun u hu v hv => ?_
    · exact apart_of_isWord_left ht fun _ => h'.first u hu
    · obtain rfl : t = v := by simpa using hv
      exact apart_of_isWord_right ht fun heq => absurd heq (h.last u hu)
  first := by
    rw [List.head?_append_of_ne_nil _ h.nonempty]
    exact h.first
  last := by
    rw [List.getLast?_append_of_ne_nil _ (by simp), List.getLast?_cons_of_ne_nil h'.nonempty]
    exact h'.last

/-- A token that is no word stands behind a phrase. -/
theorem concat (h : Phrase ts) (ht : t.isWord = false) (hmul : t ≠ .operator .mul) :
    Phrase (ts ++ [t]) where
  nonempty := by simp
  apart := by
    refine h.apart.append (.singleton t) fun u hu v hv => ?_
    obtain rfl : t = v := by simpa using hv
    exact apart_of_isWord_right ht fun _ => hmul
  first := by
    rw [List.head?_append_of_ne_nil _ h.nonempty]
    exact h.first
  last := by simpa using hmul

/-- A phrase in parentheses is a phrase. -/
theorem parenthesized (h : Phrase ts) : Phrase (parenthesized ts) :=
  (h.concat rfl (by simp)).cons rfl (by simp)

/-- An operand is a phrase, in parentheses or not. -/
theorem enclosed (h : Phrase ts) (e : Expr) (demand : Nat) : Phrase (enclosed e demand ts) := by
  unfold Expr.enclosed
  split
  · exact h
  · exact h.parenthesized

/-- A name stands before parentheses. -/
theorem call (h : Phrase ts) (name : String) (hfirst : ts.head? = some .opening) :
    Phrase (.name name :: ts) where
  nonempty := by simp
  apart := by
    refine List.isChain_cons.2 ⟨fun u hu => ?_, h.apart⟩
    obtain rfl : Token.opening = u := by simpa [hfirst] using hu
    exact apart_of_isWord_right rfl (by simp)
  first := by simp
  last := by
    rw [List.getLast?_cons_of_ne_nil h.nonempty]
    exact h.last

end Phrase

/-- A literal is written as a phrase. -/
theorem phrase_literalTokens (x : Binary64) : Phrase (literalTokens x) := by
  have hdigits : Phrase [digits x] := by
    refine Phrase.singleton ?_
    unfold digits
    split
    · simp
    · split <;> simp
  unfold literalTokens
  split
  · exact hdigits.cons rfl (by simp)
  · exact hdigits

mutual

/-- No two tokens of a written expression run together. -/
theorem phrase_written : (e : Expr) → Phrase e.written
  | num x => by
    rw [written]
    exact phrase_literalTokens x
  | sym name => by
    rw [written]
    exact .singleton (by simp)
  | neg operand => by
    rw [written]
    exact ((phrase_written operand).enclosed operand _).cons rfl (by simp)
  | binary op lhs rhs => by
    rw [written]
    have hlhs := (phrase_written lhs).enclosed lhs op.leftDemand
    have hrhs := (phrase_written rhs).enclosed rhs op.rightDemand
    exact hlhs.append_cons hrhs rfl
  | call name [] => by
    rw [written]
    exact ((Phrase.singleton (by simp)).cons rfl (by simp)).call name rfl
  | call name (arg :: args) => by
    rw [written]
    exact (phrase_writtenMore (phrase_written arg) args).parenthesized.call name rfl

/-- A phrase stays one when further arguments are written behind it. -/
theorem phrase_writtenMore {ts : List Token} (h : Phrase ts) :
    (args : List Expr) → Phrase (ts ++ writtenMore args)
  | [] => by
    rw [writtenMore, List.append_nil]
    exact h
  | arg :: args => by
    rw [writtenMore]
    exact h.append_cons (phrase_writtenMore (phrase_written arg) args) rfl

end

/-! ## The tokens are legible -/

section Legible

variable {known : String → Prop} {readable : Binary64 → Prop}

/-- The token is a sign, a name that is known or stands for a literal that is not finite, or the
digits of a readable finite literal. -/
def TokenOf (known : String → Prop) (readable : Binary64 → Prop) : Token → Prop
  | .number value => ∃ x : Binary64, value = x.abs ∧ x.isFinite = true ∧ readable x
  | .name s => known s ∨ s = "NaN" ∨ s = "inf"
  | _ => True

/-- Parentheses add no name and no literal. -/
theorem tokenOf_parenthesized {ts : List Token} (h : ∀ t ∈ ts, TokenOf known readable t) :
    ∀ t ∈ parenthesized ts, TokenOf known readable t := by
  simp only [parenthesized, List.forall_mem_cons, List.forall_mem_append]
  exact ⟨trivial, h, trivial, List.forall_mem_nil _⟩

/-- An operand has no names and literals but its own, in parentheses or not. -/
theorem tokenOf_enclosed {ts : List Token} (h : ∀ t ∈ ts, TokenOf known readable t) (e : Expr)
    (demand : Nat) : ∀ t ∈ enclosed e demand ts, TokenOf known readable t := by
  unfold enclosed
  split
  · exact h
  · exact tokenOf_parenthesized h

/-- The only literal that a literal is written with is the literal itself. -/
theorem tokenOf_literalTokens {x : Binary64} (h : readable x) :
    ∀ t ∈ literalTokens x, TokenOf known readable t := by
  have hdigits : TokenOf known readable (digits x) := by
    unfold digits
    split
    · exact .inr (.inl rfl)
    · split
      · exact ⟨x, rfl, ‹_›, h⟩
      · exact .inr (.inr rfl)
  unfold literalTokens
  split
  · exact List.forall_mem_cons.2 ⟨trivial, List.forall_mem_singleton.2 hdigits⟩
  · exact List.forall_mem_singleton.2 hdigits

mutual

/-- The tokens of a written expression come from its names and literals. -/
theorem tokenOf_written : (e : Expr) → (∀ s ∈ e.names, known s) → (∀ x ∈ e.literals, readable x) →
    ∀ t ∈ e.written, TokenOf known readable t
  | num x, _, hliterals => by
    rw [written]
    exact tokenOf_literalTokens (hliterals x (by simp [literals]))
  | sym name, hnames, _ => by
    rw [written]
    exact List.forall_mem_singleton.2 (.inl (hnames name (by simp [names])))
  | neg operand, hnames, hliterals => by
    rw [names] at hnames
    rw [literals] at hliterals
    rw [written]
    exact List.forall_mem_cons.2
      ⟨trivial, tokenOf_enclosed (tokenOf_written operand hnames hliterals) _ _⟩
  | binary op lhs rhs, hnames, hliterals => by
    rw [names, List.forall_mem_append] at hnames
    rw [literals, List.forall_mem_append] at hliterals
    rw [written, List.forall_mem_append, List.forall_mem_cons]
    exact ⟨tokenOf_enclosed (tokenOf_written lhs hnames.1 hliterals.1) _ _, trivial,
      tokenOf_enclosed (tokenOf_written rhs hnames.2 hliterals.2) _ _⟩
  | call name [], hnames, _ => by
    rw [names, List.forall_mem_cons] at hnames
    rw [written, List.forall_mem_cons]
    exact ⟨.inl hnames.1, tokenOf_parenthesized (List.forall_mem_nil _)⟩
  | call name (arg :: args), hnames, hliterals => by
    rw [names, namesOfAll, List.forall_mem_cons, List.forall_mem_append] at hnames
    rw [literals, literalsOfAll, List.forall_mem_append] at hliterals
    rw [written, List.forall_mem_cons]
    refine ⟨.inl hnames.1, tokenOf_parenthesized ?_⟩
    rw [writtenArguments, List.forall_mem_append]
    exact ⟨tokenOf_written arg hnames.2.1 hliterals.1,
      tokenOf_writtenMore args hnames.2.2 hliterals.2⟩

/-- The names and literals among the tokens of arguments are those of the arguments. -/
theorem tokenOf_writtenMore : (args : List Expr) → (∀ s ∈ namesOfAll args, known s) →
    (∀ x ∈ literalsOfAll args, readable x) → ∀ t ∈ writtenMore args, TokenOf known readable t
  | [], _, _ => by
    rw [writtenMore]
    exact List.forall_mem_nil _
  | arg :: args, hnames, hliterals => by
    rw [namesOfAll, List.forall_mem_append] at hnames
    rw [literalsOfAll, List.forall_mem_append] at hliterals
    rw [writtenMore, List.forall_mem_cons, List.forall_mem_append]
    exact ⟨trivial, tokenOf_written arg hnames.1 hliterals.1,
      tokenOf_writtenMore args hnames.2 hliterals.2⟩

end

end Legible

/-- Tokens stay there in parentheses. -/
theorem mem_parenthesized {ts : List Token} {t : Token} (h : t ∈ ts) : t ∈ parenthesized ts :=
  List.mem_cons_of_mem _ (List.mem_append_left _ h)

/-- The tokens of an operand are there, in parentheses or not. -/
theorem mem_enclosed {ts : List Token} {t : Token} (h : t ∈ ts) (e : Expr) (demand : Nat) :
    t ∈ enclosed e demand ts := by
  unfold enclosed
  split
  · exact h
  · exact mem_parenthesized h

mutual

/-- Every name of an expression is a token of its written form. -/
theorem name_mem_written : (e : Expr) → ∀ s ∈ e.names, Token.name s ∈ e.written
  | num _, s, hs => by simp [names] at hs
  | sym name, s, hs => by
    obtain rfl : s = name := by simpa [names] using hs
    simp [written]
  | neg operand, s, hs => by
    rw [names] at hs
    rw [written]
    exact List.mem_cons_of_mem _ (mem_enclosed (name_mem_written operand s hs) _ _)
  | binary op lhs rhs, s, hs => by
    rw [names, List.mem_append] at hs
    rw [written, List.mem_append, List.mem_cons]
    rcases hs with hs | hs
    · exact .inl (mem_enclosed (name_mem_written lhs s hs) _ _)
    · exact .inr (.inr (mem_enclosed (name_mem_written rhs s hs) _ _))
  | call name args, s, hs => by
    rw [names, List.mem_cons] at hs
    rw [written, List.mem_cons]
    rcases hs with rfl | hs
    · exact .inl rfl
    · exact .inr (mem_parenthesized (name_mem_writtenArguments args s hs))

/-- Every name in the arguments of a call is among the tokens they are written with. -/
theorem name_mem_writtenArguments : (args : List Expr) →
    ∀ s ∈ namesOfAll args, Token.name s ∈ writtenArguments args
  | [], s, hs => by simp [namesOfAll] at hs
  | arg :: args, s, hs => by
    rw [namesOfAll, List.mem_append] at hs
    rw [writtenArguments, List.mem_append]
    rcases hs with hs | hs
    · exact .inl (name_mem_written arg s hs)
    · exact .inr (name_mem_writtenMore args s hs)

/-- Every name in the arguments behind the first is among the tokens they are written with. -/
theorem name_mem_writtenMore : (args : List Expr) →
    ∀ s ∈ namesOfAll args, Token.name s ∈ writtenMore args
  | [], s, hs => by simp [namesOfAll] at hs
  | arg :: args, s, hs => by
    rw [namesOfAll, List.mem_append] at hs
    rw [writtenMore, List.mem_cons, List.mem_append]
    rcases hs with hs | hs
    · exact .inr (.inl (name_mem_written arg s hs))
    · exact .inr (.inr (name_mem_writtenMore args s hs))

end

/-! ## Reading the written form -/

variable {e : Expr}

/-- A token is legible if its names are names and its finite literals are read back. -/
theorem legible_of_tokenOf {t : Token}
    (h : TokenOf (fun s => Token.IsName s.toList) (fun x => x.isFinite = true → x.ReadsBack) t) :
    t.Legible := by
  cases t with
  | number value =>
    obtain ⟨x, rfl, hfinite, hreads⟩ := h
    exact hreads hfinite
  | name s =>
    rcases h with h | rfl | rfl
    · exact h
    · exact ⟨'N', _, rfl, rfl, List.forall_mem_cons.2 ⟨rfl, List.forall_mem_singleton.2 rfl⟩⟩
    · exact ⟨'i', _, rfl, rfl, List.forall_mem_cons.2 ⟨rfl, List.forall_mem_singleton.2 rfl⟩⟩
  | _ => trivial

/-- The written form is read as `reread`, if the names are ASCII and the digits of the literals are
read back. -/
theorem parse_text (hnames : ∀ s ∈ e.names, Token.IsName s.toList)
    (hliterals : ∀ x ∈ e.literals, x.isFinite = true → x.ReadsBack) :
    parse e.text = .ok e.reread := by
  have hlegible : ∀ t ∈ e.written, t.Legible := fun t ht =>
    legible_of_tokenOf (tokenOf_written e hnames hliterals t ht)
  obtain ⟨placed, hscan, hplaced⟩ :=
    Token.exists_scanFrom_flatMap_spelling hlegible (phrase_written e).apart 0
  rw [parse_eq_ok_iff_exists_scan]
  refine ⟨placed, ?_, ?_⟩
  · rw [← spelled_written]
    exact hscan
  · rw [hplaced]
    exact (derived e).sum

/-- If the written form can be read at all, the names are ASCII. -/
theorem isAscii_of_parse_text {e' : Expr} (h : parse e.text = .ok e') :
    ∀ s ∈ e.names, ∀ c ∈ s.toList, Text.isAscii c = true := by
  obtain ⟨placed, hscan, -⟩ := (parse_eq_ok_iff_exists_scan _ _).1 h
  intro s hs c hc
  refine Token.isAscii_of_scanFrom hscan c ?_
  rw [← spelled_written]
  refine List.mem_flatMap.2 ⟨.name s, name_mem_written e s hs, ?_⟩
  exact List.mem_append_left _ hc

end Expr

end FlatNet
