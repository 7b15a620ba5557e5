import FlatNet.Proofs.Expr.Printer
import FlatNet.Proofs.NameMap
import FlatNet.Token.Lexer

/-!
# Names in expressions

The names in an expression are words of the netlist language.  Those that are read from a text are
even names of ASCII, which are the words that consist of ASCII alone.  Substitution brings in no
other names than those of the expressions that are substituted.
-/

set_option autoImplicit false

namespace FlatNet

open Lexer (startsWord)
open Text (isAscii isWordChar)

/-- A word of the netlist language, which does not begin with a digit. -/
def IsWord (cs : List Char) : Prop :=
  ∃ c tail, cs = c :: tail ∧ startsWord c = true ∧ ∀ d ∈ tail, isWordChar d = true

/-- In ASCII the same characters start words and names. -/
theorem startsWord_of_isAscii {c : Char} (h : isAscii c = true) :
    startsWord c = Expr.Token.startsName c := by
  rw [startsWord, Text.isAlphabetic_of_isAscii h, Expr.Token.startsName]

/-- In ASCII the same characters continue words and names. -/
theorem isWordChar_of_isAscii {c : Char} (h : isAscii c = true) :
    isWordChar c = Expr.Token.continuesName c := by
  rw [isWordChar, Text.isAlphanumeric_of_isAscii h, Expr.Token.continuesName]

/-- The names of expressions are the words that consist of ASCII. -/
theorem isName_iff (cs : List Char) :
    Expr.Token.IsName cs ↔ IsWord cs ∧ ∀ c ∈ cs, isAscii c = true := by
  constructor
  · rintro ⟨c, tail, rfl, hc, htail⟩
    have hascii := Expr.Token.isAscii_of_startsName hc
    have hasciis : ∀ d ∈ tail, isAscii d = true := fun d hd =>
      Expr.Token.isAscii_of_continuesName (htail d hd)
    refine ⟨⟨c, tail, rfl, ?_, fun d hd => ?_⟩, List.forall_mem_cons.2 ⟨hascii, hasciis⟩⟩
    · rwa [startsWord_of_isAscii hascii]
    · rw [isWordChar_of_isAscii (hasciis d hd)]
      exact htail d hd
  · rintro ⟨⟨c, tail, rfl, hc, htail⟩, hascii⟩
    obtain ⟨hascii, hasciis⟩ := List.forall_mem_cons.1 hascii
    refine ⟨c, tail, rfl, ?_, fun d hd => ?_⟩
    · rwa [← startsWord_of_isAscii hascii]
    · rw [← isWordChar_of_isAscii (hasciis d hd)]
      exact htail d hd

/-- A word that is continued by characters of words is one. -/
theorem IsWord.append {cs ds : List Char} (h : IsWord cs) (hds : ∀ d ∈ ds, isWordChar d = true) :
    IsWord (cs ++ ds) := by
  obtain ⟨c, tail, rfl, hc, htail⟩ := h
  exact ⟨c, tail ++ ds, rfl, hc, List.forall_mem_append.2 ⟨htail, hds⟩⟩

namespace Expr

/-- All names in the expression are words. -/
def Worded (e : Expr) : Prop := ∀ s ∈ e.names, IsWord s.toList

/-- A literal has no names. -/
@[simp] theorem worded_num (x : Binary64) : (num x).Worded := by simp [Worded, names]

/-- A symbol is worded exactly if its name is a word. -/
theorem worded_sym {name : String} : (sym name).Worded ↔ IsWord name.toList := by
  simp [Worded, names]

/-! ## What is read -/

/-- Negation keeps the names. -/
@[simp] theorem names_negated (e : Expr) : (negated e).names = e.names := by
  cases e <;> simp [negated, names]

namespace Grammar

mutual

/-- The names in what a derivation stands for are among the tokens. -/
theorem Sum.name_mem_tokens : (d : Sum) → ∀ s ∈ d.tree.names, Token.name s ∈ d.tokens
  | .mk first rest, s, hs => by
    rw [Sum.tree] at hs
    rw [Sum.tokens, List.mem_append]
    rcases rest.name_mem_tokens first.tree s hs with hs | hs
    · exact .inl (first.name_mem_tokens s hs)
    · exact .inr hs

/-- The names in the tree of summands are those on the left of them or are derived by them. -/
theorem SumTail.name_mem_tokens : (rest : SumTail) → (lhs : Expr) →
    ∀ s ∈ (rest.tree lhs).names, s ∈ lhs.names ∨ Token.name s ∈ rest.tokens
  | .nil, lhs, s, hs => .inl hs
  | .cons op next rest, lhs, s, hs => by
    rw [SumTail.tree] at hs
    rw [SumTail.tokens, List.mem_cons, List.mem_append]
    rcases rest.name_mem_tokens _ s hs with hs | hs
    · rw [names, List.mem_append] at hs
      rcases hs with hs | hs
      · exact .inl hs
      · exact .inr (.inr (.inl (next.name_mem_tokens s hs)))
    · exact .inr (.inr (.inr hs))

/-- The names in the tree of a product are among its tokens. -/
theorem Product.name_mem_tokens : (d : Product) → ∀ s ∈ d.tree.names, Token.name s ∈ d.tokens
  | .mk first rest, s, hs => by
    rw [Product.tree] at hs
    rw [Product.tokens, List.mem_append]
    rcases rest.name_mem_tokens first.tree s hs with hs | hs
    · exact .inl (first.name_mem_tokens s hs)
    · exact .inr hs

/-- The names in the tree of factors are those on the left of them or are derived by them. -/
theorem ProductTail.name_mem_tokens : (rest : ProductTail) → (lhs : Expr) →
    ∀ s ∈ (rest.tree lhs).names, s ∈ lhs.names ∨ Token.name s ∈ rest.tokens
  | .nil, lhs, s, hs => .inl hs
  | .cons op next rest, lhs, s, hs => by
    rw [ProductTail.tree] at hs
    rw [ProductTail.tokens, List.mem_cons, List.mem_append]
    rcases rest.name_mem_tokens _ s hs with hs | hs
    · rw [names, List.mem_append] at hs
      rcases hs with hs | hs
      · exact .inl hs
      · exact .inr (.inr (.inl (next.name_mem_tokens s hs)))
    · exact .inr (.inr (.inr hs))

/-- The names in the tree of a factor are among its tokens. -/
theorem Factor.name_mem_tokens : (p : Factor) → ∀ s ∈ p.tree.names, Token.name s ∈ p.tokens
  | .base a, s, hs => a.name_mem_tokens s hs
  | .raised a exponent, s, hs => by
    rw [Factor.tree, names, List.mem_append] at hs
    rw [Factor.tokens, List.mem_append, List.mem_cons]
    rcases hs with hs | hs
    · exact .inl (a.name_mem_tokens s hs)
    · exact .inr (.inr (exponent.name_mem_tokens s hs))
  | .signed .plus operand, s, hs => List.mem_cons_of_mem _ (operand.name_mem_tokens s hs)
  | .signed .minus operand, s, hs => by
    rw [Factor.tree, names_negated] at hs
    exact List.mem_cons_of_mem _ (operand.name_mem_tokens s hs)

/-- The names in the tree of an atom are among its tokens. -/
theorem Atom.name_mem_tokens : (a : Atom) → ∀ s ∈ a.tree.names, Token.name s ∈ a.tokens
  | .number value, s, hs => by simp [Atom.tree, names] at hs
  | .name name, s, hs => by
    obtain rfl : s = name := by simpa [Atom.tree, names] using hs
    simp [Atom.tokens]
  | .call function args, s, hs => by
    rw [Atom.tree, names, List.mem_cons] at hs
    rw [Atom.tokens, List.mem_cons, List.mem_cons, List.mem_append]
    rcases hs with rfl | hs
    · exact .inl rfl
    · exact .inr (.inr (.inl (args.name_mem_tokens s hs)))
  | .group inner, s, hs =>
    List.mem_cons_of_mem _ (List.mem_append_left _ (inner.name_mem_tokens s hs))

/-- The names in the trees of arguments are among their tokens. -/
theorem Arguments.name_mem_tokens : (args : Arguments) →
    ∀ s ∈ namesOfAll args.trees, Token.name s ∈ args.tokens
  | .none, s, hs => by simp [Arguments.trees, namesOfAll] at hs
  | .some first rest, s, hs => by
    rw [Arguments.trees, namesOfAll, List.mem_append] at hs
    rw [Arguments.tokens, List.mem_append]
    rcases hs with hs | hs
    · exact .inl (first.name_mem_tokens s hs)
    · exact .inr (rest.name_mem_tokens s hs)

/-- The names in the trees of the arguments behind the first are among their tokens. -/
theorem ArgumentsTail.name_mem_tokens : (rest : ArgumentsTail) →
    ∀ s ∈ namesOfAll rest.trees, Token.name s ∈ rest.tokens
  | .nil, s, hs => by simp [ArgumentsTail.trees, namesOfAll] at hs
  | .cons next rest, s, hs => by
    rw [ArgumentsTail.trees, namesOfAll, List.mem_append] at hs
    rw [ArgumentsTail.tokens, List.mem_cons, List.mem_append]
    rcases hs with hs | hs
    · exact .inr (.inl (next.name_mem_tokens s hs))
    · exact .inr (.inr (rest.name_mem_tokens s hs))

end

end Grammar

namespace Token

/-- A name that is scanned is one. -/
theorem isName_of_readOne {cs rest : List Char} {s : String}
    (h : readOne cs = .ok (name s, rest)) : IsName s.toList := by
  cases cs with
  | nil => simp [readOne] at h
  | cons c tail =>
    simp only [readOne] at h
    split at h
    · split at h
      · simp at h
      · split at h <;> simp at h
    · split at h
      · rename_i hstart
        have hname := (Prod.mk.inj (Except.ok.inj h)).1
        injection hname with hname
        rw [← hname, String.toList_ofList]
        refine ⟨c, _, rfl, hstart, ?_⟩
        intro d hd
        exact List.mem_takeWhile_imp hd
      · split at h
        · rename_i found hsign
          obtain rfl := by simpa using h
          unfold readSign? at hsign
          split at hsign <;> simp at hsign
        · simp at h

/-- The names among the tokens of a text can be read from it. -/
theorem isName_of_scanFrom {offset : Nat} {cs : List Char} {placed : List Placed}
    (h : scanFrom offset cs = .ok placed) {s : String}
    (hs : name s ∈ placed.map Placed.token) : IsName s.toList := by
  induction offset, cs using scanFrom.induct generalizing placed with
  | case1 offset =>
    rw [scanFrom] at h
    obtain rfl := by simpa using h
    simp at hs
  | case2 offset c tail hblank ih =>
    rw [scanFrom_of_isBlank hblank] at h
    exact ih h hs
  | case3 offset c tail hblank fault hfault =>
    rw [scanFrom, if_neg hblank] at h
    split at h
    · simp at h
    · rename_i hok
      rw [hfault] at hok
      simp at hok
  | case4 offset c tail hblank t rest hread failure hfailure ih =>
    rw [scanFrom_of_readOne (by simpa using hblank) hread, hfailure] at h
    simp [Except.map] at h
  | case5 offset c tail hblank t rest hread ps hps ih =>
    rw [scanFrom_of_readOne (by simpa using hblank) hread, hps] at h
    obtain rfl := by simpa [Except.map] using h
    rcases List.mem_cons.1 hs with rfl | hs
    · exact isName_of_readOne hread
    · exact ih hps hs

end Token

/-- The names in an expression that is read from a text are words. -/
theorem worded_of_parseChars {cs : List Char} {e : Expr} (h : parseChars cs = .ok e) :
    e.Worded := by
  have hparse : parse (String.ofList cs) = .ok e := by
    rw [parse, String.toList_ofList]
    exact h
  obtain ⟨placed, hscan, d, htokens, rfl⟩ := (parse_eq_ok_iff_exists_scan _ _).1 hparse
  intro s hs
  have hmem := d.name_mem_tokens s hs
  rw [htokens] at hmem
  exact ((isName_iff _).1 (Token.isName_of_scanFrom hscan hmem)).1

/-! ## Substitution -/

mutual

/-- A name in an expression after substitution was there before or is one of what has been
substituted for a symbol. -/
theorem mem_names_subst {bindings : NameMap Expr} : (e : Expr) → ∀ s ∈ (e.subst bindings).names,
    s ∈ e.names ∨ ∃ (name : String) (value : Expr), name ∈ e.occurrences ∧
      bindings[name]? = some value ∧ s ∈ value.names
  | num _, s, hs => .inl hs
  | sym name, s, hs => by
    rw [subst] at hs
    cases hvalue : bindings[name]? with
    | none =>
      rw [hvalue] at hs
      exact .inl hs
    | some value =>
      rw [hvalue] at hs
      exact .inr ⟨name, value, List.mem_singleton_self name, hvalue, hs⟩
  | neg operand, s, hs => by
    rw [subst, names] at hs
    exact mem_names_subst operand s hs
  | binary op lhs rhs, s, hs => by
    rw [subst, names, List.mem_append] at hs
    rw [names, occurrences, List.mem_append]
    rcases hs with hs | hs
    · rcases mem_names_subst lhs s hs with hs | ⟨name, value, hname, hput⟩
      · exact .inl (.inl hs)
      · exact .inr ⟨name, value, List.mem_append_left _ hname, hput⟩
    · rcases mem_names_subst rhs s hs with hs | ⟨name, value, hname, hput⟩
      · exact .inl (.inr hs)
      · exact .inr ⟨name, value, List.mem_append_right _ hname, hput⟩
  | call name args, s, hs => by
    rw [subst, names, List.mem_cons] at hs
    rw [names, occurrences, List.mem_cons]
    rcases hs with rfl | hs
    · exact .inl (.inl rfl)
    · exact (mem_namesOfAll_substAll args s hs).imp .inr id

/-- The names in substituted arguments are those of the arguments or of what is substituted. -/
theorem mem_namesOfAll_substAll {bindings : NameMap Expr} : (args : List Expr) →
    ∀ s ∈ namesOfAll (substAll bindings args),
      s ∈ namesOfAll args ∨ ∃ (name : String) (value : Expr), name ∈ occurrencesOfAll args ∧
        bindings[name]? = some value ∧ s ∈ value.names
  | [], s, hs => .inl hs
  | arg :: args, s, hs => by
    rw [substAll, namesOfAll, List.mem_append] at hs
    rw [namesOfAll, occurrencesOfAll, List.mem_append]
    rcases hs with hs | hs
    · rcases mem_names_subst arg s hs with hs | ⟨name, value, hname, hput⟩
      · exact .inl (.inl hs)
      · exact .inr ⟨name, value, List.mem_append_left _ hname, hput⟩
    · rcases mem_namesOfAll_substAll args s hs with hs | ⟨name, value, hname, hput⟩
      · exact .inl (.inr hs)
      · exact .inr ⟨name, value, List.mem_append_right _ hname, hput⟩

end

mutual

/-- The symbols are names. -/
theorem mem_names_of_mem_occurrences : (e : Expr) → ∀ s ∈ e.occurrences, s ∈ e.names
  | num _, s, hs => by simp [occurrences] at hs
  | sym _, s, hs => hs
  | neg operand, s, hs => mem_names_of_mem_occurrences operand s hs
  | binary _ lhs rhs, s, hs => by
    rw [occurrences, List.mem_append] at hs
    rw [names, List.mem_append]
    exact hs.imp (mem_names_of_mem_occurrences lhs s) (mem_names_of_mem_occurrences rhs s)
  | call name args, s, hs =>
    List.mem_cons_of_mem name (mem_namesOfAll_of_mem_occurrencesOfAll args s hs)

/-- The symbols in arguments are among their names. -/
theorem mem_namesOfAll_of_mem_occurrencesOfAll : (args : List Expr) →
    ∀ s ∈ occurrencesOfAll args, s ∈ namesOfAll args
  | [], s, hs => by simp [occurrencesOfAll] at hs
  | arg :: args, s, hs => by
    rw [occurrencesOfAll, List.mem_append] at hs
    rw [namesOfAll, List.mem_append]
    exact hs.imp (mem_names_of_mem_occurrences arg s)
      (mem_namesOfAll_of_mem_occurrencesOfAll args s)

end

end Expr

/-- The names in all values of the map are words. -/
def NameMap.Worded (m : NameMap Expr) : Prop :=
  ∀ (name : String) (value : Expr), m[name]? = some value → value.Worded

/-- An expression keeps being worded when something worded is put in for every symbol that is a
word. -/
theorem Expr.Worded.subst {e : Expr} (h : e.Worded) {bindings : NameMap Expr}
    (hbindings : ∀ (name : String) (value : Expr), IsWord name.toList →
      bindings[name]? = some value → value.Worded) : (e.subst bindings).Worded := by
  intro s hs
  rcases mem_names_subst e s hs with hs | ⟨name, value, hname, hvalue, hs⟩
  · exact h s hs
  · have hword := h name (mem_names_of_mem_occurrences e name hname)
    exact hbindings name value hword hvalue s hs

namespace NameMap.Worded

variable {m : NameMap Expr}

/-- No parameters are worded parameters. -/
theorem empty : NameMap.Worded ∅ := by
  intro name value hvalue
  simp at hvalue

/-- Worded parameters stay so with a worded one added. -/
theorem insert (h : m.Worded) (name : String) {value : Expr} (hvalue : value.Worded) :
    NameMap.Worded (m.insert name value) := by
  intro other value' hother
  rcases NameMap.getElem?_of_insert hother with ⟨-, rfl⟩ | hold
  · exact hvalue
  · exact h other value' hold

end NameMap.Worded

end FlatNet
