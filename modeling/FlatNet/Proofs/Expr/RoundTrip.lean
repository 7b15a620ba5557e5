import FlatNet.Proofs.Printing

/-!
# Expressions that are read as they are

A plain expression has names of ASCII and numbers as they are written by hand: finite, without a
sign, and with digits that are read back.  Its written form is read as the expression itself unless
a minus sign stands directly over a number in it, which the number would take on.  Substitution puts
plain expressions into plain ones, so it may bring such a minus sign about, and nothing else that is
read as something different.
-/

set_option autoImplicit false

namespace FlatNet.Expr

/-- The expression is a number. -/
def isNumber : Expr → Bool
  | num _ => true
  | _ => false

mutual

/-- A minus sign stands directly over a number in the expression. -/
def signsNumber : Expr → Bool
  | num _ => false
  | sym _ => false
  | neg operand => operand.isNumber || signsNumber operand
  | binary _ lhs rhs => signsNumber lhs || signsNumber rhs
  | call _ args => anySignsNumber args

/-- A minus sign stands directly over a number in one of the expressions. -/
def anySignsNumber : List Expr → Bool
  | [] => false
  | arg :: args => signsNumber arg || anySignsNumber args

end

/-! ## What is read as it is -/

/-- The expression behind a minus sign is the given one exactly if it is no number, which would take
the sign itself. -/
theorem negated_eq_neg_iff {e e' : Expr} : negated e' = neg e ↔ e' = e ∧ e.isNumber = false := by
  cases e' with
  | num x =>
    simp only [negated, reduceCtorEq, false_iff, not_and]
    rintro rfl
    simp [isNumber]
  | _ =>
    simp only [negated, neg.injEq, iff_self_and]
    rintro rfl
    rfl

/-- A number without a sign is read as it is. -/
theorem reread_num {x : Binary64} (hfinite : x.isFinite = true) (hsign : x.isNegative = false) :
    (num x).reread = num x := by
  have hminus : x.showsMinus = false := by simp [Binary64.showsMinus, hsign]
  simp [reread, signed, hminus, magnitude, Binary64.isNaN_of_isFinite hfinite, hfinite,
    Binary64.abs_of_not_isNegative hsign]

/-- A number without a sign does not begin with one. -/
theorem beginsWithMinus_of_literals {e : Expr} (h : ∀ x ∈ e.literals, x.isNegative = false) :
    e.beginsWithMinus = false := by
  cases e with
  | num x => simp [beginsWithMinus, Binary64.showsMinus, h x (by simp [literals])]
  | _ => rfl

mutual

/-- An expression whose numbers are finite and without a sign is read as it is, if, and only if, no
minus sign stands directly over a number in it. -/
theorem reread_eq_self_iff : (e : Expr) →
    (∀ x ∈ e.literals, x.isFinite = true ∧ x.isNegative = false) →
    (e.reread = e ↔ e.signsNumber = false)
  | num x, h => by
    obtain ⟨hfinite, hsign⟩ := h x (by simp [literals])
    simp [reread_num hfinite hsign, signsNumber]
  | sym name, _ => by simp [reread, signsNumber]
  | neg operand, h => by
    have hoperand := reread_eq_self_iff operand h
    rw [reread, negated_eq_neg_iff, hoperand, signsNumber, Bool.or_eq_false_iff, and_comm]
  | binary op lhs rhs, h => by
    simp only [literals, List.forall_mem_append] at h
    have hminus := beginsWithMinus_of_literals fun x hx => (h.1 x hx).2
    rw [reread, joined_of_not_beginsWithMinus hminus, binary.injEq, reread_eq_self_iff lhs h.1,
      reread_eq_self_iff rhs h.2, signsNumber, Bool.or_eq_false_iff]
    simp
  | call name args, h => by
    rw [reread, call.injEq, rereadAll_eq_self_iff args h, signsNumber]
    simp

/-- Arguments are read as they are exactly if no minus sign stands directly over a number in
them. -/
theorem rereadAll_eq_self_iff : (args : List Expr) →
    (∀ x ∈ literalsOfAll args, x.isFinite = true ∧ x.isNegative = false) →
    (rereadAll args = args ↔ anySignsNumber args = false)
  | [], _ => by simp [rereadAll, anySignsNumber]
  | arg :: args, h => by
    simp only [literalsOfAll, List.forall_mem_append] at h
    rw [rereadAll, List.cons.injEq, reread_eq_self_iff arg h.1, rereadAll_eq_self_iff args h.2,
      anySignsNumber, Bool.or_eq_false_iff]

end

/-! ## Plain expressions -/

/-- The names are ASCII, and the numbers are finite and without a sign, with digits that are read as
these numbers. -/
structure Plain (e : Expr) : Prop where
  names : ∀ s ∈ e.names, Token.IsName s.toList
  literals : ∀ x ∈ e.literals, x.isFinite = true ∧ x.isNegative = false ∧ x.ReadsBack

/-- The written form of a plain expression is read as the expression, if, and only if, no minus sign
stands directly over a number in it. -/
theorem Plain.parse_text_iff {e : Expr} (h : e.Plain) :
    parse e.text = .ok e ↔ e.signsNumber = false := by
  have hread := parse_text h.names fun x hx _ => (h.literals x hx).2.2
  have hsigns := reread_eq_self_iff e fun x hx => ⟨(h.literals x hx).1, (h.literals x hx).2.1⟩
  rw [hread, Except.ok.injEq, hsigns]

/-! ## Substitution -/

mutual

/-- A literal of an expression after substitution was there before or is one of what has been
substituted for a symbol. -/
theorem mem_literals_subst {bindings : NameMap Expr} : (e : Expr) →
    ∀ x ∈ (e.subst bindings).literals, x ∈ e.literals ∨
      ∃ (name : String) (value : Expr), bindings[name]? = some value ∧ x ∈ value.literals
  | num _, x, hx => .inl hx
  | sym name, x, hx => by
    rw [subst] at hx
    cases hvalue : bindings[name]? with
    | none =>
      rw [hvalue] at hx
      exact .inl hx
    | some value =>
      rw [hvalue] at hx
      exact .inr ⟨name, value, hvalue, hx⟩
  | neg operand, x, hx => by
    rw [subst, literals] at hx
    exact mem_literals_subst operand x hx
  | binary op lhs rhs, x, hx => by
    rw [subst, literals, List.mem_append] at hx
    rw [literals, List.mem_append]
    rcases hx with hx | hx
    · exact (mem_literals_subst lhs x hx).imp .inl id
    · exact (mem_literals_subst rhs x hx).imp .inr id
  | call name args, x, hx => by
    rw [subst, literals] at hx
    exact mem_literalsOfAll_substAll args x hx

/-- The literals in substituted arguments are those of the arguments or of what is substituted. -/
theorem mem_literalsOfAll_substAll {bindings : NameMap Expr} : (args : List Expr) →
    ∀ x ∈ literalsOfAll (substAll bindings args), x ∈ literalsOfAll args ∨
      ∃ (name : String) (value : Expr), bindings[name]? = some value ∧ x ∈ value.literals
  | [], x, hx => .inl hx
  | arg :: args, x, hx => by
    rw [substAll, literalsOfAll, List.mem_append] at hx
    rw [literalsOfAll, List.mem_append]
    rcases hx with hx | hx
    · exact (mem_literals_subst arg x hx).imp .inl id
    · exact (mem_literalsOfAll_substAll args x hx).imp .inr id

end

/-- Plain expressions put into a plain one make a plain one. -/
theorem Plain.subst {e : Expr} (h : e.Plain) {bindings : NameMap Expr}
    (hbindings : ∀ (name : String) (value : Expr), bindings[name]? = some value → value.Plain) :
    (e.subst bindings).Plain where
  names := by
    intro s hs
    rcases mem_names_subst e s hs with hs | ⟨name, value, -, hvalue, hs⟩
    · exact h.names s hs
    · exact (hbindings name value hvalue).names s hs
  literals := by
    intro x hx
    rcases mem_literals_subst e x hx with hx | ⟨name, value, hvalue, hx⟩
    · exact h.literals x hx
    · exact (hbindings name value hvalue).literals x hx

/-- After a substitution among plain expressions the written form is read as the very same
expression, if, and only if, no minus sign stands directly over a number in it. -/
theorem parse_text_subst_iff {e : Expr} {bindings : NameMap Expr} (he : e.Plain)
    (hbindings : ∀ (name : String) (value : Expr), bindings[name]? = some value → value.Plain) :
    parse (e.subst bindings).text = .ok (e.subst bindings) ↔
      (e.subst bindings).signsNumber = false :=
  (he.subst hbindings).parse_text_iff

/-! ## A sign brought in by a substitution -/

open Binary64 (two)

/-- The number two is plain. -/
theorem plain_num_two : (num two).Plain where
  names := by simp [names]
  literals := by
    intro x hx
    obtain rfl : x = two := by simpa [literals] using hx
    decide +kernel

/-- A symbol of ASCII is plain. -/
theorem plain_sym {name : String} (h : Token.IsName name.toList) : (sym name).Plain where
  names := by simpa [names] using h
  literals := by simp [literals]

/-- The negation of a plain expression is plain. -/
theorem Plain.neg {e : Expr} (h : e.Plain) : (neg e).Plain := ⟨h.names, h.literals⟩

/-- An operation on plain expressions is plain. -/
theorem Plain.binary {e e' : Expr} (h : e.Plain) (h' : e'.Plain) (op : BinaryOp) :
    (binary op e e').Plain where
  names := List.forall_mem_append.2 ⟨h.names, h'.names⟩
  literals := List.forall_mem_append.2 ⟨h.literals, h'.literals⟩

/-- Bindings with one entry are plain if that is. -/
theorem plain_of_singleton (key : String) {entry : Expr} (h : entry.Plain) :
    ∀ (name : String) (value : Expr),
      ((∅ : NameMap Expr).insert key entry)[name]? = some value → value.Plain := by
  intro name value hvalue
  rcases NameMap.getElem?_of_insert hvalue with ⟨-, rfl⟩ | hvalue
  · exact h
  · simp at hvalue

/-- The square of a symbol is read back when the symbol is replaced by another one behind a minus
sign; the symbol behind a minus sign is not when the symbol is replaced by a number. -/
theorem parse_text_subst_square :
    parse ((binary .pow (sym "a") (num two)).subst ((∅ : NameMap Expr).insert "a"
        (neg (sym "b")))).text = .ok (binary .pow (neg (sym "b")) (num two)) ∧
      parse ((neg (sym "a")).subst ((∅ : NameMap Expr).insert "a" (num two))).text ≠
        .ok (neg (num two)) := by
  have ha : (sym "a").Plain := plain_sym ⟨'a', [], by simp, by decide, by simp⟩
  have hb : (sym "b").Plain := plain_sym ⟨'b', [], by simp, by decide, by simp⟩
  have hsquare := parse_text_subst_iff (ha.binary plain_num_two .pow)
    (plain_of_singleton "a" hb.neg)
  have hsigned := parse_text_subst_iff ha.neg (plain_of_singleton "a" plain_num_two)
  simp only [subst, Std.ExtTreeMap.getElem?_insert_self, Option.getD_some] at hsquare hsigned ⊢
  rw [hsquare, ne_eq, hsigned]
  exact ⟨rfl, by simp [signsNumber, isNumber]⟩

end FlatNet.Expr
