import FlatNet.Proofs.Accepted
import FlatNet.Proofs.Expansion.Worded
import FlatNet.Proofs.Expr.Value
import FlatNet.Proofs.Library.Standard

/-!
# What printed parameters mean

A circuit is printed with the values of its parameters, and these are expressions that may be read
again.  The text of a value can be read exactly if all its names are ASCII, and then it is read as
`Expr.reread`.  That means the same if all literals are finite and no power has a literal behind a
minus sign as its base; a netlist can bring about a value for which it means something else.
-/

set_option autoImplicit false

namespace FlatNet

/-! ## Expressions -/

namespace Binary64

/-- Whether the digits of a number are read back can be computed. -/
theorem readsBack_iff {x : Binary64} :
    x.ReadsBack ↔ (Literal.read x.abs.text.toList).any
      (fun (l, rest) => rest.isEmpty && (l.decimal false).toBinary64 == x.abs) = true := by
  rw [Option.any_eq_true]
  constructor
  · rintro ⟨l, hread, hnumber⟩
    exact ⟨(l, []), hread, by simp [hnumber]⟩
  · rintro ⟨⟨l, rest⟩, hread, hboth⟩
    simp only [Bool.and_eq_true, List.isEmpty_iff, beq_iff_eq] at hboth
    obtain ⟨rfl, hnumber⟩ := hboth
    exact ⟨l, hread, hnumber⟩

instance (x : Binary64) : Decidable x.ReadsBack := decidable_of_iff _ readsBack_iff.symm

end Binary64

namespace Expr

/-- The digits of all finite literals are read as these literals. -/
def DigitsReadBack (e : Expr) : Prop := ∀ x ∈ e.literals, x.isFinite = true → x.ReadsBack

/-- All names consist of ASCII characters. -/
def IsAscii (e : Expr) : Prop := ∀ s ∈ e.names, ∀ c ∈ s.toList, Text.isAscii c = true

/-- All literals are finite. -/
def IsFinite (e : Expr) : Prop := ∀ x ∈ e.literals, x.isFinite = true

instance (e : Expr) : Decidable e.DigitsReadBack :=
  inferInstanceAs (Decidable (∀ x ∈ e.literals, x.isFinite = true → x.ReadsBack))

-- the characters of the names are examined, and not all characters that there are
instance (e : Expr) : Decidable e.IsAscii :=
  decidable_of_iff ((e.names.all fun s => s.toList.all Text.isAscii) = true)
    (by simp only [IsAscii, List.all_eq_true])

instance (e : Expr) : Decidable e.IsFinite :=
  inferInstanceAs (Decidable (∀ x ∈ e.literals, x.isFinite = true))

/-- The written form can be read, and what is read means the same. -/
def KeepsMeaning (e : Expr) : Prop := ∃ e', parse e.text = .ok e' ∧ SameMeaning e' e

variable {e : Expr}

/-- An expression of ASCII words is read as `reread`. -/
theorem Worded.parse_text (h : e.Worded) (hdigits : e.DigitsReadBack) (hascii : e.IsAscii) :
    parse e.text = .ok e.reread :=
  Expr.parse_text (fun s hs => (isName_iff _).2 ⟨h s hs, hascii s hs⟩) hdigits

/-- A written expression can be read if, and only if, it consists of ASCII. -/
theorem Worded.exists_parse_text_iff (h : e.Worded) (hdigits : e.DigitsReadBack) :
    (∃ e', parse e.text = .ok e') ↔ e.IsAscii := by
  constructor
  · rintro ⟨e', hparse⟩
    exact isAscii_of_parse_text hparse
  · intro hascii
    exact ⟨e.reread, h.parse_text hdigits hascii⟩

/-- A written expression keeps its meaning if, and only if, it consists of ASCII and the expression
that it is read as means the same. -/
theorem Worded.keepsMeaning_iff (h : e.Worded) (hdigits : e.DigitsReadBack) :
    e.KeepsMeaning ↔ e.IsAscii ∧ SameMeaning e.reread e := by
  constructor
  · rintro ⟨e', hparse, hmeans⟩
    have hascii : e.IsAscii := isAscii_of_parse_text hparse
    rw [h.parse_text hdigits hascii] at hparse
    obtain rfl := Except.ok.inj hparse
    exact ⟨hascii, hmeans⟩
  · rintro ⟨hascii, hmeans⟩
    exact ⟨e.reread, h.parse_text hdigits hascii, hmeans⟩

end Expr

/-! ## Circuits -/

/-- The assignments in the written form of the circuit, those of elements before those of the
circuit. -/
def Circuit.assignments (c : Circuit) : List (String × Expr) :=
  c.elements.values.flatMap (fun e => e.params.toList) ++ c.params.toList

/-- Every text stands in the row of texts with a separator between them. -/
theorem exists_intercalate_eq {s line : String} {texts : List String} (h : line ∈ texts) :
    ∃ before behind, s.intercalate texts = before ++ line ++ behind := by
  induction texts with
  | nil => exact absurd h List.not_mem_nil
  | cons first rest ih =>
    cases rest with
    | nil =>
      obtain rfl := List.mem_singleton.1 h
      exact ⟨"", "", by simp⟩
    | cons second rest =>
      rw [String.intercalate_cons_cons]
      rcases List.mem_cons.1 h with rfl | h
      · exact ⟨"", s ++ s.intercalate (second :: rest), by simp [String.append_assoc]⟩
      · obtain ⟨before, behind, heq⟩ := ih h
        refine ⟨first ++ s ++ before, behind, ?_⟩
        rw [heq]
        simp only [String.append_assoc]

/-- The parameters of an element stand in its line. -/
theorem Element.exists_text_eq (e : Element) {entry : String × Expr}
    (h : entry ∈ e.params.toList) :
    ∃ before behind, e.text = before ++ assignmentText entry.1 entry.2 ++ behind := by
  refine exists_intercalate_eq (List.mem_append_right _ ?_)
  exact List.mem_map.2 ⟨entry, h, rfl⟩

namespace Circuit

variable {c : Circuit}

/-- The assignments of a circuit are those of its elements and its own. -/
theorem mem_assignments {entry : String × Expr} :
    entry ∈ c.assignments ↔ (∃ e ∈ c.elements.values, e.params[entry.1]? = some entry.2) ∨
      c.params[entry.1]? = some entry.2 := by
  obtain ⟨name, value⟩ := entry
  simp only [assignments, List.mem_append, List.mem_flatMap,
    Std.ExtTreeMap.mem_toList_iff_getElem?_eq_some]

/-- Every assignment stands in a line of the written form. -/
theorem exists_line_of_mem_assignments {entry : String × Expr} (h : entry ∈ c.assignments) :
    ∃ line ∈ c.lines, ∃ before behind,
      line = before ++ assignmentText entry.1 entry.2 ++ behind := by
  unfold lines
  simp only [List.mem_append]
  rcases List.mem_append.1 h with hentry | hentry
  · obtain ⟨e, he, hentry⟩ := List.mem_flatMap.1 hentry
    have hline : e.text ∈ c.elements.values.map Element.text := List.mem_map_of_mem he
    exact ⟨e.text, .inl (.inl (.inl (.inl (.inr hline)))), e.exists_text_eq hentry⟩
  · refine ⟨".param " ++ assignmentText entry.1 entry.2, ?_, ".param ", "", by simp⟩
    exact .inl (.inl (.inl (.inr (List.mem_map.2 ⟨entry, hentry, rfl⟩))))

/-- The assignments of a worded circuit are worded. -/
theorem Worded.of_mem_assignments (h : c.Worded) {entry : String × Expr}
    (hentry : entry ∈ c.assignments) : entry.2.Worded := by
  rcases mem_assignments.1 hentry with ⟨e, he, hvalue⟩ | hvalue
  · exact (h.elements e he).params entry.1 entry.2 hvalue
  · exact h.params entry.1 entry.2 hvalue

end Circuit

namespace Workspace

variable {w : Workspace} {disk : Disk} {label text : String}

/-- Every assignment of a circuit is printed.  Its text can be read exactly if it consists of ASCII,
and it is read as `reread`.  It keeps its meaning exactly if that means the same, so in particular
if its literals are finite and no power in it has a literal behind a minus sign as its base. -/
theorem keepsMeaning_assignments (h : w.Reachable) (disk : Disk) (label text : String)
    {entry : String × Expr} (hentry : entry ∈ (w.compile disk label text).2.assignments)
    (hdigits : entry.2.DigitsReadBack) :
    (∃ line ∈ (w.compile disk label text).2.lines, ∃ before behind,
        line = before ++ assignmentText entry.1 entry.2 ++ behind) ∧
      ((∃ e', Expr.parse entry.2.text = .ok e') ↔ entry.2.IsAscii) ∧
      (entry.2.IsAscii → Expr.parse entry.2.text = .ok entry.2.reread) ∧
      (entry.2.KeepsMeaning ↔ entry.2.IsAscii ∧ Expr.SameMeaning entry.2.reread entry.2) ∧
      (entry.2.IsAscii → entry.2.IsFinite → entry.2.raisesMinus = false →
        entry.2.KeepsMeaning) := by
  have hworded := (h.worded.circuit disk label text).of_mem_assignments hentry
  have hmeans := hworded.keepsMeaning_iff hdigits
  refine ⟨Circuit.exists_line_of_mem_assignments hentry, hworded.exists_parse_text_iff hdigits,
    hworded.parse_text hdigits, hmeans, ?_⟩
  intro hascii hfinite hraises
  exact hmeans.2 ⟨hascii, Expr.sameMeaning_reread hfinite hraises⟩

/-- In an accepted netlist the parameters of an element that expansion ends with are printed. -/
theorem mem_assignments_of_accepted (h : w.Regular)
    (haccepted : (w.compile disk label text).2.errors = 0) {name : String} {e : Element}
    (he : (w.prepare disk label text).expansionRun.circuit.elements[name]? = some e)
    (hprimitive : e.primitive?.isSome = true) {entry : String × Expr}
    (hentry : e.params[entry.1]? = some entry.2) :
    entry ∈ (w.compile disk label text).2.assignments := by
  obtain ⟨-, hcircuit⟩ := ready_of_accepted h haccepted
  generalize w.prepare disk label text = v at he hcircuit
  have hflat : (Expansion.flatten v.expansionSetting v.netlist).1.elements =
      v.expansionRun.circuit.elements.filter fun _ e => e.primitive?.isSome := rfl
  have hleft : (v.expansionRun.circuit.elements.filter fun _ e => e.primitive?.isSome)[name]? =
      some e := by
    rw [Std.ExtTreeMap.getElem?_filter', he]
    exact Option.filter_some_pos hprimitive
  rw [Circuit.mem_assignments, hcircuit, Circuit.elements_complete, hflat]
  exact .inl ⟨e, NameMap.mem_values.2 ⟨name, hleft⟩, hentry⟩

/-- In an accepted netlist a parameter of an element is printed that passes a test, if expansion
ends with one. -/
theorem exists_assignment_of_accepted (h : w.Regular)
    (haccepted : (w.compile disk label text).2.errors = 0) (name param : String)
    (test : Expr → Bool)
    (htest : ((w.prepare disk label text).expansionRun.circuit.elements[name]?).any
      (fun e => e.primitive?.isSome && (e.params[param]?).any test) = true) :
    ∃ value, (param, value) ∈ (w.compile disk label text).2.assignments ∧ test value = true := by
  obtain ⟨e, he, hboth⟩ := (Option.any_eq_true _ _).1 htest
  obtain ⟨hprimitive, hany⟩ := Bool.and_eq_true_iff.1 hboth
  obtain ⟨value, hvalue, hpasses⟩ := (Option.any_eq_true _ _).1 hany
  exact ⟨value, mem_assignments_of_accepted h haccepted he hprimitive hvalue, hpasses⟩

/-- A netlist with one resistor, whose value is raised to the power of two. -/
def squareText (base : String) : String := "t\nR1 1 0 \x7b" ++ base ++ "^2\x7d\n.end\n"

set_option maxRecDepth 100000 in
/-- The netlist in which a difference is squared is accepted. -/
theorem accepted_square_difference :
    (standard.compile Disk.empty "main.cir" (squareText "(a-2)")).2.errors = 0 := by
  refine errors_compile_eq_zero ?_ ?_ ?_
  · decide +kernel
  · decide +kernel
  · exact contains_connectedNodes_flatten "R1" groundNode (by decide +kernel) (by decide +kernel)

set_option maxRecDepth 100000 in
/-- The square of a difference keeps its meaning. -/
theorem keepsMeaning_assignments_square :
    standard.Reachable ∧
      (standard.compile Disk.empty "main.cir" (squareText "(a-2)")).2.errors = 0 ∧
      ∃ value, ("value", value) ∈
          (standard.compile Disk.empty "main.cir" (squareText "(a-2)")).2.assignments ∧
        value.DigitsReadBack ∧ value.IsAscii ∧ value.IsFinite ∧ value.raisesMinus = false ∧
        value.KeepsMeaning := by
  have haccepted := accepted_square_difference
  obtain ⟨value, hvalue, htest⟩ := exists_assignment_of_accepted reachable_standard.regular
    haccepted "R1" "value"
    (fun value => value.DigitsReadBack ∧ value.IsAscii ∧ value.IsFinite ∧ value.raisesMinus = false)
    (by decide +kernel)
  obtain ⟨hdigits, hascii, hfinite, hraises⟩ := of_decide_eq_true htest
  have hkeeps := (keepsMeaning_assignments reachable_standard Disk.empty "main.cir"
    (squareText "(a-2)") hvalue hdigits).2.2.2.2 hascii hfinite hraises
  exact ⟨reachable_standard, haccepted, value, hvalue, hdigits, hascii, hfinite, hraises, hkeeps⟩

end Workspace

/-! ## The square of minus two -/

namespace Binary64

/-- The number two. -/
def two : Binary64 := ⟨0x4000000000000000⟩

/-- The number two is two. -/
theorem toReal_two : two.toReal = 2 := by
  have hsign : two.isNegative = false := by decide +kernel
  have hsignificand : two.significand = 2 ^ 52 := by decide +kernel
  have hexponent : two.exponent = -51 := by decide +kernel
  rw [toReal, hsign, hsignificand, hexponent]
  norm_num

end Binary64

namespace Expr

open Binary64 (two)

/-- The square of the number. -/
def square (x : Binary64) : Expr := binary .pow (num x) (num two)

/-- The expression is the square of the number. -/
def isSquare (x : Binary64) : Expr → Bool
  | binary .pow (num base) (num exponent) => base == x && exponent == two
  | _ => false

/-- An expression that is recognised as the square of a number is the square. -/
theorem eq_square {x : Binary64} {e : Expr} (h : e.isSquare x = true) : e = square x := by
  unfold isSquare at h
  split at h
  · simp only [Bool.and_eq_true, beq_iff_eq] at h
    rw [h.1, h.2, square]
  · exact absurd h (by simp)

/-- The square of minus two is read as the square of two behind a minus sign. -/
theorem reread_square_neg_two : (square two.neg).reread = neg (square two) := by
  have hminus : two.neg.showsMinus = true := by decide +kernel
  have hplus : two.showsMinus = false := by decide +kernel
  have hbase : magnitude two.neg = num two := by
    unfold magnitude
    rw [if_neg (by decide +kernel), if_pos (by decide +kernel)]
    exact congrArg num (by decide +kernel)
  have hexponent : magnitude two = num two := by
    unfold magnitude
    rw [if_neg (by decide +kernel), if_pos (by decide +kernel)]
    exact congrArg num (by decide +kernel)
  simp [square, reread, joined, hminus, hplus, hbase, hexponent, signed, negated]

section Value

variable (symbols : String → ℝ) (functions : String → List ℝ → ℝ)

/-- The square of a number has the square as its value. -/
theorem value_square {x : Binary64} (h : x.isFinite = true) :
    (square x).value symbols functions = some (x.toReal ^ 2) := by
  have htwo : two.isFinite = true := by decide +kernel
  have hinteger : ∃ n : ℤ, (2 : ℝ) = n := ⟨2, by norm_num⟩
  have hpower : BinaryOp.pow.apply x.toReal 2 = some (x.toReal ^ 2) := by
    simp [BinaryOp.apply, hinteger]
  simp [square, value, h, htwo, Binary64.toReal_two, hpower]

end Value

/-- Written, the square of minus two means minus four. -/
theorem not_keepsMeaning_square_neg_two : ¬(square two.neg).KeepsMeaning := by
  have hworded : (square two.neg).Worded := by simp [square, Worded, names]
  intro hkeeps
  have hmeans := ((hworded.keepsMeaning_iff (by decide +kernel)).1 hkeeps).2
  have hvalue := hmeans (fun _ => 0) (fun _ _ => 0)
  rw [reread_square_neg_two, value, value_square _ _ (by decide +kernel),
    value_square _ _ (by decide +kernel), Binary64.toReal_neg, Binary64.toReal_two] at hvalue
  norm_num at hvalue

end Expr

namespace Workspace

set_option maxRecDepth 100000 in
/-- The netlist in which a negative literal is squared is accepted. -/
theorem accepted_square_literal :
    (standard.compile Disk.empty "main.cir" (squareText "(-2)")).2.errors = 0 := by
  refine errors_compile_eq_zero ?_ ?_ ?_
  · decide +kernel
  · decide +kernel
  · exact contains_connectedNodes_flatten "R1" groundNode (by decide +kernel) (by decide +kernel)

set_option maxRecDepth 100000 in
/-- The square of minus two is printed as a text that is read as minus the square of two. -/
theorem not_keepsMeaning_square :
    standard.Reachable ∧
      (standard.compile Disk.empty "main.cir" (squareText "(-2)")).2.errors = 0 ∧
      ∃ value, ("value", value) ∈
          (standard.compile Disk.empty "main.cir" (squareText "(-2)")).2.assignments ∧
        value.DigitsReadBack ∧ value.IsAscii ∧ value.IsFinite ∧ ¬value.KeepsMeaning := by
  have haccepted := accepted_square_literal
  obtain ⟨value, hvalue, htest⟩ := exists_assignment_of_accepted reachable_standard.regular
    haccepted "R1" "value" (Expr.isSquare Binary64.two.neg) (by decide +kernel)
  obtain rfl := Expr.eq_square htest
  have hlost := Expr.not_keepsMeaning_square_neg_two
  refine ⟨reachable_standard, haccepted, _, hvalue, ?_, ?_, ?_, hlost⟩
  · decide +kernel
  · decide +kernel
  · decide +kernel

end Workspace

end FlatNet
