import FlatNet.Number.Decimal

/-!
# Primitive models

The models that an element can be bound to.  Most are stamps, which a solver takes as they are;
the others stand for a built-in sub-circuit that the element is expanded into.  A model says which
parameters it has, whether the Laplace variable may occur in each, and which branch variables an
element of it adds to the unknowns of the circuit.
-/

set_option autoImplicit false

namespace FlatNet

/-- The ground node. -/
def groundNode : String := "0"

/-- The frequency variable of the Laplace transform. -/
def laplaceVariable : String := "s"

/-- Symbols with a fixed meaning, which are neither renamed nor ever undefined. -/
def reservedSymbols : List String := [laplaceVariable, "pi"]

/-- The symbol has a fixed meaning. -/
def isReserved (name : String) : Bool := reservedSymbols.contains name

/-- A parameter of a primitive model. -/
structure ParamSpec where
  name : String
  /-- The Laplace variable may occur in the value. -/
  laplace : Bool
  /-- The value if none is given. -/
  default : Binary64

/-- The primitive models. -/
inductive Primitive where
  | capacitor
  | diode
  | vcvs
  | vcvsWithImpedance
  | cccs
  | vccs
  | vccsWithBranch
  | ccvs
  | ccvsWithImpedance
  | currentSource
  | jfet
  | coupling
  | inductor
  | mosfet
  | nullor
  | currentFeedbackOpAmp
  | voltageFeedbackOpAmp
  | bjt
  | resistor
  | resistorWithBranch
  | transformer
  | voltageSource
  | gyrator
  deriving DecidableEq

/-- The description of a primitive model. -/
structure PrimitiveSpec where
  /-- The name in a netlist. -/
  name : String
  /-- The built-in sub-circuit that it stands for; a stamp has none. -/
  expansion : Option String
  /-- The kinds of branch variables, which are named `<kind>_<element>`. -/
  branches : List String
  params : List ParamSpec

namespace ParamSpec

/-- A parameter whose value may contain the Laplace variable, with a default of
`coefficient · 10 ^ exponent`. -/
def dynamic (name : String) (coefficient : Nat) (exponent : Int) : ParamSpec :=
  ⟨name, true, Decimal.toBinary64 ⟨false, coefficient, exponent⟩⟩

/-- A parameter whose value is constant over frequency. -/
def static (name : String) (coefficient : Nat) (exponent : Int) : ParamSpec :=
  ⟨name, false, Decimal.toBinary64 ⟨false, coefficient, exponent⟩⟩

/-- The parameters of independent sources. -/
def ofSource : List ParamSpec :=
  [dynamic "value" 0 0, static "noise" 0 0, static "dc" 0 0, static "dcvar" 0 0]

/-- The parameters of resistors. -/
def ofResistor : List ParamSpec :=
  [dynamic "value" 0 0, static "noisetemp" 0 0, static "noiseflow" 0 0, static "dcvar" 0 0,
   static "dcvarlot" 0 0]

/-- The parameter of controlled sources. -/
def ofGain : List ParamSpec := [dynamic "value" 1 0]

/-- The parameters of controlled sources with an output impedance. -/
def ofGainWithImpedance : List ParamSpec := [dynamic "value" 1 0, dynamic "zo" 0 0]

end ParamSpec

namespace Primitive

open ParamSpec

/-- The description of a model. -/
def spec : Primitive → PrimitiveSpec
  | capacitor => ⟨"C", none, [], [static "value" 0 0, static "vinit" 0 0]⟩
  | diode =>
    ⟨"D", some "D", [], [static "ID" 1 (-3), static "n" 1 0, static "cj" 0 0, static "rs" 0 0]⟩
  | vcvs => ⟨"E", none, ["Io"], ofGain⟩
  | vcvsWithImpedance => ⟨"EZ", none, ["Io"], ofGainWithImpedance⟩
  | cccs => ⟨"F", none, ["Ii"], ofGain⟩
  | vccs => ⟨"G", none, [], ofGain⟩
  | vccsWithBranch => ⟨"g", none, ["Io"], ofGain⟩
  | ccvs => ⟨"H", none, ["Io", "Ii"], ofGain⟩
  | ccvsWithImpedance => ⟨"HZ", none, ["Io", "Ii"], ofGainWithImpedance⟩
  | currentSource => ⟨"I", none, [], ofSource⟩
  | jfet =>
    ⟨"J", some "J", [],
      [static "gm" 1 (-3), static "go" 1 (-5), static "cgs" 0 0, static "cgd" 0 0]⟩
  | coupling => ⟨"K", none, [], [static "value" 0 0]⟩
  | inductor => ⟨"L", none, ["I"], [static "value" 0 0, static "iinit" 0 0]⟩
  | mosfet =>
    ⟨"M", some "M", [],
      [static "gm" 1 (-3), static "gb" 0 0, static "go" 1 (-5), static "cgs" 0 0,
       static "cgd" 0 0, static "cdb" 0 0]⟩
  | nullor => ⟨"N", none, ["Io"], []⟩
  | currentFeedbackOpAmp =>
    ⟨"OC", none, ["Io"],
      [static "cd" 0 0, static "cc" 0 0, static "gd" 0 0, static "gc" 0 0, dynamic "av" 1 5,
       dynamic "zo" 0 0]⟩
  | voltageFeedbackOpAmp => ⟨"OV", none, ["Io"], [dynamic "value" 1 5, dynamic "zo" 0 0]⟩
  | bjt =>
    ⟨"Q", some "Q", [],
      [static "gm" 40 (-3), static "beta" 100 0, static "go" 1 (-5), static "cpi" 0 0,
       static "cmu" 0 0, static "cs" 0 0]⟩
  | resistor => ⟨"R", none, [], ofResistor⟩
  | resistorWithBranch => ⟨"r", none, ["I"], ofResistor⟩
  | transformer => ⟨"T", none, ["Io", "Ii"], [static "value" 1 0]⟩
  | voltageSource => ⟨"V", none, ["I"], ofSource⟩
  | gyrator => ⟨"W", none, [], [static "value" 1 0]⟩

/-- All models. -/
def all : List Primitive :=
  [capacitor, diode, vcvs, vcvsWithImpedance, cccs, vccs, vccsWithBranch, ccvs,
   ccvsWithImpedance, currentSource, jfet, coupling, inductor, mosfet, nullor,
   currentFeedbackOpAmp, voltageFeedbackOpAmp, bjt, resistor, resistorWithBranch, transformer,
   voltageSource, gyrator]

/-- The name in a netlist. -/
def name (p : Primitive) : String := p.spec.name

/-- The model of a name. -/
def ofName? (name : String) : Option Primitive := all.find? fun p => p.name == name

/-- A solver takes the model as it is. -/
def isStamp (p : Primitive) : Bool := p.spec.expansion.isNone

/-- The parameter of the given name. -/
def param? (p : Primitive) (name : String) : Option ParamSpec :=
  p.spec.params.find? fun s => s.name == name

/-- The model has such a parameter, and the Laplace variable may not occur in it. -/
def forbidsLaplace (p : Primitive) (name : String) : Bool :=
  (p.param? name).any fun s => !s.laplace

/-- Every primitive model is in the catalogue. -/
theorem mem_all (p : Primitive) : p ∈ all := by cases p <;> decide

/-- A model is found under its own name. -/
theorem ofName?_name (p : Primitive) : ofName? p.name = some p := by cases p <;> decide

end Primitive

end FlatNet
