import FlatNet.Catalogue.Primitive

/-!
# Devices

The first letter of a reference designator tells which device an element is.  A device says how
many nodes and references stand on an element line, and which primitive models the element may be
bound to; the first of these is meant when the line gives a bare value.
-/

set_option autoImplicit false

namespace FlatNet

/-- The devices. -/
inductive Device where
  | capacitor
  | diode
  | vcvs
  | cccs
  | vccs
  | ccvs
  | currentSource
  | jfet
  | coupling
  | inductor
  | mosfet
  | nullor
  | opAmp
  | bjt
  | resistor
  | transformer
  | voltageSource
  | gyrator
  | subcircuit
  deriving DecidableEq

/-- The description of a device. -/
structure DeviceSpec where
  letter : Char
  /-- The number of nodes on an element line; an instance of a sub-circuit has any number. -/
  nodes : Option Nat
  /-- The number of references to other elements. -/
  refs : Nat
  /-- A model name or a value must be given. -/
  valueRequired : Bool
  /-- The models of the device, the default one first. -/
  models : List Primitive

namespace Device

/-- The description of a device. -/
def spec : Device → DeviceSpec
  | capacitor => ⟨'C', some 2, 0, true, [.capacitor]⟩
  | diode => ⟨'D', some 2, 0, false, [.diode]⟩
  | vcvs => ⟨'E', some 4, 0, true, [.vcvs, .vcvsWithImpedance]⟩
  | cccs => ⟨'F', some 4, 0, true, [.cccs]⟩
  | vccs => ⟨'G', some 4, 0, true, [.vccs, .vccsWithBranch]⟩
  | ccvs => ⟨'H', some 4, 0, true, [.ccvs, .ccvsWithImpedance]⟩
  | currentSource => ⟨'I', some 2, 0, true, [.currentSource]⟩
  | jfet => ⟨'J', some 3, 0, false, [.jfet]⟩
  | coupling => ⟨'K', some 0, 2, true, [.coupling]⟩
  | inductor => ⟨'L', some 2, 0, true, [.inductor]⟩
  | mosfet => ⟨'M', some 4, 0, false, [.mosfet]⟩
  | nullor => ⟨'N', some 4, 0, false, [.nullor]⟩
  | opAmp => ⟨'O', some 4, 0, true, [.voltageFeedbackOpAmp, .currentFeedbackOpAmp]⟩
  | bjt => ⟨'Q', some 4, 0, false, [.bjt]⟩
  | resistor => ⟨'R', some 2, 0, true, [.resistor, .resistorWithBranch]⟩
  | transformer => ⟨'T', some 4, 0, true, [.transformer]⟩
  | voltageSource => ⟨'V', some 2, 0, true, [.voltageSource]⟩
  | gyrator => ⟨'W', some 4, 0, true, [.gyrator]⟩
  | subcircuit => ⟨'X', none, 0, true, []⟩

/-- All devices, in the order of their letters. -/
def all : List Device :=
  [capacitor, diode, vcvs, cccs, vccs, ccvs, currentSource, jfet, coupling, inductor, mosfet,
   nullor, opAmp, bjt, resistor, transformer, voltageSource, gyrator, subcircuit]

/-- The letter of the device. -/
def letter (d : Device) : Char := d.spec.letter

/-- The device of an upper-case letter. -/
def ofLetter? (letter : Char) : Option Device := all.find? fun d => d.letter == letter

/-- The device of an element, by the first letter of its reference designator in either case. -/
def ofRefDes? (refDes : String) : Option Device :=
  refDes.toList.head?.bind fun c => ofLetter? c.toUpper

/-- The model of an element that is given only a value. -/
def defaultModel? (d : Device) : Option Primitive := d.spec.models.head?

/-- The model may be used with the device. -/
def accepts (d : Device) (p : Primitive) : Bool := d.spec.models.contains p

/-- The device drives the circuit with an externally given value. -/
def isIndependentSource : Device → Bool
  | voltageSource | currentSource => true
  | _ => false

/-- The device can serve as a loop gain reference. -/
def isControlledSource : Device → Bool
  | vcvs | cccs | vccs | ccvs => true
  | _ => false

/-- A device is found under its own letter. -/
theorem ofLetter?_letter (d : Device) : ofLetter? d.letter = some d := by cases d <;> decide

end Device

end FlatNet
