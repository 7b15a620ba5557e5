import Std.Data.ExtTreeMap
import Std.Data.ExtTreeSet

/-!
# Maps and sets of names

Everything that a netlist defines is found by name, and wherever names are listed they are in the
order of their code points.  Both containers are extensional: two of them with the same entries
are equal, however they were built.
-/

set_option autoImplicit false

namespace FlatNet

/-- A finite map from names, listed in the order of the names. -/
abbrev NameMap (α : Type) : Type := Std.ExtTreeMap String α compare

/-- A finite set of names, listed in their order. -/
abbrev NameSet : Type := Std.ExtTreeSet String compare

/-- The set of the names in a list. -/
def NameSet.ofList (names : List String) : NameSet := Std.ExtTreeSet.ofList names compare

/-- A set that is made from a list has the names in the list. -/
theorem NameSet.mem_ofList {names : List String} {name : String} :
    name ∈ NameSet.ofList names ↔ name ∈ names := by
  simp [NameSet.ofList, Std.ExtTreeSet.mem_ofList]

end FlatNet
