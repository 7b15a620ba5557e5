/-!
# The standard library

The text of the library that is always built in: physical constants, and the small-signal
sub-circuits of the primitive models that are no stamps.
-/

set_option autoImplicit false

namespace FlatNet.StandardLibrary

/-- The name of the standard library. -/
def fileName : String := "stdlib.lib"

/-- The lines of the standard library. -/
def lines : List String :=
  ["\"Built-in device prototypes\"",
   "* Small-signal prototypes for the non-stamp primitive models. The formal",
   "* parameters of each prototype are the legal parameters of its model.",
   "",
   "* Physical constants and the thermal voltage",
   ".param k=1.38064852e-23 q=1.602176634e-19 T=300 U_T=\x7bk*T/q\x7d",
   "",
   "* Diode: anode, cathode",
   ".subckt D A C ID=1m n=1 cj=0 rs=0",
   "R1 A 1 r value=\x7brs\x7d",
   "G1 1 C 1 C \x7bID/(n*U_T)\x7d",
   "C1 1 C \x7bcj\x7d",
   ".ends D",
   "",
   "* JFET: drain, gate, source",
   ".subckt J D G S gm=1m go=10u cgs=0 cgd=0",
   "G1 D S G S \x7bgm\x7d",
   "R1 D S \x7b1/go\x7d",
   "C1 G S \x7bcgs\x7d",
   "C2 G D \x7bcgd\x7d",
   ".ends J",
   "",
   "* MOSFET: drain, gate, source, bulk",
   ".subckt M D G S B gm=1m gb=0 go=10u cgs=0 cgd=0 cdb=0",
   "G1 D S G S \x7bgm\x7d",
   "G2 D S B S \x7bgb\x7d",
   "R1 D S \x7b1/go\x7d",
   "C1 G S \x7bcgs\x7d",
   "C2 G D \x7bcgd\x7d",
   "C3 D B \x7bcdb\x7d",
   ".ends M",
   "",
   "* BJT: collector, base, emitter, substrate",
   ".subckt Q C B E S gm=40m beta=100 go=10u cpi=0 cmu=0 cs=0",
   "R1 B E \x7bbeta/gm\x7d",
   "G1 C E B E \x7bgm\x7d",
   "R2 C E \x7b1/go\x7d",
   "C1 B E \x7bcpi\x7d",
   "C2 B C \x7bcmu\x7d",
   "C3 C S \x7bcs\x7d",
   ".ends Q"]

/-- The text of the standard library. -/
def text : String := String.join (lines.map (· ++ "\n"))

end FlatNet.StandardLibrary
