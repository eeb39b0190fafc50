import Clacks.Foundation.Memory

/-!
# Shared constants

The names of {lit}`clacks_common.h`.  Command words are given as the memory of the
string literal, terminator included, which is what {lit}`sizeof` measures.
-/

namespace Clacks

open Foundation

/-- {lit}`CL_DOM_DIR`. -/
def clDomDir : List UInt8 := ascii "/var/run/clacks/"

/-- {lit}`CL_ID_DOM_SOCKET`. -/
def clIdDomSocket : List UInt8 := clDomDir ++ ascii "clacksid.sock"

/-- {lit}`CL_TRANSPORT_DOM_SOCKET`. -/
def clTransportDomSocket : List UInt8 := clDomDir ++ ascii "clacksdom_t.sock"

/-- {lit}`CL_ID_GET` with its terminator. -/
def clIdGet : List UInt8 := ascii "GET" ++ [0]

/-- {lit}`CL_ID_TAG` with its terminator. -/
def clIdTag : List UInt8 := ascii "TAG" ++ [0]

end Clacks
