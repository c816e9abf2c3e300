/-!
# Instances of the core library

Powers of natural numbers and the comparison of bytes are the ones of the core library wherever this
library is read, also beside other instances for them.
-/

namespace Scriptlet

/-- Powers of natural numbers. -/
instance (priority := high) natPow : Pow Nat Nat := instPowNat

/-- Arrays of bytes are compared byte by byte. -/
instance (priority := high) byteArrayDecidableEq : DecidableEq ByteArray :=
  ByteArray.instDecidableEq

end Scriptlet
