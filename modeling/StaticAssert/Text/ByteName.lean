import StaticAssert.Source.Byte
import StaticAssert.Text.Column

/-!
# Naming a byte

Messages name a byte by its code in base 16, preceded by its character if that is
visible ASCII.
-/

set_option autoImplicit false

namespace StaticAssert
namespace Byte

def shown (b : UInt8) : String :=
  if isGraphic b then
    "`" ++ String.singleton (Char.ofNat b.toNat) ++ "` (0x" ++ Hex.ofByte b ++ ")"
  else "0x" ++ Hex.ofByte b

end Byte
end StaticAssert
