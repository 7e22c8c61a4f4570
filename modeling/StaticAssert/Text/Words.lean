/-!
# Words of a text

Words are the maximal stretches without white space, where white space is every
character of Unicode's White_Space property. Joining the words with single spaces
puts a text on one line.
-/

set_option autoImplicit false

namespace StaticAssert
namespace Text

def isBlank (c : Char) : Bool :=
  (9 ≤ c.toNat && c.toNat ≤ 13) || c.toNat == 0x20 || c.toNat == 0x85 || c.toNat == 0xa0 ||
  c.toNat == 0x1680 || (0x2000 ≤ c.toNat && c.toNat ≤ 0x200a) || c.toNat == 0x2028 ||
  c.toNat == 0x2029 || c.toNat == 0x202f || c.toNat == 0x205f || c.toNat == 0x3000

def words (cs : List Char) : List (List Char) :=
  match _trimmed : cs.dropWhile isBlank with
  | [] => []
  | c :: rest =>
    (c :: rest.takeWhile (!isBlank ·)) :: words (rest.dropWhile (!isBlank ·))
termination_by cs.length
decreasing_by
  have hl := (List.dropWhile_sublist isBlank (l := cs)).length_le
  have hr := (List.dropWhile_sublist (!isBlank ·) (l := rest)).length_le
  rw [_trimmed, List.length_cons] at hl
  omega

def oneLine (cs : List Char) : List Char := [' '].intercalate (words cs)

end Text
end StaticAssert
