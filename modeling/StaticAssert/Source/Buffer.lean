import StaticAssert.Source.Byte

/-!
# Padded source bytes

A buffer holds the bytes of a source followed by zeros up to the next multiple of
64, at least one of them, so that the byte at the end of the source can be read
and is zero. A zero byte inside the source is ordinary content; position alone
tells it from the padding. Reads are checked: outside the padding there is no byte.
Places are counted in 32 bits, so a buffer holds no more of a text than can be
counted so; a longer text is cut, wherever in a character that may be.
-/

set_option autoImplicit false

namespace StaticAssert
namespace Buffer

def maxSize : Nat := 4294967295

def blockSize : Nat := 64

end Buffer

structure Buffer where
  bytes : List UInt8
  fits : bytes.length ≤ Buffer.maxSize
  deriving DecidableEq

namespace Buffer

def ofBytes (bytes : List UInt8) : Buffer := ⟨bytes.take maxSize, List.length_take_le _ _⟩

def ofText (text : String) : Buffer := ofBytes (Byte.ofText text)

def size (b : Buffer) : Nat := b.bytes.length

def isEmpty (b : Buffer) : Bool := b.bytes.isEmpty

-- One byte past the source, rounded up to whole blocks.
def paddedSize (b : Buffer) : Nat := (b.size + blockSize) / blockSize * blockSize

def padding (b : Buffer) : List UInt8 := List.replicate (b.paddedSize - b.size) 0

def padded (b : Buffer) : List UInt8 := b.bytes ++ b.padding

def read? (b : Buffer) (offset : Nat) : Option UInt8 :=
  if offset < b.paddedSize then some (b.bytes[offset]?.getD 0) else none

theorem size_le_maxSize (b : Buffer) : b.size ≤ maxSize := b.fits

theorem bytes_ofBytes_of_le {bytes : List UInt8} (h : bytes.length ≤ maxSize) :
    (ofBytes bytes).bytes = bytes :=
  List.take_of_length_le h

theorem isPrefix_ofBytes (bytes : List UInt8) : (ofBytes bytes).bytes <+: bytes :=
  List.take_prefix _ _

theorem isPrefix_ofText (text : String) : (ofText text).bytes <+: Byte.ofText text :=
  isPrefix_ofBytes _

theorem size_ofText (text : String) : (ofText text).size = min maxSize (Byte.ofText text).length :=
  List.length_take

/-- What a buffer holds of a text is the text up to there. -/
theorem take_ofText {text : String} {n : Nat} (h : n ≤ (ofText text).size) :
    (ofText text).bytes.take n = (Byte.ofText text).take n := by
  have hn : n ≤ maxSize := Nat.le_trans h (ofText text).size_le_maxSize
  show ((Byte.ofText text).take maxSize).take n = (Byte.ofText text).take n
  rw [List.take_take, Nat.min_eq_left hn]

theorem size_lt_paddedSize (b : Buffer) : b.size < b.paddedSize := by
  unfold paddedSize blockSize
  omega

@[simp] theorem length_padded (b : Buffer) : b.padded.length = b.paddedSize := by
  have h := b.size_lt_paddedSize
  simp only [padded, padding, List.length_append, List.length_replicate]
  unfold size at *
  omega

/-- Checked reading is indexing into the padded bytes. -/
theorem read?_eq_getElem? (b : Buffer) (offset : Nat) :
    b.read? offset = b.padded[offset]? := by
  have hp := b.size_lt_paddedSize
  unfold read? padded padding
  by_cases hs : offset < b.bytes.length
  · have : offset < b.paddedSize := Nat.lt_trans hs hp
    simp [this, List.getElem?_append_left hs, hs]
  · rw [List.getElem?_append_right (by omega)]
    by_cases h : offset < b.paddedSize
    · have hr : offset - b.bytes.length < b.paddedSize - b.size := by unfold size at *; omega
      simp [h, hr, List.getElem?_eq_none (by omega : b.bytes.length ≤ offset)]
    · have hr : ¬ offset - b.bytes.length < b.paddedSize - b.size := by unfold size at *; omega
      simp [h, hr]

end Buffer
end StaticAssert
