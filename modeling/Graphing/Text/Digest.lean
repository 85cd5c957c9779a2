/-!
# Digests of text

A 64-bit digest of the UTF-8 bytes of a text. Blocks of sixteen bytes are mixed
into two running words; the bytes at the end, which may overlap the last block, and
the length close the digest. Mixing is by the folded product: the two halves of the
full product of two words, joined by exclusive or.
-/

namespace Graphing.Text

-- powers are those of core, whatever other instances there are
attribute [local instance (high)] instPowNat

/-- The lower and the upper half of a product of words, joined by exclusive or. -/
def foldedProduct (x y : UInt64) : UInt64 :=
  let product := x.toNat * y.toNat
  UInt64.ofNat (product % 2 ^ (64 : Nat)) ^^^ UInt64.ofNat (product / 2 ^ (64 : Nat))

/-- The word that at most eight bytes spell, the first being the lowest. -/
def littleEndian (bytes : List UInt8) : UInt64 :=
  UInt64.ofNat (bytes.foldr (fun byte n => byte.toNat + 256 * n) 0)

/-- Mixes all blocks of sixteen bytes that are followed by a further byte into two
running words. The constant keeps a block of zeros from wiping out what came before. -/
def mixBlocks (s t : UInt64) (bytes : List UInt8) : UInt64 × UInt64 :=
  if bytes.length ≤ 16 then (s, t)
  else
    let x := littleEndian (bytes.take 8)
    let y := littleEndian ((bytes.drop 8).take 8)
    mixBlocks t (foldedProduct (s ^^^ x) (0xa4093822299f31d0 ^^^ y)) (bytes.drop 16)
  termination_by bytes.length
  decreasing_by
    simp only [List.length_drop]
    omega

/-- Two words that hold all of at most sixteen bytes: the first and the last eight,
the first and the last four, or of up to three bytes the first, and the middle and
last one. -/
def endWords (bytes : List UInt8) : UInt64 × UInt64 :=
  let n := bytes.length
  if 8 ≤ n then (littleEndian (bytes.take 8), littleEndian (bytes.drop (n - 8)))
  else if 4 ≤ n then (littleEndian (bytes.take 4), littleEndian (bytes.drop (n - 4)))
  else
    (littleEndian (bytes.take 1),
      littleEndian ((bytes.drop (n / 2)).take 1 ++ bytes.drop (n - 1)))

/-- The digest of a row of bytes. -/
def digestBytes (bytes : List UInt8) : UInt64 :=
  let (s, t) := mixBlocks 0x243f6a8885a308d3 0x13198a2e03707344 bytes
  let (front, back) := endWords (bytes.drop (bytes.length - 16))
  foldedProduct (s ^^^ front) (t ^^^ back) ^^^ UInt64.ofNat bytes.length

/-- The digest of a text. -/
def digest (text : String) : UInt64 :=
  digestBytes (text.toList.flatMap String.utf8EncodeChar)

end Graphing.Text
