/-!
# Digests

The digest of a file is the XXH3 hash of its bytes in 64 bits, without a seed. Up to 16 bytes are
mixed as one or two words. Up to 240 bytes are mixed as pairs of words, whose products are summed
up. More bytes are taken in stripes of eight words, each of which goes to a lane of its own, and the
lanes are merged at the end.
-/

namespace MarkedEdits

namespace Digest

/-- The fixed bytes that the bytes of a file are mixed with. -/
def secret : ByteArray :=
  ⟨#[0xb8, 0xfe, 0x6c, 0x39, 0x23, 0xa4, 0x4b, 0xbe, 0x7c, 0x01, 0x81, 0x2c, 0xf7, 0x21, 0xad, 0x1c,
    0xde, 0xd4, 0x6d, 0xe9, 0x83, 0x90, 0x97, 0xdb, 0x72, 0x40, 0xa4, 0xa4, 0xb7, 0xb3, 0x67, 0x1f,
    0xcb, 0x79, 0xe6, 0x4e, 0xcc, 0xc0, 0xe5, 0x78, 0x82, 0x5a, 0xd0, 0x7d, 0xcc, 0xff, 0x72, 0x21,
    0xb8, 0x08, 0x46, 0x74, 0xf7, 0x43, 0x24, 0x8e, 0xe0, 0x35, 0x90, 0xe6, 0x81, 0x3a, 0x26, 0x4c,
    0x3c, 0x28, 0x52, 0xbb, 0x91, 0xc3, 0x00, 0xcb, 0x88, 0xd0, 0x65, 0x8b, 0x1b, 0x53, 0x2e, 0xa3,
    0x71, 0x64, 0x48, 0x97, 0xa2, 0x0d, 0xf9, 0x4e, 0x38, 0x19, 0xef, 0x46, 0xa9, 0xde, 0xac, 0xd8,
    0xa8, 0xfa, 0x76, 0x3f, 0xe3, 0x9c, 0x34, 0x3f, 0xf9, 0xdc, 0xbb, 0xc7, 0xc7, 0x0b, 0x4f, 0x1d,
    0x8a, 0x51, 0xe0, 0x4b, 0xcd, 0xb4, 0x59, 0x31, 0xc8, 0x9f, 0x7e, 0xc9, 0xd9, 0x78, 0x73, 0x64,
    0xea, 0xc5, 0xac, 0x83, 0x34, 0xd3, 0xeb, 0xc3, 0xc5, 0x81, 0xa0, 0xff, 0xfa, 0x13, 0x63, 0xeb,
    0x17, 0x0d, 0xdd, 0x51, 0xb7, 0xf0, 0xda, 0x49, 0xd3, 0x16, 0x55, 0x26, 0x29, 0xd4, 0x68, 0x9e,
    0x2b, 0x16, 0xbe, 0x58, 0x7d, 0x47, 0xa1, 0xfc, 0x8f, 0xf8, 0xb8, 0xd1, 0x7a, 0xd0, 0x31, 0xce,
    0x45, 0xcb, 0x3a, 0x8f, 0x95, 0x16, 0x04, 0x28, 0xaf, 0xd7, 0xfb, 0xca, 0xbb, 0x4b, 0x40, 0x7e]⟩

/-- A factor that spreads the bits of a word. -/
def primeA : UInt64 := 0x9e3779b185ebca87

/-- A factor that spreads the bits of a word. -/
def primeB : UInt64 := 0xc2b2ae3d27d4eb4f

/-- A factor that spreads the bits of a word. -/
def primeC : UInt64 := 0x165667b19e3779f9

/-- A factor that spreads the bits of a word. -/
def primeD : UInt64 := 0x85ebca77c2b2ae63

/-- A factor that spreads the bits of a word. -/
def primeE : UInt64 := 0x27d4eb2f165667c5

/-- A factor of 32 bits, by which the lanes are multiplied between blocks. -/
def halfPrimeA : UInt64 := 0x9e3779b1

/-- What the lanes hold before the first stripe. -/
def startLanes : List UInt64 :=
  [0xc2b2ae3d, primeA, primeB, primeC, primeD, 0x85ebca77, primeE, halfPrimeA]

/-- The byte at an offset, or zero past the end. -/
def byteAt (bytes : ByteArray) (offset : Nat) : UInt64 :=
  if h : offset < bytes.size then bytes[offset].toUInt64 else 0

/-- The number that some bytes from an offset on denote, of which the first counts least. -/
def number (count : Nat) (bytes : ByteArray) (offset : Nat) : UInt64 :=
  (List.range count).foldr (fun i sum ↦ sum <<< 8 ||| byteAt bytes (offset + i)) 0

/-- The number of eight bytes. -/
def word : ByteArray → Nat → UInt64 := number 8

/-- The number of four bytes. -/
def halfWord : ByteArray → Nat → UInt64 := number 4

/-- The word with its bytes in the opposite order. -/
def swapBytes (x : UInt64) : UInt64 :=
  (List.range 8).foldl (fun sum i ↦ sum <<< 8 ||| (x >>> (8 * i).toUInt64 &&& 0xff)) 0

/-- The word with its bits moved up, those that leave at the top coming in at the bottom. -/
def rotate (x : UInt64) (count : UInt64) : UInt64 :=
  x <<< count ||| x >>> (64 - count)

/-- The two words of the product of two words, joined by exclusive or. -/
def foldProduct (a b : UInt64) : UInt64 :=
  let product := a.toNat * b.toNat
  UInt64.ofNat product ^^^ UInt64.ofNat (product / UInt64.size)

/-- Lets every bit of the word act on every bit of the result, for up to three bytes. -/
def spreadShort (x : UInt64) : UInt64 :=
  let x := (x ^^^ x >>> 33) * primeB
  let x := (x ^^^ x >>> 29) * primeC
  x ^^^ x >>> 32

/-- Lets every bit of the word act on every bit of the result. -/
def spread (x : UInt64) : UInt64 :=
  let x := (x ^^^ x >>> 37) * 0x165667919e3779f9
  x ^^^ x >>> 32

/-- The hash of one to three bytes, or of none. -/
def ofFew (bytes : ByteArray) : UInt64 :=
  let size := bytes.size
  if size = 0 then spreadShort (word secret 56 ^^^ word secret 64)
  else
    let joined :=
      byteAt bytes 0 <<< 16 ||| byteAt bytes (size / 2) <<< 24 ||| byteAt bytes (size - 1) |||
        size.toUInt64 <<< 8
    spreadShort (joined ^^^ (halfWord secret 0 ^^^ halfWord secret 4))

/-- The hash of four to eight bytes. -/
def ofWord (bytes : ByteArray) : UInt64 :=
  let size := bytes.size
  let joined := halfWord bytes (size - 4) + halfWord bytes 0 <<< 32
  let x := joined ^^^ (word secret 8 ^^^ word secret 16)
  let x := (x ^^^ rotate x 49 ^^^ rotate x 24) * 0x9fb21c651e98df25
  let x := (x ^^^ (x >>> 35 + size.toUInt64)) * 0x9fb21c651e98df25
  x ^^^ x >>> 28

/-- The hash of nine to 16 bytes. -/
def ofTwoWords (bytes : ByteArray) : UInt64 :=
  let size := bytes.size
  let low := word bytes 0 ^^^ (word secret 24 ^^^ word secret 32)
  let high := word bytes (size - 8) ^^^ (word secret 40 ^^^ word secret 48)
  spread (size.toUInt64 + swapBytes low + high + foldProduct low high)

/-- The product of two words of a file, each mixed with a word of the secret. -/
def mixPair (bytes : ByteArray) (offset key : Nat) : UInt64 :=
  foldProduct (word bytes offset ^^^ word secret key)
    (word bytes (offset + 8) ^^^ word secret (key + 8))

/-- The sum of the numbers for all indices below a bound. -/
def sumBelow (count : Nat) (term : Nat → UInt64) : UInt64 :=
  (List.range count).foldl (fun sum i ↦ sum + term i) 0

/-- The hash of 17 to 128 bytes, taken in pairs of words from both ends. -/
def ofEnds (bytes : ByteArray) : UInt64 :=
  let size := bytes.size
  spread (size.toUInt64 * primeA + sumBelow ((size - 1) / 32 + 1) fun i ↦
    mixPair bytes (16 * i) (32 * i) + mixPair bytes (size - 16 * (i + 1)) (32 * i + 16))

/-- The hash of 129 to 240 bytes, taken in pairs of words one after the other. -/
def ofPairs (bytes : ByteArray) : UInt64 :=
  let size := bytes.size
  let front := sumBelow 8 fun i ↦ mixPair bytes (16 * i) (16 * i)
  let back := sumBelow (size / 16 - 8) fun i ↦ mixPair bytes (16 * (i + 8)) (16 * i + 3)
  spread (spread (size.toUInt64 * primeA + front) + back + mixPair bytes (size - 16) 119)

/-- The lanes after one more stripe. Every word is added to the lane beside its own. -/
def accumulate (bytes : ByteArray) (offset key : Nat) (lanes : List UInt64) : List UInt64 :=
  lanes.zipIdx.map fun (lane, i) ↦
    let mixed := word bytes (offset + 8 * i) ^^^ word secret (key + 8 * i)
    let beside := word bytes (offset + 8 * (i ^^^ 1))
    lane + beside + mixed.toUInt32.toUInt64 * (mixed >>> 32)

/-- The lanes at the end of a block. -/
def scramble (lanes : List UInt64) : List UInt64 :=
  lanes.zipIdx.map fun (lane, i) ↦
    (lane ^^^ lane >>> 47 ^^^ word secret (128 + 8 * i)) * halfPrimeA

/-- The sum of the products of neighbouring lanes. -/
def mergeLanes (key : Nat) : List UInt64 → UInt64
  | a :: b :: rest =>
      foldProduct (a ^^^ word secret key) (b ^^^ word secret (key + 8)) +
        mergeLanes (key + 16) rest
  | _ => 0

/-- The hash of more than 240 bytes. A block has 16 stripes of 64 bytes, and the last 64 bytes are
taken once more on their own. -/
def ofStripes (bytes : ByteArray) : UInt64 :=
  let size := bytes.size
  let lanes := (List.range ((size - 1) / 64)).foldl (fun lanes i ↦
    let lanes := accumulate bytes (64 * i) (8 * (i % 16)) lanes
    if i % 16 = 15 then scramble lanes else lanes) startLanes
  let lanes := accumulate bytes (size - 64) 121 lanes
  spread (size.toUInt64 * primeA + mergeLanes 11 lanes)

end Digest

/-- The digest of the bytes of a file. -/
def digest (bytes : ByteArray) : UInt64 :=
  if bytes.size ≤ 3 then Digest.ofFew bytes
  else if bytes.size ≤ 8 then Digest.ofWord bytes
  else if bytes.size ≤ 16 then Digest.ofTwoWords bytes
  else if bytes.size ≤ 128 then Digest.ofEnds bytes
  else if bytes.size ≤ 240 then Digest.ofPairs bytes
  else Digest.ofStripes bytes

end MarkedEdits
