import BlockScript.Drawing.Picture

namespace BlockScript

/-! # Image files

A picture as the bytes of a PNG file: a signature and three chunks, each with its length and a check
sum. Pixels have eight bits for each of red, green, blue and alpha. The pixel data is stored without
compression, in blocks of at most 65535 bytes.
-/

namespace Png

/-- A number as four bytes, the highest first. -/
def bytes32 (n : Nat) : Array UInt8 :=
  #[UInt8.ofNat (n >>> 24), UInt8.ofNat (n >>> 16), UInt8.ofNat (n >>> 8), UInt8.ofNat n]

/-- A number as two bytes, the lowest first. -/
def bytes16 (n : Nat) : Array UInt8 := #[UInt8.ofNat n, UInt8.ofNat (n >>> 8)]

/-- One step of the remainder that the cyclic redundancy check computes. -/
def shift (c : UInt32) : UInt32 :=
  if c &&& 1 = 0 then c >>> 1 else (c >>> 1) ^^^ 0xEDB88320

/-- The cyclic redundancy check of bytes. -/
def cyclicCheck (bytes : Array UInt8) : Nat :=
  let step (c : UInt32) (b : UInt8) : UInt32 :=
    shift (shift (shift (shift (shift (shift (shift (shift (c ^^^ b.toUInt32))))))))
  (bytes.foldl step 0xFFFFFFFF ^^^ 0xFFFFFFFF).toNat

/-- The check sum of uncompressed data: two sums modulo 65521. -/
def sumCheck (bytes : Array UInt8) : Nat :=
  let sums := bytes.foldl (fun (low, high) b =>
    let low := (low + b.toNat) % 65521
    (low, (high + low) % 65521)) (1, 0)
  sums.2 * 65536 + sums.1

/-- A chunk: length, name, data and check sum. -/
def chunk (name : String) (data : Array UInt8) : Array UInt8 :=
  let body := name.toUTF8.data ++ data
  bytes32 data.size ++ body ++ bytes32 (cyclicCheck body)

/-- The largest stored block. -/
def maxBlock : Nat := 65535

/-- Stored blocks that hold the bytes from `start` on; the last one is marked. -/
def storedBlocks (bytes : Array UInt8) : Nat → Nat → Array UInt8
  | 0, _ => #[]
  | blocks + 1, start =>
    let part := bytes.extract start (start + maxBlock)
    #[if blocks = 0 then 1 else 0] ++ bytes16 part.size ++ bytes16 (maxBlock - part.size) ++ part ++
      storedBlocks bytes blocks (start + maxBlock)

/-- The data without compression, in the frame of a compressed stream. -/
def stored (bytes : Array UInt8) : Array UInt8 :=
  #[0x78, 0x01] ++ storedBlocks bytes (bytes.size / maxBlock + 1) 0 ++ bytes32 (sumCheck bytes)

def signature : Array UInt8 := #[0x89, 0x50, 0x4E, 0x47, 0x0D, 0x0A, 0x1A, 0x0A]

end Png

namespace Picture

/-- The rows of the picture, each behind a byte that says it is stored as it is. -/
def scanLines (p : Picture) : Array UInt8 :=
  p.rows.toArray.foldl (fun out row =>
    row.toArray.foldl (fun out c => (((out.push c.r).push c.g).push c.b).push c.a) (out.push 0)) #[]

/-- The bytes of the image file. -/
def fileBytes (p : Picture) : Array UInt8 :=
  let header := Png.bytes32 p.width ++ Png.bytes32 p.height ++ #[8, 6, 0, 0, 0]
  Png.signature ++ Png.chunk "IHDR" header ++ Png.chunk "IDAT" (Png.stored p.scanLines) ++
    Png.chunk "IEND" #[]

end Picture

end BlockScript
