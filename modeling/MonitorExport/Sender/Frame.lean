/-!
Frames: a body of bytes after a header and the length of the body. Longer bodies than `Frame.maxLength`
are refused before they are read.
-/

namespace MonitorExport

abbrev Bytes := List UInt8

namespace Frame

def header : Bytes := [0x5A, 0x42, 0x58, 0x44, 0x01]

def lengthSize : Nat := 8

def prefixSize : Nat := header.length + lengthSize

def maxLength : Nat := 16 * 1024 * 1024

/-- A number in `count` bytes, the least significant first. -/
def writeNat : Nat → Nat → Bytes
  | 0, _ => []
  | count + 1, n => UInt8.ofNat n :: writeNat count (n / 256)

/-- The number that bytes write, the least significant first. -/
def readNat : Bytes → Nat
  | [] => 0
  | b :: rest => b.toNat + 256 * readNat rest

def write (body : Bytes) : Bytes :=
  header ++ writeNat lengthSize body.length ++ body

/-- The length of the body that the start of a frame announces. Nothing if it is no start of a frame or
the body would be too long. -/
def announced? (start : Bytes) : Option Nat :=
  if prefixSize ≤ start.length ∧ start.take header.length = header then
    let length := readNat ((start.drop header.length).take lengthSize)
    if length ≤ maxLength then some length else none
  else none

/-- The body of the frame in front of some bytes. -/
def body? (bytes : Bytes) : Option Bytes :=
  (announced? bytes).bind fun length =>
    if prefixSize + length ≤ bytes.length then some ((bytes.drop prefixSize).take length) else none

end Frame

end MonitorExport
