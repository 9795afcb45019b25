import ItemConditions.Text.Utf8

/-!
# Archives

Named contents in one file, in the ZIP format. Contents are stored as they are; each has a check sum
of 32 bits. The file holds the entries one after the other, then a directory of them, then the place
of the directory.

## Main definitions

* `Archive.checksum`: the check sum of bytes
* `Archive.toBytes`: the bytes of an archive
-/

namespace ItemConditions

/-- An archive: names with contents, in order. -/
abbrev Archive := List (Text × Utf8.Bytes)

namespace Archive

/-! ## Check sums -/

/-- The divisor of the check sum, lowest power last. -/
def divisor : Nat := 0xEDB88320

/-- The check sum after one bit. -/
def checkBit (sum : Nat) : Nat := if sum % 2 = 1 then (sum / 2) ^^^ divisor else sum / 2

/-- The check sum after one byte. -/
def checkByte (sum : Nat) (b : UInt8) : Nat := Nat.repeat checkBit 8 (sum ^^^ b.toNat)

/-- **The check sum of bytes**, of 32 bits. -/
def checksum (bytes : Utf8.Bytes) : Nat := bytes.foldl checkByte 0xFFFFFFFF ^^^ 0xFFFFFFFF

/-! ## Records -/

/-- A number in so many bytes, the lowest first. -/
def number (width n : Nat) : Utf8.Bytes :=
  (List.range width).map fun i => UInt8.ofNat (n >>> (8 * i))

/-- Numbers in so many bytes each. -/
def numbers (fields : List (Nat × Nat)) : Utf8.Bytes :=
  fields.flatMap fun (width, n) => number width n

/-- The sign at the start of a record. -/
def sign (kind : Nat) : Nat × Nat := (4, 0x4B50 + 0x10000 * kind)

/-- What the two records of an entry share: the version to read it, names in UTF-8, no compression,
the first date there is, the check sum, the two sizes and the length of the name. -/
def shared (name : Utf8.Bytes) (bytes : Utf8.Bytes) : List (Nat × Nat) :=
  [(2, 20), (2, 0x0800), (2, 0), (2, 0), (2, 0x21), (4, checksum bytes), (4, bytes.length),
    (4, bytes.length), (2, name.length), (2, 0)]

/-- An entry: its record, its name and its contents. -/
def localRecord (name : Text) (bytes : Utf8.Bytes) : Utf8.Bytes :=
  let name := Utf8.encode name
  numbers (sign 0x0403 :: shared name bytes) ++ name ++ bytes

/-- The mode of a file that its owner may write and all may read. -/
def fileMode : Nat := 0x81A4

/-- An entry of the directory, for a record at an offset. -/
def directoryRecord (offset : Nat) (name : Text) (bytes : Utf8.Bytes) : Utf8.Bytes :=
  let name := Utf8.encode name
  numbers (sign 0x0201 :: (2, 0x0314) :: shared name bytes
    ++ [(2, 0), (2, 0), (2, 0), (4, 0x10000 * fileMode), (4, offset)]) ++ name

/-- The directory, for records that start at an offset. -/
def directory : Nat → Archive → Utf8.Bytes
  | _, [] => []
  | offset, (name, bytes) :: es =>
    directoryRecord offset name bytes
      ++ directory (offset + (localRecord name bytes).length) es

/-- The place of a directory of so many entries, of a size, at an offset. -/
def endRecord (count size offset : Nat) : Utf8.Bytes :=
  numbers [sign 0x0605, (2, 0), (2, 0), (2, count), (2, count), (4, size), (4, offset), (2, 0)]

/-- **The bytes of an archive.** -/
def toBytes (a : Archive) : Utf8.Bytes :=
  let records := a.flatMap fun (name, bytes) => localRecord name bytes
  let index := directory 0 a
  records ++ index ++ endRecord a.length index.length records.length

end Archive

end ItemConditions
