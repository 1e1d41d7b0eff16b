import FileSelect.Disk.Basic

/-!
# Archives as bytes

A zip archive holds a record for every member with its content behind it, then the same
records once more with the places of the first ones, and at the end a record of where
these begin. Numbers are written from their lowest byte to their highest. Times of
members are not kept.
-/

namespace FileSelect

namespace Zip

structure File where
  name : Text
  compression : Compression
  data : ByteArray

/-- The `width` lowest bytes of a number. -/
def number (width n : Nat) : ByteArray :=
  ⟨((List.range width).map fun i => (n >>> (8 * i)).toUInt8).toArray⟩

def numbers (fields : List (Nat × Nat)) : ByteArray :=
  fields.foldl (fun out (width, n) => out ++ number width n) .empty

/-! ## Checksums -/

/-- Divides the polynomial of the bits by one more place. -/
def divide (c : UInt32) : UInt32 :=
  if c &&& 1 = 1 then (c >>> 1) ^^^ 0xEDB88320 else c >>> 1

def checksumByte (c : UInt32) (byte : UInt8) : UInt32 :=
  Nat.repeat divide 8 (c ^^^ byte.toUInt32)

def checksum (data : ByteArray) : UInt32 :=
  data.data.foldl checksumByte 0xFFFFFFFF ^^^ 0xFFFFFFFF

/-! ## Contents -/

def largestBlock : Nat := 65535

/-- A deflated content as a row of blocks that hold their bytes as they are, which every
reader of deflated data accepts. The last block is marked and may be empty. -/
def deflate (data : ByteArray) : ByteArray :=
  let last := data.size / largestBlock
  (List.range (last + 1)).foldl (fun out i =>
    let block := data.extract (i * largestBlock) ((i + 1) * largestBlock)
    out ++ numbers [(1, if i = last then 1 else 0), (2, block.size),
      (2, largestBlock - block.size)] ++ block) .empty

namespace File

def nameBytes (f : File) : ByteArray := (String.ofList f.name).toUTF8

def packed (f : File) : ByteArray :=
  match f.compression with
  | .deflated => deflate f.data
  | .stored => f.data

/-- The number of the method. -/
def method (f : File) : Nat :=
  match f.compression with
  | .deflated => 8
  | .stored => 0

/-- Ten times the version of the format that the method came with. -/
def neededVersion (f : File) : Nat :=
  match f.compression with
  | .deflated => 20
  | .stored => 10

/-- The part that both records of a file have: what is needed to read it, whether its name
is beyond ASCII, its method, its time, its checksum and its sizes. -/
def fields (f : File) (sum packedSize size : Nat) : List (Nat × Nat) :=
  [(2, f.neededVersion), (2, if f.name.all fun c => c.toNat < 128 then 0 else 2048),
    (2, f.method), (2, 0), (2, 33), (4, sum), (4, packedSize), (4, size),
    (2, f.nameBytes.size), (2, 0)]

def finishedFields (f : File) : List (Nat × Nat) :=
  f.fields (checksum f.data).toNat f.packed.size f.data.size

/-- The record in front of the content. -/
def record (f : File) : ByteArray :=
  numbers ((4, 0x04034b50) :: f.finishedFields) ++ f.nameBytes ++ f.packed

/-- What stands of the record before any content is known. -/
def opening (f : File) : ByteArray :=
  numbers ((4, 0x04034b50) :: f.fields 0 0 0) ++ f.nameBytes

/-- The record at the end, for a file whose own record is at `offset`. It also says that
this is a regular file which all may read and its owner may write. -/
def entry (f : File) (offset : Nat) : ByteArray :=
  numbers ((4, 0x02014b50) :: (2, 0x032d) :: f.finishedFields ++
    [(2, 0), (2, 0), (2, 0), (4, 0x81a40000), (4, offset)]) ++ f.nameBytes

end File

/-- Writes the records and notes the entries that belong to them. -/
def writeFiles : (records entries : ByteArray) → List File → ByteArray × ByteArray
  | records, entries, [] => (records, entries)
  | records, entries, f :: rest =>
      writeFiles (records ++ f.record) (entries ++ f.entry records.size) rest

/-- An archive that has been written up to the content of `next`. -/
def unfinished (files : List File) (next : File) : ByteArray :=
  (writeFiles .empty .empty files).1 ++ next.opening

def encode (files : List File) : ByteArray :=
  let (records, entries) := writeFiles .empty .empty files
  records ++ entries ++ numbers
    [(4, 0x06054b50), (2, 0), (2, 0), (2, files.length), (2, files.length), (4, entries.size),
      (4, records.size), (2, 0)]

end Zip

namespace Content

mutual

/-- What a reader of the bytes of a file finds. -/
def toBytes : Content → ByteArray
  | .bytes data => data
  | .archive members => Zip.encode (toFiles members)

def toFiles : List (Name × Compression × Content) → List Zip.File
  | [] => []
  | (name, compression, content) :: rest =>
      ⟨name, compression, content.toBytes⟩ :: toFiles rest

end

end Content

end FileSelect
