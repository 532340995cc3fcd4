import SidCatalog.Failure
import SidCatalog.Text.Utf8
import SidCatalog.Tune.Word

/-! The header of a tune: 118 bytes with a magic, big-endian words, and three text fields of 32 bytes. -/

namespace SidCatalog.Tune

inductive Magic where
  | psid
  | rsid
deriving DecidableEq, Repr

def Magic.name : Magic → String
  | psid => "PSID"
  | rsid => "RSID"

def Magic.bytes : Magic → Bytes
  | psid => [0x50, 0x53, 0x49, 0x44]
  | rsid => [0x52, 0x53, 0x49, 0x44]

def Magic.ofBytes? (bs : Bytes) : Option Magic :=
  [psid, rsid].find? fun m => m.bytes == bs

structure Header where
  magic : Magic
  version : UInt16
  dataOffset : UInt16
  loadAddress : UInt16
  initAddress : UInt16
  playAddress : UInt16
  songs : UInt16
  startSong : UInt16
  speed : UInt32
  name : String
  author : String
  released : String
deriving DecidableEq, Repr

namespace Header

def size : Nat := 0x76

def textSize : Nat := 32

def textField (data : Bytes) (offset : Nat) : String :=
  Text.latin1 (((data.drop offset).take textSize).takeWhile (· != 0))

def ofData (magic : Magic) (data : Bytes) (h : size ≤ data.length) : Header :=
  have h : 0x76 ≤ data.length := h
  { magic
    version := Word.ofBytes data[0x04] data[0x05]
    dataOffset := Word.ofBytes data[0x06] data[0x07]
    loadAddress := Word.ofBytes data[0x08] data[0x09]
    initAddress := Word.ofBytes data[0x0A] data[0x0B]
    playAddress := Word.ofBytes data[0x0C] data[0x0D]
    songs := Word.ofBytes data[0x0E] data[0x0F]
    startSong := Word.ofBytes data[0x10] data[0x11]
    speed := Word.longOfBytes data[0x12] data[0x13] data[0x14] data[0x15]
    name := textField data 0x16
    author := textField data 0x36
    released := textField data 0x56 }

def parse (data : Bytes) : Except Failure Header :=
  if h : size ≤ data.length then
    match Magic.ofBytes? (data.take 4) with
    | some magic => .ok (ofData magic data h)
    | none => .error .missingMagic
  else .error (.shortHeader data.length)

def isRsid (h : Header) : Bool := h.magic = .rsid

/-- The load address, taken from the start of the tune's data when the header leaves it at zero. -/
def effectiveLoadAddress (h : Header) (image : Bytes) : Option UInt16 :=
  if h.loadAddress ≠ 0 then some h.loadAddress
  else Word.littleEndian? (image.drop h.dataOffset.toNat)

end Header

end SidCatalog.Tune
