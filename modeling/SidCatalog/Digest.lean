import SidCatalog.Failure
import SidCatalog.Hex
import SidCatalog.Md5

/-! MD5 digests of tunes. The song length list is keyed by the digest of the complete file, so lengths can
be found for tunes that lie outside the collection. -/

namespace SidCatalog

structure Digest where
  bytes : Bytes
  length_bytes : bytes.length = 16
deriving DecidableEq, Repr

namespace Digest

def ofState (s : Md5.State) : Digest := ⟨s.bytes, s.length_bytes⟩

def ofBytes (data : Bytes) : Digest := ofState (({} : Md5.Hasher).update data).finish

def ofRaw? (bs : Bytes) : Option Digest :=
  if h : bs.length = 16 then some ⟨bs, h⟩ else none

def toHex (d : Digest) : String := String.ofList (Hex.encode d.bytes)

def ofHex (text : String) : Except Failure Digest :=
  if text.utf8ByteSize ≠ 32 then .error (.wrongDigestLength text.utf8ByteSize)
  else
    match (Hex.decode? text.toList).bind ofRaw? with
    | some d => .ok d
    | none => .error (.notHex text)

end Digest

end SidCatalog
