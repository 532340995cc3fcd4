import SidCatalog.Text.Utf8

/-! Machine words at the front of a byte string. Reading one fails when too few bytes are there. -/

namespace SidCatalog.Tune.Word

def ofBytes (high low : UInt8) : UInt16 := UInt16.ofNat (256 * high.toNat + low.toNat)

def longOfBytes (b₃ b₂ b₁ b₀ : UInt8) : UInt32 :=
  UInt32.ofNat (256 * (256 * (256 * b₃.toNat + b₂.toNat) + b₁.toNat) + b₀.toNat)

def bigEndian? : Bytes → Option UInt16
  | high :: low :: _ => some (ofBytes high low)
  | _ => none

def littleEndian? : Bytes → Option UInt16
  | low :: high :: _ => some (ofBytes high low)
  | _ => none

def longBigEndian? : Bytes → Option UInt32
  | b₃ :: b₂ :: b₁ :: b₀ :: _ => some (longOfBytes b₃ b₂ b₁ b₀)
  | _ => none

end SidCatalog.Tune.Word
