import SidCatalog.Text.Utf8

/-! Hexadecimal text: two digits a byte, the high half first. Writing uses lower case, reading takes
either. -/

namespace SidCatalog.Hex

def digitValue? (c : Char) : Option Nat :=
  if '0' ≤ c ∧ c ≤ '9' then some (c.toNat - '0'.toNat)
  else if 'a' ≤ c ∧ c ≤ 'f' then some (c.toNat - 'a'.toNat + 10)
  else if 'A' ≤ c ∧ c ≤ 'F' then some (c.toNat - 'A'.toNat + 10)
  else none

def encodeByte (b : UInt8) : List Char :=
  [Nat.digitChar (b.toNat / 16), Nat.digitChar (b.toNat % 16)]

def encode (bs : Bytes) : List Char := bs.flatMap encodeByte

def decode? : List Char → Option Bytes
  | [] => some []
  | [_] => none
  | high :: low :: rest =>
    match digitValue? high, digitValue? low, decode? rest with
    | some h, some l, some bs => some (UInt8.ofNat (16 * h + l) :: bs)
    | _, _, _ => none

theorem digitValue?_digitChar {n : Nat} (h : n < 16) : digitValue? (Nat.digitChar n) = some n := by
  have key : ∀ n < 16, digitValue? (Nat.digitChar n) = some n := by decide
  exact key n h

theorem decode?_encode (bs : Bytes) : decode? (encode bs) = some bs := by
  induction bs with
  | nil => rfl
  | cons b bs ih =>
    have hb := b.toNat_lt
    have high := digitValue?_digitChar (show b.toNat / 16 < 16 by omega)
    have low := digitValue?_digitChar (show b.toNat % 16 < 16 by omega)
    have hv : UInt8.ofNat (16 * (b.toNat / 16) + b.toNat % 16) = b := by
      rw [show 16 * (b.toNat / 16) + b.toNat % 16 = b.toNat by omega, UInt8.ofNat_toNat]
    show decode? (Nat.digitChar (b.toNat / 16) :: Nat.digitChar (b.toNat % 16) :: encode bs) = _
    simp only [decode?, high, low, ih, hv]

end SidCatalog.Hex
