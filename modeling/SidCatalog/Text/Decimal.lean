/-! Decimal numerals as lists of digits. -/

namespace SidCatalog.Text

def decimalValue (digits : List Char) : Nat := Nat.ofDigitChars 10 digits 0

def decimal (n : Nat) : List Char := Nat.toDigits 10 n

def padded (width : Nat) (filler : Char) (n : Nat) : List Char :=
  (decimal n).leftpad width filler

@[simp] theorem decimalValue_decimal (n : Nat) : decimalValue (decimal n) = n :=
  Nat.ofDigitChars_ten_toDigits

end SidCatalog.Text
