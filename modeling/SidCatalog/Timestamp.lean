import SidCatalog.Failure
import SidCatalog.Text.Decimal

/-! Song lengths and their written form `M:SS[.fff]`. Minutes are any run of digits, seconds stay below
sixty, and a fraction has one to three digits of thousandths. `scan` reads a timestamp at the front of
a text and leaves the rest to its caller; a refusal names the position of the first character that
cannot belong to a timestamp. All characters of a timestamp take one byte, so positions count both. -/

namespace SidCatalog

def Timestamp.limit : Nat := UInt64.size

structure Timestamp where
  millis : Nat
  millis_lt : millis < Timestamp.limit
deriving DecidableEq, Repr

namespace Timestamp

def ofMillis? (n : Nat) : Option Timestamp :=
  if h : n < limit then some ⟨n, h⟩ else none

def fits? (n : Nat) : Option Nat := if n < limit then some n else none

def ofParts? (minutes seconds thousandths : Nat) : Option Timestamp := do
  let whole ← fits? (minutes * 60)
  let whole ← fits? (whole + seconds)
  let whole ← fits? (whole * 1000)
  ofMillis? (whole + thousandths)

def seconds (t : Timestamp) : Nat := t.millis / 1000

def nanos (t : Timestamp) : Nat := t.millis % 1000 * 1000000

def render (t : Timestamp) : String :=
  let whole := Text.decimal (t.millis / 60000) ++ ':' :: Text.padded 2 '0' (t.millis / 1000 % 60)
  String.ofList <|
    if t.millis % 1000 = 0 then whole else whole ++ '.' :: Text.padded 3 '0' (t.millis % 1000)

structure Part where
  value : Nat
  stop : Nat
  rest : List Char
deriving DecidableEq, Repr

/-- Reads on while digits come, with `value` read so far. The digit that makes the number reach `bound`
is refused. -/
def readNumber (bound value pos : Nat) : List Char → Except Nat Part
  | [] => .ok ⟨value, pos, []⟩
  | c :: rest =>
    if c.isDigit then
      let next := 10 * value + (c.toNat - '0'.toNat)
      if next < bound then readNumber bound next (pos + 1) rest else .error pos
    else .ok ⟨value, pos, c :: rest⟩

def readFraction (pos : Nat) : List Char → Except Nat Part
  | '.' :: rest =>
    let digits := (rest.take 3).takeWhile Char.isDigit
    if digits = [] then .error (pos + 1)
    else .ok
      { value := Text.decimalValue (digits.rightpad 3 '0')
        stop := pos + 1 + digits.length
        rest := rest.drop digits.length }
  | text => .ok ⟨0, pos, text⟩

structure Scan where
  time : Timestamp
  consumed : Nat
  rest : List Char
deriving DecidableEq, Repr

def total (minutes seconds : Nat) (fraction : Part) : Except Nat Scan :=
  match ofParts? minutes seconds fraction.value with
  | some time => .ok ⟨time, fraction.stop, fraction.rest⟩
  | none => .error 0

def scan (text : List Char) : Except Nat Scan := do
  let minutes ← readNumber limit 0 0 text
  match minutes.rest with
  | ':' :: rest =>
    let seconds ← readNumber 60 0 (minutes.stop + 1) rest
    let fraction ← readFraction seconds.stop seconds.rest
    total minutes.value seconds.value fraction
  | _ => .error minutes.stop

def parse (text : String) : Except Failure Scan :=
  (scan text.toList).mapError Failure.timestamp

theorem length_of_readNumber {bound value pos : Nat} {text : List Char} {p : Part}
    (h : readNumber bound value pos text = .ok p) :
    pos ≤ p.stop ∧ p.stop + p.rest.length = pos + text.length := by
  induction text generalizing value pos with
  | nil => cases h; exact ⟨Nat.le_refl _, rfl⟩
  | cons c rest ih =>
    simp only [readNumber] at h
    split at h
    · split at h
      · have := ih h
        simp only [List.length_cons]
        omega
      · cases h
    · cases h; exact ⟨Nat.le_refl _, rfl⟩

theorem length_of_readFraction {pos : Nat} {text : List Char} {p : Part}
    (h : readFraction pos text = .ok p) :
    pos ≤ p.stop ∧ p.stop + p.rest.length = pos + text.length := by
  unfold readFraction at h
  split at h
  · next rest =>
    dsimp only at h
    split at h
    · cases h
    · cases h
      have hd : ((rest.take 3).takeWhile Char.isDigit).length ≤ rest.length :=
        Nat.le_trans (List.takeWhile_sublist _).length_le (by rw [List.length_take]; omega)
      simp only [List.length_drop, List.length_cons]
      omega
  · cases h; exact ⟨Nat.le_refl _, rfl⟩

theorem length_rest_lt {text : List Char} {s : Scan} (h : scan text = .ok s) :
    s.rest.length < text.length := by
  unfold scan at h
  cases hm : readNumber limit 0 0 text with
  | error p => simp [hm, bind, Except.bind] at h
  | ok minutes =>
    have h₁ := length_of_readNumber hm
    simp only [hm, bind, Except.bind] at h
    split at h
    · next rest hr =>
      rw [hr, List.length_cons] at h₁
      cases hs : readNumber 60 0 (minutes.stop + 1) rest with
      | error p => simp [hs] at h
      | ok seconds =>
        have h₂ := length_of_readNumber hs
        cases hf : readFraction seconds.stop seconds.rest with
        | error p => simp [hs, hf] at h
        | ok fraction =>
          have h₃ := length_of_readFraction hf
          simp only [hs, hf, total] at h
          split at h
          · cases h
            dsimp only
            omega
          · cases h
    · cases h

end Timestamp

end SidCatalog
