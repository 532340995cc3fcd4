import SidCatalog.Digest
import SidCatalog.Text.Blank
import SidCatalog.Text.Utf8
import SidCatalog.Timestamp

/-! Lines of the song length list. An entry is `digest=times`, each time with an optional attribute in
parentheses, and the comment `; path` stands on the line above it. Offsets in failures count the bytes
from the start of the line. -/

namespace SidCatalog.SongLengths.Entry

/-- A place in a line: the number of bytes before it, and the characters from there on. -/
structure Cursor where
  offset : Nat
  rest : List Char
deriving DecidableEq, Repr

namespace Cursor

def skipBlanks (c : Cursor) : Cursor where
  offset := c.offset + Text.byteLength (c.rest.takeWhile Text.isBlank)
  rest := c.rest.dropWhile Text.isBlank

def readTime (c : Cursor) : Except Failure (Timestamp × Cursor) :=
  match Timestamp.scan c.rest with
  | .ok s => .ok (s.time, ⟨c.offset + s.consumed, s.rest⟩)
  | .error position => .error (.timestamp (c.offset + position))

def isInAttribute (c : Char) : Bool := c != ')'

def skipAttribute? (c : Cursor) : Option Cursor :=
  if c.rest.head? = some '(' then
    match c.rest.dropWhile isInAttribute with
    | _ :: rest => some ⟨c.offset + Text.byteLength (c.rest.takeWhile isInAttribute) + 1, rest⟩
    | [] => none
  else some c

/-- The next time with the place behind it and its attribute, or nothing when only blanks are left. -/
def next (line : String) (c : Cursor) : Except Failure (Option (Timestamp × Cursor)) :=
  if c.skipBlanks.rest = [] then .ok none
  else
    match c.skipBlanks.readTime with
    | .error f => .error f
    | .ok (time, stop) =>
      match stop.skipAttribute? with
      | some after => .ok (some (time, after))
      | none => .error (.unterminatedAttribute line)

theorem length_skipBlanks_le (c : Cursor) : c.skipBlanks.rest.length ≤ c.rest.length :=
  (List.dropWhile_sublist _).length_le

theorem length_readTime_lt {c after : Cursor} {time : Timestamp} (h : c.readTime = .ok (time, after)) :
    after.rest.length < c.rest.length := by
  unfold readTime at h
  split at h
  · next s hs =>
    cases h
    exact Timestamp.length_rest_lt hs
  · cases h

theorem length_skipAttribute?_le {c after : Cursor} (h : c.skipAttribute? = some after) :
    after.rest.length ≤ c.rest.length := by
  unfold skipAttribute? at h
  split at h
  · split at h
    · next rest hr =>
      cases h
      have := (List.dropWhile_sublist (l := c.rest) isInAttribute).length_le
      rw [hr, List.length_cons] at this
      exact Nat.le_of_succ_le this
    · cases h
  · cases h
    exact Nat.le_refl _

theorem length_next_lt {line : String} {c after : Cursor} {time : Timestamp}
    (h : c.next line = .ok (some (time, after))) : after.rest.length < c.rest.length := by
  unfold next at h
  split at h
  · cases h
  · split at h
    · cases h
    · next stop ht =>
      split at h
      · next ha =>
        cases h
        have h₁ := length_skipBlanks_le c
        have h₂ := length_readTime_lt ht
        have h₃ := length_skipAttribute?_le ha
        omega
      · cases h

def times (line : String) (c : Cursor) : Except Failure (List Timestamp) :=
  match _h : c.next line with
  | .error f => .error f
  | .ok none => .ok []
  | .ok (some (time, after)) => (times line after).map (time :: ·)
termination_by c.rest.length
decreasing_by exact length_next_lt _h

end Cursor

def isBeforeEquals (c : Char) : Bool := c != '='

def parse (line : String) : Except Failure (Digest × List Timestamp) :=
  let front := line.toList.takeWhile isBeforeEquals
  match line.toList.dropWhile isBeforeEquals with
  | [] => .error (.entryWithoutEquals line)
  | _ :: rest => do
    let digest ← Digest.ofHex (String.ofList (Text.trim front))
    let times ← Cursor.times line ⟨Text.byteLength front + 1, rest⟩
    return (digest, times)

def isFor (digest : Digest) (line : String) : Bool :=
  match Text.cut? 32 line.toList with
  | some (front, '=' :: _) => String.ofList (front.map Char.toLower) = digest.toHex
  | _ => false

def commentPath? (line : String) : Option String :=
  match line.toList with
  | ';' :: rest => some (String.ofList (Text.trim rest))
  | _ => none

end SidCatalog.SongLengths.Entry
