import SidCatalog.Text.Utf8
import SidCatalog.OsFault

/-! Bytes that arrive in pieces. A stream answers every read with the next piece, with a fault, or with the
end, and it may go on after either of the last two. An interrupted read brings nothing and is repeated. `fill`
reads up to a number of bytes and `readLine` up to a line feed; what they do not use is put back. -/

namespace SidCatalog

inductive ByteStream where
  | drained
  | broken (fault : OsFault)
  /-- The empty piece reports the end once. -/
  | piece (bytes : Bytes) (next : ByteStream)
  | fault (fault : OsFault) (next : ByteStream)
  | interrupted (next : ByteStream)
deriving DecidableEq, Repr

structure RawLine where
  bytes : Bytes
  terminated : Bool
deriving DecidableEq, Repr

namespace RawLine

def isEnd (line : RawLine) : Bool := line.bytes.isEmpty && !line.terminated

def prepend (front : Bytes) (line : RawLine) : RawLine :=
  { line with bytes := front ++ line.bytes }

end RawLine

namespace ByteStream

def lineFeed : UInt8 := 0x0A

def ofBytes (bs : Bytes) : ByteStream := piece bs drained

def unread (s : ByteStream) (bs : Bytes) : ByteStream :=
  if bs = [] then s else piece bs s

/-- Reads until `want` bytes are there or the end is reported. A fault drops what was read before it. -/
def fill (want : Nat) : ByteStream → Except OsFault Bytes × ByteStream
  | drained => (.ok [], drained)
  | broken f => (.error f, broken f)
  | fault f next => (.error f, next)
  | interrupted next => next.fill want
  | piece bs next =>
    if bs = [] then (.ok [], next)
    else if bs.length < want then
      let more := next.fill (want - bs.length)
      (more.1.map (bs ++ ·), more.2)
    else (.ok (bs.take want), next.unread (bs.drop want))

/-- Reads up to and including a line feed, or to the end. A fault drops what was read before it. -/
def readLine : ByteStream → Except OsFault RawLine × ByteStream
  | drained => (.ok ⟨[], false⟩, drained)
  | broken f => (.error f, broken f)
  | fault f next => (.error f, next)
  | interrupted next => next.readLine
  | piece bs next =>
    if bs = [] then (.ok ⟨[], false⟩, next)
    else
      match bs.dropWhile (· != lineFeed) with
      | _ :: rest => (.ok ⟨bs.takeWhile (· != lineFeed), true⟩, next.unread rest)
      | [] =>
        let more := next.readLine
        (more.1.map (RawLine.prepend bs), more.2)

def size : ByteStream → Nat
  | drained => 0
  | broken _ => 0
  | piece bs next => bs.length + 1 + next.size
  | fault _ next => 1 + next.size
  | interrupted next => 1 + next.size

theorem size_unread_le (s : ByteStream) (bs : Bytes) : (s.unread bs).size ≤ bs.length + 1 + s.size := by
  unfold unread
  split
  · omega
  · simp [size]

theorem size_fill_le (want : Nat) (s : ByteStream) : (s.fill want).2.size ≤ s.size := by
  induction s generalizing want with
  | drained => simp [fill]
  | broken f => simp [fill]
  | fault f next _ => simp [fill, size]
  | interrupted next ih =>
    have := ih want
    simp only [fill, size]
    omega
  | piece bs next ih =>
    simp only [fill]
    split
    · simp only [size]; omega
    · split
      · have := ih (want - bs.length)
        simp only [size]
        omega
      · have := size_unread_le next (bs.drop want)
        simp only [List.length_drop] at this
        simp only [size]
        omega

theorem size_fill_lt {want : Nat} {s : ByteStream} {chunk : Bytes} (hw : 0 < want)
    (h : (s.fill want).1 = .ok chunk) (hc : chunk ≠ []) : (s.fill want).2.size < s.size := by
  cases s with
  | drained => simp [fill] at h; exact absurd h hc
  | broken f => simp [fill] at h
  | fault f next => simp [fill] at h
  | interrupted next =>
    have := size_fill_le want next
    simp only [fill, size]
    omega
  | piece bs next =>
    simp only [fill] at h ⊢
    split
    · next he =>
      rw [if_pos he] at h
      cases h
      exact absurd rfl hc
    · next he =>
      have hb := List.length_pos_iff.2 he
      split
      · have := size_fill_le (want - bs.length) next
        simp only [size]
        omega
      · have := size_unread_le next (bs.drop want)
        simp only [List.length_drop] at this
        simp only [size]
        omega

theorem length_lt_of_dropWhile {p : UInt8 → Bool} {bs rest : Bytes} {b : UInt8}
    (h : bs.dropWhile p = b :: rest) : rest.length < bs.length := by
  have := (List.dropWhile_sublist (l := bs) p).length_le
  rw [h, List.length_cons] at this
  omega

theorem size_readLine_le (s : ByteStream) : (s.readLine).2.size ≤ s.size := by
  induction s with
  | drained => simp [readLine]
  | broken f => simp [readLine]
  | fault f next _ => simp [readLine, size]
  | interrupted next ih =>
    simp only [readLine, size]
    omega
  | piece bs next ih =>
    simp only [readLine]
    split
    · simp only [size]; omega
    · split
      · next rest hs =>
        have := length_lt_of_dropWhile hs
        have := size_unread_le next rest
        simp only [size]
        omega
      · simp only [size]
        omega

theorem size_readLine_lt {s : ByteStream} {line : RawLine} (h : s.readLine.1 = .ok line)
    (hl : line.isEnd = false) : s.readLine.2.size < s.size := by
  cases s with
  | drained => simp [readLine] at h; subst h; simp [RawLine.isEnd] at hl
  | broken f => simp [readLine] at h
  | fault f next => simp [readLine] at h
  | interrupted next =>
    have := size_readLine_le next
    simp only [readLine, size]
    omega
  | piece bs next =>
    simp only [readLine] at h ⊢
    split
    · simp only [size]; omega
    · split
      · next rest hs =>
        have := length_lt_of_dropWhile hs
        have := size_unread_le next rest
        simp only [size]
        omega
      · have := size_readLine_le next
        simp only [size]
        omega

end ByteStream

end SidCatalog
