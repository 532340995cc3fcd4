import SidCatalog.FileSystem
import SidCatalog.Text.Utf8

/-! Open text lists. A line feed ends a line, and a carriage return right before it goes too; the last line
needs no line feed, keeps a carriage return, and does not count in the line number. The line before the
current one stays at hand, and the line buffers double, with a log event, when a line and two more bytes
do not fit. -/

namespace SidCatalog

namespace TextFile

def initialCapacity : Nat := 1024

def carriageReturn : UInt8 := 0x0D

def doublings (need capacity : Nat) : List Nat :=
  if 0 < capacity ∧ capacity < need then 2 * capacity :: doublings need (2 * capacity) else []
termination_by need - capacity

/-- The texts of two lines, which change places on every read. A text counts as a line only while it is marked. -/
structure LineBuffers where
  current : String := ""
  previous : String := ""
  hasCurrent : Bool := false
  hasPrevious : Bool := false
deriving DecidableEq, Repr

namespace LineBuffers

def swap (b : LineBuffers) : LineBuffers where
  current := b.previous
  previous := b.current
  hasCurrent := false
  hasPrevious := b.hasCurrent

def fill (b : LineBuffers) (line : String) : LineBuffers :=
  { b with current := line, hasCurrent := true }

end LineBuffers

structure Handle where
  path : String
  stream : ByteStream
  lineNumber : Nat := 0
  capacity : Nat := initialCapacity
  buffers : LineBuffers := {}
deriving DecidableEq, Repr

def content (line : RawLine) : Bytes :=
  if line.terminated ∧ line.bytes.getLast? = some carriageReturn then line.bytes.dropLast
  else line.bytes

namespace Handle

def current (h : Handle) : Option String :=
  if h.buffers.hasCurrent then some h.buffers.current else none

def previous (h : Handle) : Option String :=
  if h.buffers.hasPrevious then some h.buffers.previous else none

def advance (h : Handle) (stream : ByteStream) : Handle :=
  { h with stream, buffers := h.buffers.swap }

def growth (h : Handle) (line : RawLine) : List Nat :=
  doublings (line.bytes.length + 2) h.capacity

def accept (h : Handle) (line : RawLine) : Handle :=
  { h with
    lineNumber := if line.terminated then h.lineNumber + 1 else h.lineNumber
    capacity := (h.growth line).getLastD h.capacity
    buffers := h.buffers.fill (Text.decode (content line)) }

def read (h : Handle) : Attempt (Option String) × Handle :=
  let raw := h.stream.readLine
  let after := h.advance raw.2
  match raw.1 with
  | .error fault => (.fail (.io h.path fault), after)
  | .ok line =>
    if line.isEnd then (pure none, after)
    else
      let events := (h.growth line).map fun c => Event.lineBuffersGrown c (h.lineNumber + 1)
      (⟨.ok (some (Text.decode (content line))), events⟩, after.accept line)

theorem size_read_lt {h : Handle} {line : String} (hr : h.read.1.outcome = .ok (some line)) :
    h.read.2.stream.size < h.stream.size := by
  unfold read at hr ⊢
  dsimp only at hr ⊢
  split at hr
  · cases hr
  · next raw he =>
    split at hr
    · cases hr
    · next hend =>
      rw [if_neg hend]
      exact ByteStream.size_readLine_lt he (by simpa using hend)

end Handle

def openHandle (fs : FileSystem) (path : String) : Attempt Handle :=
  (Attempt.ofExcept ((fs.openStream path).map fun stream => { path, stream })).after [.opening path]

end TextFile

end SidCatalog
