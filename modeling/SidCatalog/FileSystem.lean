import SidCatalog.Attempt
import SidCatalog.ByteStream
import SidCatalog.Digest

/-! File systems, as far as the library uses one, and reading whole files: into memory, or through the digest. A
path opens to a stream of bytes or to a fault. The loader reads chunk by chunk into a buffer that starts at one
chunk and doubles, with a log event, whenever it is full; the first chunk that is not full ends the file. What was
read before a fault is dropped. -/

namespace SidCatalog

structure FileSystem where
  openFile : String → Except OsFault ByteStream

namespace FileSystem

def chunkSize : Nat := 65536

def maxFileSize : Nat := 0x7FFFFFFF

structure Loading where
  buffer : Bytes := List.replicate chunkSize 0
  offset : Nat := 0
  stream : ByteStream

namespace Loading

def loaded (l : Loading) : Bytes := l.buffer.take l.offset

def isFull (l : Loading) : Bool := l.offset = l.buffer.length

def makeRoom (l : Loading) : Loading :=
  if l.isFull then { l with buffer := l.buffer ++ List.replicate l.buffer.length 0 } else l

def growth (path : String) (l : Loading) : List Event :=
  if l.isFull then [.loadBufferGrown path (2 * l.buffer.length)] else []

def write (l : Loading) (chunk : Bytes) (stream : ByteStream) : Loading where
  buffer := l.loaded ++ chunk ++ l.buffer.drop (l.offset + chunk.length)
  offset := l.offset + chunk.length
  stream := stream

inductive Turn where
  | ended (outcome : Except Failure Bytes)
  | goesOn (next : Loading)

def turn (path : String) (limit : Nat) (l : Loading) : Turn :=
  match l.stream.fill chunkSize with
  | (.error fault, _) => .ended (.error (.io path fault))
  | (.ok chunk, stream) =>
    let filled := l.makeRoom.write chunk stream
    if limit < filled.offset then .ended (.error (.fileTooLarge path limit))
    else if chunk.length < chunkSize then .ended (.ok filled.loaded)
    else .goesOn filled

theorem turn_eq_goesOn {path : String} {limit : Nat} {l next : Loading} (h : l.turn path limit = .goesOn next) :
    ∃ chunk stream, l.stream.fill chunkSize = (.ok chunk, stream) ∧ chunkSize ≤ chunk.length ∧
      next = l.makeRoom.write chunk stream ∧ next.offset ≤ limit := by
  unfold turn at h
  split at h
  · cases h
  · next chunk stream hfill =>
    dsimp only at h
    split at h
    · cases h
    · next hlimit =>
      split at h
      · cases h
      · next hfull =>
        cases h
        exact ⟨chunk, stream, hfill, Nat.not_lt.1 hfull, rfl, Nat.not_lt.1 hlimit⟩

theorem size_turn_lt {path : String} {limit : Nat} {l next : Loading} (h : l.turn path limit = .goesOn next) :
    next.stream.size < l.stream.size := by
  obtain ⟨chunk, stream, hfill, hfull, rfl, -⟩ := turn_eq_goesOn h
  have hne : chunk ≠ [] := by
    rintro rfl
    exact absurd hfull (by decide)
  have hlt : (l.stream.fill chunkSize).2.size < l.stream.size :=
    ByteStream.size_fill_lt (by decide) (by rw [hfill]) hne
  rwa [hfill] at hlt

def run (path : String) (limit : Nat) (l : Loading) : Attempt Bytes :=
  Attempt.after (l.growth path) <|
    match _h : l.turn path limit with
    | .ended outcome => .ofExcept outcome
    | .goesOn next => run path limit next
termination_by l.stream.size
decreasing_by exact size_turn_lt _h

end Loading

def load (path : String) (limit : Nat) (stream : ByteStream) : Attempt Bytes :=
  Loading.run path limit { stream }

end FileSystem

namespace Md5.Hasher

def feed (h : Hasher) : ByteStream → Except OsFault Hasher
  | .drained => .ok h
  | .broken f => .error f
  | .fault f _ => .error f
  | .interrupted next => h.feed next
  | .piece bs next => if bs = [] then .ok h else (h.update bs).feed next

end Md5.Hasher

namespace Digest

def ofStream (stream : ByteStream) : Except OsFault Digest :=
  (({} : Md5.Hasher).feed stream).map fun h => ofState h.finish

end Digest

namespace FileSystem

def openStream (fs : FileSystem) (path : String) : Except Failure ByteStream :=
  (fs.openFile path).mapError (Failure.io path)

def loadFile (fs : FileSystem) (path : String) : Attempt Bytes := do
  let stream ← Attempt.ofExcept (fs.openStream path)
  load path maxFileSize stream

def digestFile (fs : FileSystem) (path : String) : Attempt Digest :=
  .ofExcept do
    let stream ← fs.openStream path
    (Digest.ofStream stream).mapError (Failure.io path)

end FileSystem

end SidCatalog
