import SidCatalog.Path
import SidCatalog.SongLengths.Entry
import SidCatalog.TextFile

/-! Lookups in the song length list. By digest, the first entry line for the digest counts, with the path
from the comment right above it. By path, the first comment with the path counts, and the line after it
has to be an entry. Nothing after the line that counts is looked at. -/

namespace SidCatalog

structure SongLengths where
  digest : Digest
  path : Option String
  lengths : List Timestamp
deriving DecidableEq, Repr

namespace SongLengths

open TextFile

def song? (s : SongLengths) (n : Nat) : Option Timestamp :=
  if n = 0 then none else s.lengths[n - 1]?

structure Hit where
  line : String
  handle : Handle
  rest : List Reading

def isPassedOver (p : String → Bool) (r : Reading) : Bool :=
  match r.line? with
  | some line => !p line
  | none => false

def firstLine (p : String → Bool) (readings : List Reading) : Attempt (Option Hit) :=
  let passed := readings.takeWhile (isPassedOver p)
  Attempt.after (passed.flatMap fun r => r.attempt.events) <|
    match readings.dropWhile (isPassedOver p) with
    | [] => pure none
    | r :: rest => do
      match ← r.attempt with
      | some line => return some ⟨line, r.handle, rest⟩
      | none => return none

def entryAt (number : Nat) (line : String) : Attempt (Digest × List Timestamp) :=
  match Entry.parse line with
  | .ok entry => pure entry
  | .error f => ⟨.error f, [.malformedEntry number f]⟩

def findByDigest (fs : FileSystem) (sldb : String) (digest : Digest) : Attempt SongLengths := do
  let file ← openHandle fs sldb
  match ← firstLine (Entry.isFor digest) file.readings with
  | none => .fail (.noEntryForDigest digest.toHex)
  | some hit =>
    let (found, lengths) ← entryAt hit.handle.lineNumber hit.line
    let path := hit.handle.previous.bind Entry.commentPath?
    Attempt.after [.entryFound digest.toHex hit.handle.lineNumber] <|
      pure { digest := found, path, lengths }

def listedPath (path : String) : String := Path.absolute (Path.normalize path)

def findByPath (fs : FileSystem) (sldb path : String) : Attempt SongLengths := do
  let file ← openHandle fs sldb
  match ← firstLine (fun line => Entry.commentPath? line = some (listedPath path)) file.readings with
  | none => .fail (.noEntryForPath (listedPath path))
  | some comment =>
    match ← firstLine (fun _ => true) comment.rest with
    | none => .fail (.endsAfterComment (listedPath path))
    | some hit =>
      let (digest, lengths) ← entryAt hit.handle.lineNumber hit.line
      return { digest, path := some (listedPath path), lengths }

end SongLengths

end SidCatalog
