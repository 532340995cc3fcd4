import SidCatalog.LastError
import SidCatalog.RootPaths
import SidCatalog.SongLengths.Lookup

/-! A session holds the root of the collection and the last failure. Every operation that can fail passes
its outcome on and keeps a failure in the record; a success leaves the record as it is. -/

namespace SidCatalog

structure Session where
  paths : Option RootPaths := none
  lastError : LastError := {}
deriving DecidableEq, Repr

namespace Session

def note {α : Type} (s : Session) (outcome : Except Failure α) : Session :=
  match outcome with
  | .ok _ => s
  | .error f => { s with lastError := s.lastError.record f }

def record {α : Type} (s : Session) (a : Attempt α) : Attempt α × Session := (a, s.note a.outcome)

def setRoot (s : Session) (root : String) : Session :=
  { s with paths := some (RootPaths.ofRoot root) }

def clearRoot (s : Session) : Session := { s with paths := none }

def clearRootEvents (s : Session) : List Event :=
  if s.paths.isSome then [.rootCleared] else []

def clearError (s : Session) : Session := { s with lastError := s.lastError.clear }

def root? (s : Session) : Option String := s.paths.map RootPaths.root

def stripRoot (s : Session) (path : String) : String :=
  match s.paths with
  | some paths => paths.strip path
  | none => path

def isUnderRoot (s : Session) (path : String) : Bool :=
  match s.paths with
  | some paths => paths.isUnder path
  | none => false

def openText (s : Session) (fs : FileSystem) (path : String) : Attempt TextFile × Session :=
  s.record (TextFile.openFile fs path)

def readLine (s : Session) (file : TextFile) : Attempt (Option String) × Session × TextFile :=
  (file.read.1, s.note file.read.1.outcome, file.read.2)

def loadFile (s : Session) (fs : FileSystem) (path : String) : Attempt Bytes × Session :=
  s.record (fs.loadFile path)

def digestFile (s : Session) (fs : FileSystem) (path : String) : Attempt Digest × Session :=
  s.record (fs.digestFile path)

def parseTimestamp (s : Session) (text : String) : Attempt Timestamp.Scan × Session :=
  s.record (.ofExcept (Timestamp.parse text))

def lengthsByDigest (fs : FileSystem) (sldb path : String) : Attempt SongLengths := do
  let digest ← fs.digestFile path
  SongLengths.findByDigest fs sldb digest

/-- A file under the root is looked up by its path first. Only a path that is not listed leads on to the
digest; every other failure stands. -/
def lengthsUnder (fs : FileSystem) (paths : RootPaths) (path : String) : Attempt SongLengths :=
  if paths.isUnder path then
    let relative := Path.normalize (paths.strip path)
    let listed := SongLengths.findByPath fs paths.sldb relative
    match listed.outcome with
    | .error (.notFound _) =>
      (lengthsByDigest fs paths.sldb path).after (listed.events ++ [.notListed relative])
    | _ => listed
  else lengthsByDigest fs paths.sldb path

def lookupLengths (s : Session) (fs : FileSystem) (path : String) : Attempt SongLengths :=
  match s.paths with
  | some paths => lengthsUnder fs paths path
  | none => .fail .rootNotSet

def songLengths (s : Session) (fs : FileSystem) (path : String) : Attempt SongLengths × Session :=
  s.record (s.lookupLengths fs path)

end Session

end SidCatalog
