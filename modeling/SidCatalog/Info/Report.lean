import SidCatalog.Session
import SidCatalog.Tune.Header

/-! What the command prints about tunes. All tunes go through one session in turn; one that cannot be read
or that is no tune takes a line on the error output and counts as a failure, and one whose lengths are
not found takes a line there and does not. -/

namespace SidCatalog.Info

structure Report where
  out : List String := []
  err : List String := []
  failures : Nat := 0
deriving DecidableEq, Repr

namespace Report

instance : Append Report where
  append r s := ⟨r.out ++ s.out, r.err ++ s.err, r.failures + s.failures⟩

def failed (file context : String) (f : Failure) : Report where
  err := [": ".intercalate (file :: context :: f.chain)]
  failures := 1

end Report

def headerLines (file : String) (header : Tune.Header) (digest : Digest) : List String :=
  let magic := header.magic.name
  let hex := digest.toHex
  [file,
    s!"  format:   {magic} v{header.version}",
    s!"  name:     {header.name}",
    s!"  author:   {header.author}",
    s!"  released: {header.released}",
    s!"  songs:    {header.songs} (start {header.startSong})",
    s!"  md5:      {hex}"]

def songLine (number : Nat) (time : Timestamp) : String :=
  "  song " ++ String.ofList (Text.padded 3 ' ' number) ++ ": " ++ time.render

def songLines (times : List Timestamp) : List String :=
  times.zipIdx.map fun p => songLine (p.2 + 1) p.1

def lengthsReport (fs : FileSystem) (session : Session) (file : String) : Report × Session :=
  if session.root?.isNone then
    ({ out := ["  lengths:  unavailable, no HVSC root configured"] }, session)
  else
    let place := if session.isUnderRoot file then ["  hvsc:     " ++ session.stripRoot file] else []
    let found := session.songLengths fs file
    match found.1.outcome with
    | .ok lengths => ({ out := place ++ songLines lengths.lengths }, found.2)
    | .error _ => ({ out := place, err := [found.2.lastError.format (some file)] }, found.2)

def inspect (fs : FileSystem) (session : Session) (file : String) : Report × Session :=
  let loaded := session.loadFile fs file
  match loaded.1.outcome with
  | .error f => (.failed file s!"cannot load {file}" f, loaded.2)
  | .ok data =>
    match Tune.Header.parse data with
    | .error f => (.failed file "not a PSID file" f, loaded.2)
    | .ok header =>
      let lengths := lengthsReport fs loaded.2 file
      ({ out := headerLines file header (Digest.ofBytes data) } ++ lengths.1, lengths.2)

def inspectAll (fs : FileSystem) (session : Session) : List String → Report × Session
  | [] => ({}, session)
  | file :: rest =>
    let first := inspect fs session file
    let others := inspectAll fs first.2 rest
    (first.1 ++ others.1, others.2)

def sessionFor (root : Option String) : Session :=
  match root with
  | some root => ({} : Session).setRoot (Path.dropTrailingSeparators root)
  | none => {}

end SidCatalog.Info
