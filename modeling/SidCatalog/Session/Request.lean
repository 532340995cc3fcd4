import SidCatalog.Session

/-! Requests to a session and to the one text file beside it, as data. `perform` answers one request, so a
run of a session is a list of requests. -/

namespace SidCatalog.Session

structure Desk where
  session : Session := {}
  file : TextFile := .closed
deriving DecidableEq, Repr

inductive Request where
  | setRoot (root : String)
  | clearRoot
  | clearError
  | close
  | paths
  | stripRoot (path : String)
  | isUnderRoot (path : String)
  | format (label : Option String)
  | openText (path : String)
  | readLine
  | loadFile (path : String)
  | digestFile (path : String)
  | parseTimestamp (text : String)
  | songLengths (path : String)
deriving DecidableEq, Repr

inductive Reply where
  | done
  | paths (paths : Option RootPaths)
  | text (text : String)
  | flag (holds : Bool)
  | line (line : Option String)
  | bytes (bytes : Bytes)
  | digest (digest : Digest)
  | timestamp (scan : Timestamp.Scan)
  | songLengths (lengths : SongLengths)
deriving DecidableEq, Repr

structure Answer where
  attempt : Attempt Reply
  desk : Desk

namespace Desk

def ofRoot (root : String) : Desk × List Event :=
  ({ session := ({} : Session).setRoot root }, (RootPaths.ofRoot root).events)

def answer (d : Desk) (reply : Reply) (events : List Event) : Answer := ⟨⟨.ok reply, events⟩, d⟩

def relay {α : Type} (d : Desk) (reply : α → Reply) (result : Attempt α × Session) : Answer :=
  ⟨reply <$> result.1, { d with session := result.2 }⟩

def perform (fs : FileSystem) (d : Desk) : Request → Answer
  | .setRoot root =>
    answer { d with session := d.session.setRoot root } .done (RootPaths.ofRoot root).events
  | .clearRoot => answer { d with session := d.session.clearRoot } .done d.session.clearRootEvents
  | .clearError => answer { d with session := d.session.clearError } .done []
  | .close => answer { d with file := d.file.close } .done []
  | .paths => d.answer (.paths d.session.paths) []
  | .stripRoot path => d.answer (.text (d.session.stripRoot path)) []
  | .isUnderRoot path => d.answer (.flag (d.session.isUnderRoot path)) []
  | .format label => d.answer (.text (d.session.lastError.format label)) []
  | .openText path =>
    let result := d.session.openText fs path
    let file := match result.1.outcome with
      | .ok file => file
      | .error _ => d.file
    { d with file }.relay (fun _ => .done) result
  | .readLine =>
    let result := d.session.readLine d.file
    { d with file := result.2.2 }.relay .line (result.1, result.2.1)
  | .loadFile path => d.relay .bytes (d.session.loadFile fs path)
  | .digestFile path => d.relay .digest (d.session.digestFile fs path)
  | .parseTimestamp text => d.relay .timestamp (d.session.parseTimestamp text)
  | .songLengths path => d.relay .songLengths (d.session.songLengths fs path)

def run (fs : FileSystem) (d : Desk) : List Request → List Answer
  | [] => []
  | request :: rest =>
    let answer := d.perform fs request
    answer :: run fs answer.desk rest

end Desk

end SidCatalog.Session
