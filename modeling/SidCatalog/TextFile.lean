import SidCatalog.TextFile.Reading

/-! Text files as their users hold them: open, or closed with nothing in them. -/

namespace SidCatalog

inductive TextFile where
  | closed
  | opened (handle : TextFile.Handle)
deriving DecidableEq, Repr

namespace TextFile

def openFile (fs : FileSystem) (path : String) : Attempt TextFile := do
  let handle ← openHandle fs path
  return .opened handle

def isOpen : TextFile → Bool
  | closed => false
  | opened _ => true

def path? : TextFile → Option String
  | closed => none
  | opened h => some h.path

def lineNumber : TextFile → Nat
  | closed => 0
  | opened h => h.lineNumber

def capacity : TextFile → Nat
  | closed => 0
  | opened h => h.capacity

def previousLine : TextFile → Option String
  | closed => none
  | opened h => h.previous

def close (_ : TextFile) : TextFile := closed

def read : TextFile → Attempt (Option String) × TextFile
  | closed => (.fail .closedTextFile, closed)
  | opened h => (h.read.1, opened h.read.2)

end TextFile

end SidCatalog
