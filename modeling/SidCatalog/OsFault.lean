import SidCatalog.OsFault.Description

/-! Faults that opening or reading a file can report. Most carry an operating system error number; a few
are refused before the operating system is asked and carry a text only. -/

namespace SidCatalog

inductive OsFault where
  | number (errno : Int)
  | text (message : String)
deriving DecidableEq, Repr

namespace OsFault

def noSuchFile : OsFault := .number 2

def isDirectory : OsFault := .number 21

def errno? : OsFault → Option Int
  | .number n => some n
  | .text _ => none

def describe (n : Int) : String :=
  let what := description n
  s!"{what} (os error {n})"

def message : OsFault → String
  | .number n => describe n
  | .text t => t

end OsFault

end SidCatalog
