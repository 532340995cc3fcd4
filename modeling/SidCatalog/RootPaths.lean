import SidCatalog.Log
import SidCatalog.Path

/-! The root of a collection and the lists that it holds in its documents directory. -/

namespace SidCatalog

structure RootPaths where
  root : String
  sldb : String
  stil : String
  bugs : String
deriving DecidableEq, Repr

namespace RootPaths

def ofRoot (root : String) : RootPaths where
  root := root
  sldb := Path.join root "DOCUMENTS/Songlengths.md5"
  stil := Path.join root "DOCUMENTS/STIL.txt"
  bugs := Path.join root "DOCUMENTS/BUGlist.txt"

def events (p : RootPaths) : List Event :=
  [.located .root p.root, .located .sldb p.sldb, .located .stil p.stil, .located .bugs p.bugs]

def strip (p : RootPaths) (path : String) : String := Path.strip p.root path

def isUnder (p : RootPaths) (path : String) : Bool := Path.isUnder p.root path

end RootPaths

end SidCatalog
