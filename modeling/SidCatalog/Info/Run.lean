import SidCatalog.Info.Arguments
import SidCatalog.Info.Report

/-! A run of the command: its exit status and what it prints about tunes. The texts for help and for arguments that
cannot be used are left out. -/

namespace SidCatalog.Info

structure Outcome where
  exit : Nat
  out : String := ""
  err : String := ""
deriving DecidableEq, Repr

def unlines (lines : List String) : String := String.join (lines.map (· ++ "\n"))

def summary (failures files : Nat) : String :=
  s!"Error: {failures} of {files} file(s) could not be read"

def Outcome.ofReport (report : Report) (files : Nat) : Outcome :=
  if report.failures = 0 then { exit := 0, out := unlines report.out, err := unlines report.err }
  else
    { exit := 1
      out := unlines report.out
      err := unlines (report.err ++ [summary report.failures files]) }

def run (fs : FileSystem) : Arguments → Outcome
  | .help => { exit := 0 }
  | .version => { exit := 0, out := "hvsc-info 0.1.0\n" }
  | .usageError => { exit := 2 }
  | .inspect root files => .ofReport (inspectAll fs (sessionFor root) files).1 files.length

end SidCatalog.Info
