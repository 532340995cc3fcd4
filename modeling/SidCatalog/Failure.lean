import SidCatalog.OsFault

/-! What can go wrong. A `Failure` has a code, which is part of the interface, and a message. The
wording of every failure that the library raises itself stands in this module. -/

namespace SidCatalog

inductive ErrorCode where
  | ok
  | io
  | fileTooLarge
  | digest
  | timestamp
  | notFound
  | invalid
deriving DecidableEq, Repr

namespace ErrorCode

def all : List ErrorCode := [.ok, .io, .fileTooLarge, .digest, .timestamp, .notFound, .invalid]

def value : ErrorCode → Nat
  | ok => 0
  | io => 1
  | fileTooLarge => 2
  | digest => 3
  | timestamp => 4
  | notFound => 5
  | invalid => 6

def ofValue? : Int → Option ErrorCode
  | .ofNat n => all[n]?
  | .negSucc _ => none

def message : ErrorCode → String
  | ok => "OK"
  | io => "I/O error"
  | fileTooLarge => "file too large error"
  | digest => "digest error"
  | timestamp => "malformed timestamp"
  | notFound => "object not found"
  | invalid => "invalid data or operation"

def describe (n : Int) : String :=
  ((ofValue? n).map message).getD "<unknown error code>"

@[simp] theorem ofValue?_value (c : ErrorCode) : ofValue? c.value = some c := by
  cases c <;> rfl

end ErrorCode

inductive Failure where
  | io (path : String) (fault : OsFault)
  | fileTooLarge (path : String) (limit : Nat)
  | digest (reason : String)
  /-- The offset is that of the first byte that cannot belong to a timestamp. -/
  | timestamp (offset : Nat)
  | notFound (what : String)
  | invalid (reason : String)
deriving DecidableEq, Repr

namespace Failure

def code : Failure → ErrorCode
  | io _ _ => .io
  | fileTooLarge _ _ => .fileTooLarge
  | digest _ => .digest
  | timestamp _ => .timestamp
  | notFound _ => .notFound
  | invalid _ => .invalid

def errno? : Failure → Option Int
  | io _ fault => fault.errno?
  | _ => none

def message : Failure → String
  | io path fault =>
    let what := fault.message
    s!"I/O error on '{path}': {what}"
  | fileTooLarge path limit => s!"file '{path}' exceeds {limit} bytes"
  | digest reason => s!"digest error: {reason}"
  | timestamp offset => s!"malformed timestamp at offset {offset}"
  | notFound what => s!"object not found: {what}"
  | invalid reason => s!"invalid data or operation: {reason}"

def chain (f : Failure) : List String :=
  match f with
  | io _ fault => [f.message, fault.message]
  | _ => [f.message]

theorem code_ne_ok (f : Failure) : f.code ≠ .ok := by
  cases f <;> simp [code]

def wrongDigestLength (length : Nat) : Failure :=
  .digest s!"expected 32 hex digits, got {length}"

def notHex (text : String) : Failure :=
  .digest s!"invalid hex digest '{text}'"

def closedTextFile : Failure := .invalid "read from a closed text file"

def shortHeader (length : Nat) : Failure :=
  .invalid s!"PSID header needs 118 bytes, got {length}"

def missingMagic : Failure := .invalid "missing PSID/RSID magic"

def entryWithoutEquals (line : String) : Failure :=
  .invalid s!"SLDB entry without '=': {line}"

def unterminatedAttribute (line : String) : Failure :=
  .invalid s!"unterminated attribute in SLDB entry: {line}"

def endsAfterComment (path : String) : Failure :=
  .invalid s!"SLDB ends after the comment for {path}"

def noEntryForDigest (hex : String) : Failure :=
  .notFound s!"no SLDB entry for digest {hex}"

def noEntryForPath (path : String) : Failure :=
  .notFound s!"no SLDB entry for {path}"

def rootNotSet : Failure := .invalid "HVSC root is not set"

end Failure

end SidCatalog
