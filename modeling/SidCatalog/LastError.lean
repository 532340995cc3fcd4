import SidCatalog.Failure

/-! The record of the most recent failure. It stays until it is cleared or replaced: successes leave it
alone, and a new failure replaces all of it. -/

namespace SidCatalog

structure LastError where
  code : ErrorCode := .ok
  errno? : Option Int := none
  detail? : Option String := none
deriving DecidableEq, Repr

namespace LastError

def ofFailure (f : Failure) : LastError where
  code := f.code
  errno? := f.errno?
  detail? := some f.message

def record (_ : LastError) (f : Failure) : LastError := ofFailure f

def clear (_ : LastError) : LastError := {}

def osSuffix (e : LastError) : String :=
  match e.code, e.errno? with
  | .io, some n =>
    let what := OsFault.describe n
    s!" ({n}: {what})"
  | _, _ => ""

def format (e : LastError) (label : Option String) : String :=
  let front := match label with
    | some l => if l = "" then "" else l ++ ": "
    | none => ""
  front ++ toString e.code.value ++ ": " ++ e.code.message ++ e.osSuffix

end LastError

end SidCatalog
