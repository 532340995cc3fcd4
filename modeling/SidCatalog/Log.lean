import SidCatalog.Failure

/-! What the library logs: events, their levels and their wording. -/

namespace SidCatalog

inductive Level where
  | trace
  | debug
  | warn
deriving DecidableEq, Repr

def Level.label : Level → String
  | trace => "TRACE"
  | debug => "DEBUG"
  | warn => "WARN"

inductive Location where
  | root
  | sldb
  | stil
  | bugs
deriving DecidableEq, Repr

def Location.label : Location → String
  | root => "root"
  | sldb => "sldb"
  | stil => "stil"
  | bugs => "bugs"

inductive Event where
  | opening (path : String)
  | lineBuffersGrown (capacity line : Nat)
  | loadBufferGrown (path : String) (size : Nat)
  | located (place : Location) (path : String)
  | rootCleared
  | malformedEntry (line : Nat) (failure : Failure)
  | entryFound (hex : String) (line : Nat)
  | notListed (path : String)
deriving DecidableEq, Repr

namespace Event

def level : Event → Level
  | lineBuffersGrown _ _ | loadBufferGrown _ _ => .trace
  | malformedEntry _ _ => .warn
  | _ => .debug

def text : Event → String
  | opening path => s!"opening '{path}'"
  | lineBuffersGrown capacity line => s!"growing line buffers to {capacity} bytes at line {line}"
  | loadBufferGrown path size => s!"growing load buffer for '{path}' to {size} bytes"
  | located place path =>
    let what := place.label
    s!"HVSC {what} = {path}"
  | rootCleared => "HVSC root cleared"
  | malformedEntry line failure =>
    let what := failure.message
    s!"malformed SLDB entry at line {line}: {what}"
  | entryFound hex line => s!"SLDB hit for {hex} at line {line}"
  | notListed path => s!"{path} not listed in SLDB, trying digest"

def render (e : Event) : String := e.level.label ++ " " ++ e.text

end Event

end SidCatalog
