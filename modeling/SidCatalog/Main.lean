import SidCatalog.Info.Run

/-! The command line. The files that a run can ask for are known from its arguments, so they are read first
and the run works on what was read. -/

namespace SidCatalog.Info

/-- Error numbers come as signed words and are negative from some calls. -/
def errnoOf (code : UInt32) : Int := code.toInt32.toInt.natAbs

def faultOf : IO.Error → OsFault
  | .alreadyExists _ code _ | .otherError code _ | .resourceBusy code _
  | .resourceVanished code _ | .unsupportedOperation code _ | .hardwareFault code _
  | .unsatisfiedConstraints code _ | .illegalOperation code _ | .protocolError code _
  | .timeExpired code _ | .interrupted _ code _ | .noFileOrDirectory _ code _
  | .invalidArgument _ code _ | .permissionDenied _ code _ | .resourceExhausted _ code _
  | .inappropriateType _ code _ | .noSuchThing _ code _ => .number (errnoOf code)
  | .unexpectedEof => .text "unexpected end of file"
  | .userError message => .text message

def readBytes (path : String) : IO (Except OsFault Bytes) := do
  try
    let data ← IO.FS.readBinFile path
    return .ok data.toList
  catch e =>
    return .error (faultOf e)

def snapshot (paths : List String) : IO FileSystem := do
  let contents ← paths.mapM fun path => do return (path, ← readBytes path)
  return {
    openFile path :=
      match contents.lookup path with
      | some content => content.map ByteStream.ofBytes
      | none => .error .noSuchFile }

def Arguments.reads : Arguments → List String
  | .inspect root files =>
    match (sessionFor root).paths with
    | some paths => paths.sldb :: files
    | none => files
  | _ => []

end SidCatalog.Info

open SidCatalog.Info in
def main (args : List String) : IO UInt32 := do
  let arguments := Arguments.parse (← IO.getEnv "HVSC_BASE") args
  let outcome := run (← snapshot arguments.reads) arguments
  (← IO.getStdout).putStr outcome.out
  (← IO.getStderr).putStr outcome.err
  return outcome.exit.toUInt32
