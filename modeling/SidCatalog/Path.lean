import SidCatalog.Text.Utf8

/-! Paths as texts. The separator is a slash; collection paths may also come with backslashes, which
`normalize` turns around. Whether a path lies under a root is decided on the bytes alone. -/

namespace SidCatalog.Path

def join (a b : String) : String :=
  if a.toList.getLast? = some '/' ∨ b.toList.head? = some '/' then a ++ b else a ++ "/" ++ b

def isUnder (root path : String) : Bool :=
  root != "" && decide (root.utf8ByteSize < path.utf8ByteSize) &&
    (Text.bytes root).isPrefixOf (Text.bytes path)

def strip (root path : String) : String :=
  if isUnder root path then
    match Text.cut? root.utf8ByteSize path.toList with
    | some (_, rest) => String.ofList rest
    | none => path
  else path

def normalize (path : String) : String :=
  String.ofList (path.toList.map fun c => if c = '\\' then '/' else c)

def absolute (path : String) : String :=
  if path.toList.head? = some '/' then path else "/" ++ path

def dropTrailingSeparators (path : String) : String :=
  String.ofList (path.toList.reverse.dropWhile fun c => c = '/' || c = '\\').reverse

end SidCatalog.Path
