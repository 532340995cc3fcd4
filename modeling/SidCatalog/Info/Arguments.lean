/-! The arguments of the command. They are read from left to right, options and files in any order, and the
first error or the first request for help or for the version decides. -/

namespace SidCatalog.Info

inductive Arguments where
  | help
  | version
  | usageError
  | inspect (root : Option String) (files : List String)
deriving DecidableEq, Repr

namespace Arguments

def rootOption : String := "--hvsc-root"

def attachedRoot? (arg : String) : Option String :=
  let front := rootOption.toList ++ ['=']
  if front.isPrefixOf arg.toList then some (String.ofList (arg.toList.drop front.length)) else none

def isOption (arg : String) : Bool := arg.toList.head? = some '-' && arg != "-"

/-- The short form may have anything behind it. -/
def asks (long : String) (short : Char) (arg : String) : Bool :=
  arg = long || ['-', short].isPrefixOf arg.toList

/-- Reads on with the root and the files found so far, latest file first. -/
def parseFrom (root : Option String) (files : List String) : List String → Arguments
  | [] => if files = [] then usageError else inspect root files.reverse
  | arg :: rest =>
    if arg = "--" then
      if files = [] ∧ rest = [] then usageError else inspect root (files.reverse ++ rest)
    else if arg = rootOption then
      match rest with
      | [] => usageError
      | value :: rest =>
        if isOption value ∨ root.isSome then usageError else parseFrom (some value) files rest
    else if let some value := attachedRoot? arg then
      if root.isSome then usageError else parseFrom (some value) files rest
    else if asks "--help" 'h' arg then help
    else if asks "--version" 'V' arg then version
    else if isOption arg then usageError
    else parseFrom root (arg :: files) rest

def parse (environment : Option String) (args : List String) : Arguments :=
  match parseFrom none [] args with
  | inspect root files => inspect (root.or environment) files
  | other => other

end Arguments

end SidCatalog.Info
