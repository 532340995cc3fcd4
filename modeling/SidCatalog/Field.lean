import SidCatalog.Text.Blank

/-! Field tags of the tune information list and the bug list. A tag is right-justified in eight columns; a
tag pushed further right, by less than a full tag width, still counts, and one left of its column never
does, since such lines continue the field above. -/

namespace SidCatalog

inductive Field where
  | artist
  | author
  | bug
  | comment
  | name
  | title
deriving DecidableEq, Repr

namespace Field

def tagWidth : Nat := 8

def all : List Field := [.artist, .author, .bug, .comment, .name, .title]

def tag : Field → String
  | artist => " ARTIST:"
  | author => " AUTHOR:"
  | bug => "    BUG:"
  | comment => "COMMENT:"
  | name => "   NAME:"
  | title => "  TITLE:"

def display : Field → String
  | artist => " \x7bartist\x7d"
  | author => " \x7bauthor\x7d"
  | bug => "    \x7bbug\x7d"
  | comment => "\x7bcomment\x7d"
  | name => "   \x7bname\x7d"
  | title => "  \x7btitle\x7d"

def index : Field → Nat
  | artist => 0
  | author => 1
  | bug => 2
  | comment => 3
  | name => 4
  | title => 5

def ofIndex? : Int → Option Field
  | .ofNat n => all[n]?
  | .negSucc _ => none

def displayIndex (index : Int) : String :=
  ((ofIndex? index).map display).getD "<invalid>"

def isSpace (c : Char) : Bool := c = ' '

def keyword (f : Field) : List Char := f.tag.toList.dropWhile isSpace

def atColumn? (table : List Field) (line : List Char) : Option Field :=
  table.find? fun f => f.tag.toList.isPrefixOf line

/-- The first one whose keyword follows the leading spaces and ends at its column or to the right of it. -/
def indented? (table : List Field) (line : List Char) : Option Field :=
  let indent := (line.takeWhile isSpace).length
  if tagWidth ≤ indent then none
  else table.find? fun f =>
    decide (tagWidth ≤ indent + f.keyword.length) && f.keyword.isPrefixOf (line.drop indent)

def classifyBy (table : List Field) (line : String) : Option Field :=
  match atColumn? table line.toList with
  | some f => some f
  | none => indented? table line.toList

def classify (line : String) : Option Field := classifyBy all line

def indexOf (line : String) : Int :=
  match classify line with
  | some f => f.index
  | none => -1

def value (f : Field) (line : String) : String :=
  let text := line.toList.dropWhile isSpace
  if f.keyword.isPrefixOf text then String.ofList (text.drop f.keyword.length) else ""

@[simp] theorem ofIndex?_index (f : Field) : ofIndex? f.index = some f := by
  cases f <;> rfl

theorem keyword_append (f : Field) :
    f.tag.toList = List.replicate (tagWidth - f.keyword.length) ' ' ++ f.keyword := by
  cases f <;> decide

end Field

def isBlankLine (line : String) : Bool := line.toList.all Text.isAsciiBlank

def isCommentLine (line : String) : Bool :=
  (line.toList.dropWhile Text.isAsciiBlank).head? = some '#'

end SidCatalog
