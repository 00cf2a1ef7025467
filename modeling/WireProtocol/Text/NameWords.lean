import WireProtocol.Text.LetterCase

namespace WireProtocol.Text

def isSeparator (c : Char) : Bool := c == '_' || c == '.'

def startsWord (before : Option Char) (c : Char) (rest : List Char) : Bool :=
  isUpper c && (before.any (fun b => isLower b || b.isDigit) || rest.head?.any isLower)

def nameWordsFrom (before : Option Char) (word : List Char) : List Char → List (List Char)
  | [] => if word.isEmpty then [] else [word]
  | c :: rest =>
    if isSeparator c then
      if word.isEmpty then nameWordsFrom (some c) [] rest
      else word :: nameWordsFrom (some c) [] rest
    else if !word.isEmpty && startsWord before c rest then
      word :: nameWordsFrom (some c) (lower c) rest
    else nameWordsFrom (some c) (word ++ lower c) rest

/-- Words end at underscores, dots and changes of case; they are in lower case. -/
def nameWords (name : List Char) : List (List Char) := nameWordsFrom none [] name

def capitalize : List Char → List Char
  | [] => []
  | c :: rest => upper c ++ rest

def snakeCase (name : String) : String :=
  String.intercalate "_" ((nameWords name.toList).map String.ofList)

def pascalCase (name : String) : String :=
  String.ofList ((nameWords name.toList).flatMap capitalize)

end WireProtocol.Text
