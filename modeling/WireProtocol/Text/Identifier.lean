import WireProtocol.Text.Cut

namespace WireProtocol.Text

def isIdentifierStart (c : Char) : Bool := c.isAlpha || c == '_'

def isIdentifierRest (c : Char) : Bool := c.isAlphanum || c == '_'

def isIdentifier : List Char → Bool
  | [] => false
  | c :: rest => isIdentifierStart c && rest.all isIdentifierRest

def isDottedName (text : List Char) : Bool := (splitAt (· == '.') text).all isIdentifier

end WireProtocol.Text
