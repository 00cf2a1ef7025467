import WireProtocol.Text.Blank
import WireProtocol.Text.Cut

/-! Schema text as a sequence of statements and braces. A statement ends at a semicolon, a brace or
the end of its line; between quotes these are ordinary characters, but quotes end with their line. -/

namespace WireProtocol.Schema

inductive Token.Kind
  | statement (text : List Char)
  | opening
  | closing
  deriving DecidableEq, Repr

structure Token where
  line : Nat
  kind : Token.Kind
  deriving DecidableEq, Repr

namespace Token

def ofStatement (line : Nat) (text : List Char) : List Token :=
  match Text.trim text with
  | [] => []
  | text => [⟨line, .statement text⟩]

def ofLine (line : Nat) (begun : List Char) (quoted : Bool) : List Char → List Token
  | [] => ofStatement line begun
  | c :: rest =>
    if quoted then ofLine line (begun ++ [c]) (c != '"') rest
    else if c = '"' then ofLine line (begun ++ [c]) true rest
    else if c = '/' && rest.head? = some '/' then ofStatement line begun
    else if c = ';' then ofStatement line begun ++ ofLine line [] false rest
    else if c = '\x7b' then ofStatement line begun ++ ⟨line, .opening⟩ :: ofLine line [] false rest
    else if c = '\x7d' then ofStatement line begun ++ ⟨line, .closing⟩ :: ofLine line [] false rest
    else ofLine line (begun ++ [c]) false rest

def ofLines (line : Nat) : List (List Char) → List Token
  | [] => []
  | text :: rest => ofLine line [] false text ++ ofLines (line + 1) rest

def ofSource (source : List Char) : List Token := ofLines 1 (Text.splitAt (· == '\n') source)

end Token

end WireProtocol.Schema
