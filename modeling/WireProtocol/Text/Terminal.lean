import WireProtocol.Text.Hex

namespace WireProtocol.Text

def isCommand (c : Char) : Bool := ['\x07', '\x08', '\x0c', '\x1b', '\x7f'].contains c

def isWideControl (c : Char) : Bool := 0x80 ≤ c.toNat && c.toNat ≤ 0x9F

def shownChar (c : Char) : String :=
  if isCommand c then "\\x" ++ hex 2 c.toNat
  else if isWideControl c then "\\u\x7b" ++ hex 2 c.toNat ++ "\x7d"
  else c.toString

def shown (s : String) : String := String.join (s.toList.map shownChar)

end WireProtocol.Text
