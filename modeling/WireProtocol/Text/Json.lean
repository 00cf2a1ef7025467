import WireProtocol.Text.Cut
import WireProtocol.Text.Hex

/-! JSON texts. They are read in one pass over the characters, which makes tokens, and one over the
tokens, which keeps the arrays and objects that are still open on a stack. -/

namespace WireProtocol.Text

inductive Json
  | null
  | bool (b : Bool)
  | number (spelling : String)
  | text (s? : Option String)
  | array (items : List Json)
  | object (members : List (Option String × Json))

namespace Json

inductive Token
  | mark (c : Char)
  | leaf (j : Json)

def isBlank (c : Char) : Bool := c == ' ' || c == '\n' || c == '\t' || c == '\r'

def isMark (c : Char) : Bool := ['[', ']', '\x7b', '\x7d', ':', ','].contains c

def afterDigits? (cs : List Char) : Option (List Char) :=
  if (cs.takeWhile Char.isDigit).isEmpty then none else some (cs.dropWhile Char.isDigit)

def afterWhole? : List Char → Option (List Char)
  | '-' :: '0' :: cs | '0' :: cs => some cs
  | '-' :: cs | cs => afterDigits? cs

def afterFraction? : List Char → Option (List Char)
  | '.' :: cs => afterDigits? cs
  | cs => some cs

def afterExponent? : List Char → Option (List Char)
  | e :: sign :: cs =>
    if e = 'e' ∨ e = 'E' then
      if sign = '+' ∨ sign = '-' then afterDigits? cs else afterDigits? (sign :: cs)
    else some (e :: sign :: cs)
  | cs => some cs

def isNumber (cs : List Char) : Bool :=
  match afterWhole? cs >>= afterFraction? >>= afterExponent? with
  | some [] => true
  | _ => false

def ofWord? (word : List Char) : Option Json :=
  match String.ofList word with
  | "null" => some .null
  | "true" => some (.bool true)
  | "false" => some (.bool false)
  | spelling => if isNumber word then some (.number spelling) else none

def isLeadSurrogate (n : Nat) : Bool := 0xD800 ≤ n && n < 0xDC00

def isTrailSurrogate (n : Nat) : Bool := 0xDC00 ≤ n && n < 0xE000

def chars? : List Nat → Option (List Char)
  | [] => some []
  | n :: rest =>
    if isLeadSurrogate n then
      match rest with
      | m :: rest =>
        if isTrailSurrogate m then
          (Char.ofNat (0x10000 + (n - 0xD800) * 0x400 + (m - 0xDC00)) :: ·) <$> chars? rest
        else none
      | [] => none
    else if isTrailSurrogate n then none
    else (Char.ofNat n :: ·) <$> chars? rest

def escaped? (c : Char) : Option Char :=
  [('"', '"'), ('\\', '\\'), ('/', '/'), ('b', '\x08'), ('f', '\x0c'), ('n', '\n'), ('r', '\r'),
    ('t', '\t')].lookup c

/-- Where a pass over the characters is; what is done comes last first. -/
inductive Mode
  | between
  | word (done : List Char)
  | text (done : List Nat)
  | escape (done : List Nat)
  | hex (done : List Nat) (left value : Nat)

def start (c : Char) : List Token × Mode :=
  if isBlank c then ([], .between)
  else if isMark c then ([.mark c], .between)
  else if c = '"' then ([], .text [])
  else ([], .word [c])

def Mode.step : Mode → Char → Option (List Token × Mode)
  | between, c => some (start c)
  | word done, c =>
    if isBlank c || isMark c || c == '"' then do
      let j ← ofWord? done.reverse
      let (tokens, mode) := start c
      return (.leaf j :: tokens, mode)
    else some ([], .word (c :: done))
  | text done, c =>
    if c = '"' then some ([.leaf (.text (String.ofList <$> chars? done.reverse))], .between)
    else if c = '\\' then some ([], .escape done)
    else if c.toNat < 0x20 then none
    else some ([], .text (c.toNat :: done))
  | escape done, c =>
    if c = 'u' then some ([], .hex done 3 0) else (([], .text <| ·.toNat :: done)) <$> escaped? c
  | hex done left value, c => do
    let value := 16 * value + (← hexDigit? c)
    match left with
    | 0 => return ([], .text (value :: done))
    | left + 1 => return ([], .hex done left value)

def Mode.finish : Mode → Option (List Token)
  | between => some []
  | word done => ([.leaf ·]) <$> ofWord? done.reverse
  | _ => none

def tokens? (mode : Mode) : List Char → Option (List Token)
  | [] => mode.finish
  | c :: rest => do
    let (tokens, mode) ← mode.step c
    return tokens ++ (← tokens? mode rest)

inductive Frame
  | array (items : List Json)
  | object (members : List (Option String × Json)) (key : Option String)

inductive State
  | value (stack : List Frame)
  | itemOrEnd (stack : List Frame)
  | keyOrEnd (stack : List Frame)
  | key (members : List (Option String × Json)) (stack : List Frame)
  | colon (members : List (Option String × Json)) (key : Option String) (stack : List Frame)
  | done (j : Json) (stack : List Frame)

namespace State

def stepValue (stack : List Frame) : Token → Option State
  | .leaf j => some (.done j stack)
  | .mark '[' => some (.itemOrEnd stack)
  | .mark '\x7b' => some (.keyOrEnd stack)
  | .mark _ => none

def stepKey (members : List (Option String × Json)) (stack : List Frame) : Token → Option State
  | .leaf (.text k) => some (.colon members k stack)
  | _ => none

def step : State → Token → Option State
  | value stack, t => stepValue stack t
  | itemOrEnd stack, .mark ']' => some (.done (.array []) stack)
  | itemOrEnd stack, t => stepValue (.array [] :: stack) t
  | keyOrEnd stack, .mark '\x7d' => some (.done (.object []) stack)
  | keyOrEnd stack, t => stepKey [] stack t
  | key members stack, t => stepKey members stack t
  | colon members k stack, .mark ':' => some (.value (.object members k :: stack))
  | done j (.array items :: stack), .mark ',' => some (.value (.array (j :: items) :: stack))
  | done j (.array items :: stack), .mark ']' =>
    some (.done (.array (j :: items).reverse) stack)
  | done j (.object members k :: stack), .mark ',' => some (.key ((k, j) :: members) stack)
  | done j (.object members k :: stack), .mark '\x7d' =>
    some (.done (.object ((k, j) :: members).reverse) stack)
  | _, _ => none

end State

def ofTokens? (tokens : List Token) : Option Json :=
  match tokens.foldlM State.step (.value []) with
  | some (.done j []) => some j
  | _ => none

def ofText? (s : String) : Option Json := tokens? .between s.toList >>= ofTokens?

def fields? (names : List String) : Json → Option (List (Option Json))
  | .object members => do
    let members ← members.mapM fun (key, j) => (·, j) <$> key
    names.mapM fun name =>
      match members.filter (·.1 == name) with
      | [] => some none
      | [(_, j)] => some (some j)
      | _ => none
  | .array items =>
    if items.length ≤ names.length then some ((List.range names.length).map (items[·]?)) else none
  | _ => none

def text? : Json → Option String
  | .text s? => s?
  | _ => none

def bool? : Json → Option Bool
  | .bool b => some b
  | _ => none

def items? : Json → Option (List Json)
  | .array items => some items
  | _ => none

end Json

end WireProtocol.Text
