
namespace WireProtocol.Text

def cutAt? (p : Char → Bool) : List Char → Option (List Char × List Char)
  | [] => none
  | c :: text => if p c then some ([], text) else (cutAt? p text).map fun (a, b) => (c :: a, b)

def splitAt (p : Char → Bool) : List Char → List (List Char)
  | [] => [[]]
  | c :: text =>
    if p c then [] :: splitAt p text
    else
      match splitAt p text with
      | part :: parts => (c :: part) :: parts
      | [] => [[c]]

def stripStart? : (expected text : List Char) → Option (List Char)
  | [], text => some text
  | _ :: _, [] => none
  | e :: expected, c :: text => if e = c then stripStart? expected text else none

def stripEnd? (expected text : List Char) : Option (List Char) :=
  (stripStart? expected.reverse text.reverse).map List.reverse

end WireProtocol.Text
