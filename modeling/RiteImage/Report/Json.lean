import RiteImage.Text.Basic

namespace RiteImage

inductive Json where
  | number (n : Nat)
  | text (s : String)
  | list (items : List Json)
  | object (fields : List (String × Json))

namespace Json

def escape (c : Char) : List Char :=
  if c = '\"' then ['\\', '\"']
  else if c = '\\' then ['\\', '\\']
  else if c = '\x08' then ['\\', 'b']
  else if c = '\t' then ['\\', 't']
  else if c = '\n' then ['\\', 'n']
  else if c = '\x0c' then ['\\', 'f']
  else if c = '\r' then ['\\', 'r']
  else if c < ' ' then ['\\', 'u'] ++ Text.padLeft 4 '0' (Nat.toDigits 16 c.toNat)
  else [c]

def quote (s : String) : String :=
  String.ofList (['\"'] ++ s.toList.flatMap escape ++ ['\"'])

def newline (level : Nat) : String := "\n" ++ String.ofList (List.replicate (2 * level) ' ')

mutual

def write (level : Nat) (out : String) : Json → String
  | number n => out ++ toString n
  | text s => out ++ quote s
  | list [] => out ++ "[]"
  | list (item :: items) =>
    let first := write (level + 1) (out ++ "[" ++ newline (level + 1)) item
    writeItems (level + 1) first items ++ newline level ++ "]"
  | object [] => out ++ "\x7b\x7d"
  | object ((key, value) :: fields) =>
    let opened := out ++ "\x7b" ++ newline (level + 1) ++ quote key ++ ": "
    writeFields (level + 1) (write (level + 1) opened value) fields ++ newline level ++ "\x7d"

def writeItems (level : Nat) (out : String) : List Json → String
  | [] => out
  | item :: items =>
    writeItems level (write level (out ++ "," ++ newline level) item) items

def writeFields (level : Nat) (out : String) : List (String × Json) → String
  | [] => out
  | (key, value) :: fields =>
    let named := out ++ "," ++ newline level ++ quote key ++ ": "
    writeFields level (write level named value) fields

end

def pretty (value : Json) : String := write 0 "" value

end Json

end RiteImage
