import GraphQuery.Text.Hidden

/-!
# Quoted text in messages

Messages show a string in quotes. Quotes and backslashes are escaped, and so is every character
that does not show by itself.
-/

namespace GraphQuery

namespace Quoted

def escapeChar (c : Char) : List Char :=
  match c with
  | '\x00' => ['\\', '0']
  | '\t' => ['\\', 't']
  | '\n' => ['\\', 'n']
  | '\r' => ['\\', 'r']
  | '"' => ['\\', '"']
  | '\\' => ['\\', '\\']
  | c =>
    if isHidden c then ['\\', 'u', '\x7b'] ++ Nat.toDigits 16 c.toNat ++ ['\x7d'] else [c]

def quote (s : String) : String :=
  "\"" ++ String.ofList (s.toList.flatMap escapeChar) ++ "\""

end Quoted

end GraphQuery
