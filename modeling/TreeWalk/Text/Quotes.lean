import TreeWalk.Text.Hidden

/-! A string quoted for a message, with the characters that would not show escaped. -/

namespace TreeWalk.Text

/-- How a character is written in a message. -/
def quotedChar (c : Char) : String :=
  match c with
  | '"' => "\\\""
  | '\\' => "\\\\"
  | '\n' => "\\n"
  | '\r' => "\\r"
  | '\t' => "\\t"
  | '\x00' => "\\0"
  | c =>
    if isHidden c then
      "\\u\x7b" ++ String.ofList (Nat.toDigits 16 c.toNat) ++ "\x7d"
    else String.singleton c

/-- A string in quotes, as a message shows it. -/
def inQuotes (s : String) : String := "\"" ++ String.join (s.toList.map quotedChar) ++ "\""

end TreeWalk.Text
