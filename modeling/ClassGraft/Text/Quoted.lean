/-
# Text.Quoted — texts in double quotes

`quote` writes a text so that it can stand inside a message: the quote and the backslash are
escaped, the usual controls have letters, and every other character that would not show as itself
is written as its hexadecimal code point in braces.
-/
import ClassGraft.Text.Graphic

namespace ClassGraft.Text

set_option autoImplicit false

/-- Lower case hexadecimal digits of a number, without leading zeros. -/
def hexDigits (n : Nat) : String := String.ofList (Nat.toDigits 16 n)

/-- The characters that stand for one character between quotes. -/
def escape (c : Char) : String :=
  if c = '\n' then "\\n"
  else if c = '\r' then "\\r"
  else if c = '\t' then "\\t"
  else if c.toNat = 0 then "\\0"
  else if c = '\\' then "\\\\"
  else if c = '\x22' then "\\\x22"
  else if isGraphic c then c.toString
  else "\\u\x7b" ++ hexDigits c.toNat ++ "\x7d"

def quote (s : String) : String := "\x22" ++ String.join (s.toList.map escape) ++ "\x22"

/-- Items between brackets, separated by a comma and a blank. -/
def bracketed (items : List String) : String := "[" ++ ", ".intercalate items ++ "]"

end ClassGraft.Text
