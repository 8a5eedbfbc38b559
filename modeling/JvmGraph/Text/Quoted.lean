import JvmGraph.Text.Numeral
import JvmGraph.Text.Printable

/-!
# Quoted text

A text between double quotes in which every character can be seen: quotes and backslashes carry a
backslash, NUL, tab, carriage return and line feed have letters of their own, and a character that
cannot be printed is written as its code point.
-/

namespace JvmGraph.Text

def escaped (c : Char) : String :=
  if c = '\x00' then "\\0"
  else if c = '\t' then "\\t"
  else if c = '\r' then "\\r"
  else if c = '\n' then "\\n"
  else if c = '"' then "\\\""
  else if c = '\\' then "\\\\"
  else if isPrintable c then c.toString
  else "\\u\x7b" ++ hex c.toNat ++ "\x7d"

def quoted (s : String) : String := "\"" ++ String.join (s.toList.map escaped) ++ "\""

end JvmGraph.Text
