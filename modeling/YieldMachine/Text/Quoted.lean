import YieldMachine.Text.Graphic

/-!
Quoted text: double quotes around it, with quotes, backslashes and all that does not show by itself escaped.
-/

namespace YieldMachine.Text

/-- Quote, backslash and four control characters have short escapes; any other character that is not graphic is
written by its code point in hexadecimal. -/
def escape (c : Char) : List Char :=
  if c = '\x00' then ['\\', '0']
  else if c = '\t' then ['\\', 't']
  else if c = '\r' then ['\\', 'r']
  else if c = '\n' then ['\\', 'n']
  else if c = '"' then ['\\', '"']
  else if c = '\\' then ['\\', '\\']
  else if isGraphic c then [c]
  else "\\u\x7b".toList ++ Nat.toDigits 16 c.toNat ++ "\x7d".toList

def quote (s : String) : String :=
  String.ofList ('"' :: s.toList.flatMap escape ++ ['"'])

/-- An accent and a joiner are escaped, a letter is not. -/
example : ['é', '\u0301', '\u200d'].map escape = [['é'], "\\u\x7b301\x7d".toList, "\\u\x7b200d\x7d".toList] := by
  decide +kernel

end YieldMachine.Text
