import ShellFrontend.Text.Unprintable

/-! # Quoted text

A text between double quotes, for messages: the usual short escapes, and the code
point in hexadecimal for a character that would not show.
-/

set_option autoImplicit false

namespace ShellFrontend.Text

/-- One character as it stands inside the quotes. -/
def quotedChar (c : Char) : List Char :=
  if c = '\x00' then ['\\', '0']
  else if c = '\t' then ['\\', 't']
  else if c = '\r' then ['\\', 'r']
  else if c = '\n' then ['\\', 'n']
  else if c = '"' then ['\\', '"']
  else if c = '\\' then ['\\', '\\']
  else if isUnprintable c then
    ['\\', 'u', '\x7b'] ++ Nat.toDigits 16 c.toNat ++ ['\x7d']
  else [c]

def quoted (text : String) : String :=
  String.ofList ('"' :: text.toList.flatMap quotedChar ++ ['"'])

end ShellFrontend.Text
