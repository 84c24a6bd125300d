import RouterClient.Text.Printable

/-! # Text shown in a message

A text found where something else was due is shown between quotes, with every character visible.
-/

namespace RouterClient.Text

/-- A character as it is shown between quotes. -/
def showChar (c : Char) : List Char :=
  if c = '"' then ['\\', '"']
  else if c = '\\' then ['\\', '\\']
  else if c = '\n' then ['\\', 'n']
  else if c = '\r' then ['\\', 'r']
  else if c = '\t' then ['\\', 't']
  else if c.toNat = 0 then ['\\', '0']
  else if isUnseen c then '\\' :: 'u' :: '\x7b' :: Nat.toDigits 16 c.toNat ++ ['\x7d']
  else [c]

/-- A text between quotes. -/
def quoted (text : String) : String :=
  .ofList ('"' :: text.toList.flatMap showChar ++ ['"'])

end RouterClient.Text
