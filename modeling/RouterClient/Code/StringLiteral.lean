/-! # Swift string literals

Between its quotes a literal writes a quote, a backslash, a line feed, a carriage return and a
tab as a backslash and a letter, and every other character as itself.
-/

namespace RouterClient.Code

/-- One character as it stands between the quotes. -/
def escapeChar (c : Char) : List Char :=
  if c = '"' then ['\\', '"']
  else if c = '\\' then ['\\', '\\']
  else if c = '\n' then ['\\', 'n']
  else if c = '\r' then ['\\', 'r']
  else if c = '\t' then ['\\', 't']
  else [c]

/-- The inside of the literal for `text`. -/
def escape (text : List Char) : List Char :=
  text.flatMap escapeChar

/-- The character that a backslash and `c` stand for. -/
def unescapeChar? (c : Char) : Option Char :=
  if c = '"' then some '"'
  else if c = '\\' then some '\\'
  else if c = 'n' then some '\n'
  else if c = 'r' then some '\r'
  else if c = 't' then some '\t'
  else none

/-- The text that the inside of a literal stands for; none when a backslash is followed by
anything but the five characters that may follow it. -/
def unescape? : List Char → Option (List Char)
  | [] => some []
  | ['\\'] => none
  | '\\' :: c :: rest => do
    let plain ← unescapeChar? c
    let text ← unescape? rest
    return plain :: text
  | c :: rest => (unescape? rest).map (c :: ·)

/-- The string literal for `text`, quotes included. -/
def literal (text : String) : String :=
  .ofList ('"' :: escape text.toList ++ ['"'])

@[simp] theorem escape_nil : escape [] = [] := rfl

@[simp] theorem escape_cons (c : Char) (text : List Char) :
    escape (c :: text) = escapeChar c ++ escape text := by
  simp [escape]

end RouterClient.Code
