import RouterClient.Json.Number

/-! # JSON values

A value as a tree, with the members of an object in order, and its shortest text.
-/

namespace RouterClient.Json

inductive Value where
  | null
  | bool (b : Bool)
  | number (n : Number)
  | string (text : String)
  | array (items : List Value)
  | object (members : List (String × Value))

namespace Value

instance : Inhabited Value := ⟨null⟩

/-- The lower-case hexadecimal digit of a number below 16. -/
def hexDigit (n : Nat) : Char :=
  Char.ofNat (if n < 10 then 0x30 + n else 0x57 + n)

/-- One character as it stands in a string: quotes, backslashes and control characters are
escaped. -/
def escapeChar (c : Char) : String :=
  if c = '"' then "\\\""
  else if c = '\\' then "\\\\"
  else if c = '\n' then "\\n"
  else if c = '\r' then "\\r"
  else if c = '\t' then "\\t"
  else if c.toNat = 0x08 then "\\b"
  else if c.toNat = 0x0C then "\\f"
  else if c.toNat < 0x20 then
    "\\u00" ++ String.singleton (hexDigit (c.toNat / 16)) ++
      String.singleton (hexDigit (c.toNat % 16))
  else String.singleton c

/-- Write a string after `out`. -/
def writeString (out text : String) : String :=
  (text.toList.foldl (fun out c => out ++ escapeChar c) (out.push '"')).push '"'

mutual

/-- Write a value after `out`. -/
def write (out : String) : Value → String
  | null => out ++ "null"
  | bool b => out ++ if b then "true" else "false"
  | number n => out ++ n.text
  | string text => writeString out text
  | array items => (writeItems (out.push '[') items).push ']'
  | object members => (writeMembers (out.push '\x7b') members).push '\x7d'

def writeItems (out : String) : List Value → String
  | [] => out
  | [last] => write out last
  | item :: more => writeItems ((write out item).push ',') more

def writeMembers (out : String) : List (String × Value) → String
  | [] => out
  | [(key, last)] => write ((writeString out key).push ':') last
  | (key, value) :: more =>
    writeMembers ((write ((writeString out key).push ':') value).push ',') more

end

def text (value : Value) : String :=
  write "" value

end Value

end RouterClient.Json
