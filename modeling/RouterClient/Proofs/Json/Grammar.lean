import RouterClient.Json.Scan

/-! # The grammar of JSON

What a JSON text is, whatever reads it.  An element is a value with blanks around it, and a text is JSON if
it is one element.
-/

namespace RouterClient.Json.Grammar

/-- Blanks. -/
def IsBlank (cs : List Char) : Prop :=
  ∀ c ∈ cs, isJsonBlank c = true

/-- At least one digit. -/
def IsDigits (cs : List Char) : Prop :=
  cs ≠ [] ∧ ∀ c ∈ cs, c.isDigit = true

/-- The digits before a point: a zero, or digits of which the first is none. -/
def IsWhole (cs : List Char) : Prop :=
  IsDigits cs ∧ (cs.head? = some '0' → cs = ['0'])

/-- A point with digits after it, or nothing. -/
inductive IsFraction : List Char → Prop where
  | none : IsFraction []
  | digits {cs} : IsDigits cs → IsFraction ('.' :: cs)

/-- An exponent with its mark and its sign, or nothing. -/
inductive IsExponent : List Char → Prop where
  | none : IsExponent []
  | digits {mark sign cs} :
      mark = 'e' ∨ mark = 'E' → sign = [] ∨ sign = ['+'] ∨ sign = ['-'] → IsDigits cs →
      IsExponent (mark :: (sign ++ cs))

inductive IsNumber : List Char → Prop where
  | mk {sign whole fraction exponent} :
      sign = [] ∨ sign = ['-'] → IsWhole whole → IsFraction fraction → IsExponent exponent →
      IsNumber (sign ++ (whole ++ (fraction ++ exponent)))

/-- A hexadecimal digit. -/
def IsHex (c : Char) : Prop :=
  ('0' ≤ c ∧ c ≤ '9') ∨ ('a' ≤ c ∧ c ≤ 'f') ∨ ('A' ≤ c ∧ c ≤ 'F')

/-- The characters that a backslash and themselves stand for. -/
def shortEscapes : List Char :=
  ['"', '\\', '/', 'b', 'f', 'n', 'r', 't']

/-- What stands between the quotes of a string. -/
inductive IsChars : List Char → Prop where
  | nil : IsChars []
  | plain {c cs} : c ≠ '"' → c ≠ '\\' → 0x20 ≤ c.toNat → IsChars cs → IsChars (c :: cs)
  | short {c cs} : c ∈ shortEscapes → IsChars cs → IsChars ('\\' :: c :: cs)
  | unicode {a b c d cs} :
      (∀ digit ∈ [a, b, c, d], IsHex digit) → IsChars cs →
      IsChars ('\\' :: 'u' :: a :: b :: c :: d :: cs)

mutual

inductive IsValue : List Char → Prop where
  | null : IsValue ['n', 'u', 'l', 'l']
  | true : IsValue ['t', 'r', 'u', 'e']
  | false : IsValue ['f', 'a', 'l', 's', 'e']
  | number {cs} : IsNumber cs → IsValue cs
  | string {cs} : IsChars cs → IsValue ('"' :: (cs ++ ['"']))
  | emptyArray {cs} : IsBlank cs → IsValue ('[' :: (cs ++ [']']))
  | array {cs} : IsElements cs → IsValue ('[' :: (cs ++ [']']))
  | emptyObject {cs} : IsBlank cs → IsValue ('\x7b' :: (cs ++ ['\x7d']))
  | object {cs} : IsMembers cs → IsValue ('\x7b' :: (cs ++ ['\x7d']))

/-- A value with blanks around it. -/
inductive IsElement : List Char → Prop where
  | mk {before value after} :
      IsBlank before → IsValue value → IsBlank after → IsElement (before ++ (value ++ after))

/-- Elements with commas between them. -/
inductive IsElements : List Char → Prop where
  | last {cs} : IsElement cs → IsElements cs
  | more {first cs} : IsElement first → IsElements cs → IsElements (first ++ ',' :: cs)

/-- A string, a colon and an element. -/
inductive IsMember : List Char → Prop where
  | mk {before key between cs} :
      IsBlank before → IsChars key → IsBlank between → IsElement cs →
      IsMember (before ++ '"' :: (key ++ '"' :: (between ++ ':' :: cs)))

/-- Members with commas between them. -/
inductive IsMembers : List Char → Prop where
  | last {cs} : IsMember cs → IsMembers cs
  | more {first cs} : IsMember first → IsMembers cs → IsMembers (first ++ ',' :: cs)

end

end RouterClient.Json.Grammar
