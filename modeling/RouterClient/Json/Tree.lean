import RouterClient.Json.Scan
import RouterClient.Json.Value

/-! # Syntax trees of JSON texts

The tree of a text goes as far as the text can be read and marks the place where it cannot. What
is wrong with a text depends on how it is read: a part whose value is wanted is read strictly, a
part that is passed over is read loosely. So a tree keeps both answers, and every reader of the
tree meets the faults in the order in which they stand in the text.
-/

namespace RouterClient.Json

/-- What ends a list. -/
inductive ListEnding where
  | closed
  /-- The text, after an item or the opening bracket. -/
  | ended
  /-- The text, after a comma. -/
  | endedAfterComma
  /-- A bracket after a comma. -/
  | trailingComma
  /-- Something that is neither a comma nor a bracket. -/
  | unseparated
  deriving DecidableEq, Repr

/-- What ends an object. -/
inductive ObjectEnding where
  | closed
  /-- The text, after a member or the opening brace. -/
  | ended
  /-- The text, after a comma. -/
  | endedAfterComma
  /-- A brace after a comma. -/
  | trailingComma
  /-- Something that is neither a comma nor a brace. -/
  | unseparated
  /-- A key that is no string. -/
  | unquotedKey
  /-- A key that cannot be read, strictly or loosely. -/
  | brokenKey (strict loose : Fault)
  /-- A key that no colon follows; `ended` says that nothing does. -/
  | lonelyKey (key : Except Fault String) (ended : Bool)

/-- The tree of a JSON text, as far as the text can be read. -/
inductive Tree where
  | null
  | bool (b : Bool)
  /-- A number, or why its value cannot be kept. -/
  | number (n : Except Fault Number)
  /-- A string, or why its characters cannot be kept. -/
  | string (text : Except Fault String)
  | array (items : List Tree) (ending : ListEnding)
  | object (members : List (Except Fault String × Tree)) (ending : ObjectEnding)
  /-- The end of the text, where a value is due. -/
  | absent
  /-- A string that cannot be read, strictly or loosely. Nothing is read after it. -/
  | brokenString (strict loose : Fault)
  /-- Anything else that cannot be read. Nothing is read after it. -/
  | broken (strict loose : Fault)

/-- The fault in a list's ending for a strict reader. -/
def ListEnding.strictFault? : ListEnding → Option Fault
  | closed => none
  | ended => some .listEnded
  | endedAfterComma => some .valueEnded
  | trailingComma => some .trailingComma
  | unseparated => some .listUnseparated

/-- The fault in a list's ending for a loose reader. -/
def ListEnding.looseFault? : ListEnding → Option Fault
  | closed => none
  | ended => some .listEnded
  | endedAfterComma => some .valueEnded
  | trailingComma => some .notAValue
  | unseparated => some .listUnseparated

/-- The fault in an object's ending for a loose reader. -/
def ObjectEnding.looseFault? : ObjectEnding → Option Fault
  | closed => none
  | ended => some .objectEnded
  | endedAfterComma => some .objectEnded
  | trailingComma => some .keyNotAString
  | unseparated => some .objectUnseparated
  | unquotedKey => some .keyNotAString
  | brokenKey _ loose => some loose
  | lonelyKey _ true => some .objectEnded
  | lonelyKey _ false => some .colonMissing

namespace Tree

mutual

/-- The first fault that a loose reader meets. -/
def looseFault? : Tree → Option Fault
  | null | bool _ | number _ | string _ => none
  | array items ending => (itemsFault? items).or ending.looseFault?
  | object members ending => (membersFault? members).or ending.looseFault?
  | absent => some .valueEnded
  | brokenString _ loose => some loose
  | broken _ loose => some loose

def itemsFault? : List Tree → Option Fault
  | [] => none
  | item :: more => item.looseFault?.or (itemsFault? more)

def membersFault? : List (Except Fault String × Tree) → Option Fault
  | [] => none
  | (_, value) :: more => value.looseFault?.or (membersFault? more)

end

/-- What has been read, and what is left of a text of `n` characters unless it broke off. -/
structure Reading (α : Type) (n : Nat) where
  result : α
  rest : Option (Rest n)

/-- A reading of a shorter text, with more around its result. -/
def Reading.within {α β : Type} {m n : Nat} (reading : Reading α m) (wrap : α → β) (h : m ≤ n) :
    Reading β n :=
  ⟨wrap reading.result, reading.rest.map (·.widen h)⟩

/-- A word that stands for a tree. -/
def readWord (word : List Char) (tree : Tree) (cs : List Char) (n : Nat) (h : cs.length < n) :
    Reading Tree n :=
  match scanWord word cs with
  | .ok rest => ⟨tree, some ⟨rest.1, Nat.lt_of_le_of_lt rest.2 h⟩⟩
  | .error fault => ⟨broken fault fault, none⟩

/-- A number. A loose reader tells a number that breaks off from a malformed one no more. -/
def readNumber (cs : List Char) (n : Nat) (h : cs.length ≤ n) : Reading Tree n :=
  match scanNumeral cs with
  | .ok (numeral, rest) =>
    let kept := match numeral.value? with
      | some value => .ok value
      | none => .error .numberTooLarge
    ⟨number kept, some (rest.widen h)⟩
  | .error fault => ⟨broken fault .malformedNumber, none⟩

/-- A string after its opening quote: its characters, and what is left for a loose reader. -/
def readString (cs : List Char) :
    Except (Fault × Fault) (Except Fault String × Rest (cs.length + 1)) :=
  let kept := scanString true (cs.length + 1) [] cs (length_le_succ cs)
  match scanString false (cs.length + 1) [] cs (length_le_succ cs), kept with
  | .ok (_, rest), .ok (text, _) => .ok (.ok text, rest)
  | .ok (_, rest), .error fault => .ok (.error fault, rest)
  | .error loose, .error strict => .error (strict, loose)
  | .error loose, .ok _ => .error (loose, loose)

mutual

/-- The value in front of a text. -/
def read (cs : List Char) : Reading Tree cs.length :=
  match h : skipBlank cs with
  | [] => ⟨absent, none⟩
  | c :: after =>
    have shorter : after.length < cs.length := length_lt_of_skipBlank h
    if c = 'n' then readWord ['u', 'l', 'l'] null after _ shorter
    else if c = 't' then readWord ['r', 'u', 'e'] (bool true) after _ shorter
    else if c = 'f' then readWord ['a', 'l', 's', 'e'] (bool false) after _ shorter
    else if c = '-' ∨ c.isDigit then
      readNumber (c :: after) _ (by simp only [List.length_cons]; omega)
    else if c = '"' then
      match readString after with
      | .ok (text, rest) => ⟨string text, some (rest.widen shorter)⟩
      | .error (strict, loose) => ⟨brokenString strict loose, none⟩
    else if c = '[' then
      match hs : skipBlank after with
      | [] => ⟨array [] .ended, none⟩
      | next :: rest =>
        have := length_lt_of_skipBlank hs
        if next = ']' then ⟨array [] .closed, some ⟨rest, by omega⟩⟩
        else (readItems after).within (fun (items, ending) => array items ending) (by omega)
    else if c = '\x7b' then
      match hs : skipBlank after with
      | [] => ⟨object [] .ended, none⟩
      | next :: rest =>
        have := length_lt_of_skipBlank hs
        if next = '\x7d' then ⟨object [] .closed, some ⟨rest, by omega⟩⟩
        else (readMembers after).within (fun (members, ending) => object members ending) (by omega)
    else ⟨broken .notAValue .notAValue, none⟩
termination_by (cs.length, 0)

/-- The items of a list, of which there is at least one, and what ends them. -/
def readItems (cs : List Char) : Reading (List Tree × ListEnding) cs.length :=
  match read cs with
  | ⟨item, none⟩ => ⟨([item], .ended), none⟩
  | ⟨item, some after⟩ =>
    have shorter := after.2
    match hs : skipBlank after.1 with
    | [] => ⟨([item], .ended), none⟩
    | c :: rest =>
      have fewer : rest.length < cs.length := Nat.lt_trans (length_lt_of_skipBlank hs) shorter
      if c = ']' then ⟨([item], .closed), some ⟨rest, fewer⟩⟩
      else if c = ',' then
        match skipBlank rest with
        | [] => ⟨([item], .endedAfterComma), none⟩
        | next :: _ =>
          if next = ']' then ⟨([item], .trailingComma), none⟩
          else
            (readItems rest).within (fun (items, ending) => (item :: items, ending))
              (Nat.le_of_lt fewer)
      else ⟨([item], .unseparated), none⟩
termination_by (cs.length, 1)

/-- The members of an object, from where a key is due, and what ends them. -/
def readMembers (cs : List Char) :
    Reading (List (Except Fault String × Tree) × ObjectEnding) cs.length :=
  match hk : skipBlank cs with
  | [] => ⟨([], .endedAfterComma), none⟩
  | c :: afterQuote =>
    have := length_lt_of_skipBlank hk
    if c ≠ '"' then ⟨([], .unquotedKey), none⟩
    else
      match readString afterQuote with
      | .error (strict, loose) => ⟨([], .brokenKey strict loose), none⟩
      | .ok (key, afterKey) =>
        have := afterKey.2
        match hc : skipBlank afterKey.1 with
        | [] => ⟨([], .lonelyKey key true), none⟩
        | c :: afterColon =>
          have := length_lt_of_skipBlank hc
          if c ≠ ':' then ⟨([], .lonelyKey key false), none⟩
          else
            match read afterColon with
            | ⟨value, none⟩ => ⟨([(key, value)], .ended), none⟩
            | ⟨value, some afterValue⟩ =>
              have := afterValue.2
              match hs : skipBlank afterValue.1 with
              | [] => ⟨([(key, value)], .ended), none⟩
              | c :: rest =>
                have := length_lt_of_skipBlank hs
                if c = '\x7d' then ⟨([(key, value)], .closed), some ⟨rest, by omega⟩⟩
                else if c = ',' then
                  match skipBlank rest with
                  | [] => ⟨([(key, value)], .endedAfterComma), none⟩
                  | next :: _ =>
                    if next = '\x7d' then ⟨([(key, value)], .trailingComma), none⟩
                    else
                      (readMembers rest).within
                        (fun (members, ending) => ((key, value) :: members, ending)) (by omega)
                else ⟨([(key, value)], .unseparated), none⟩
termination_by (cs.length, 1)

end

/-- The tree of the first value in a text. What follows that value is not looked at. -/
def ofText (text : String) : Tree :=
  (read text.toList).result

mutual

/-- The tree of a value: of a text that has no fault. -/
def ofValue : Value → Tree
  | .null => null
  | .bool b => bool b
  | .number n => number (.ok n)
  | .string text => string (.ok text)
  | .array items => array (ofItems items) .closed
  | .object members => object (ofMembers members) .closed

def ofItems : List Value → List Tree
  | [] => []
  | item :: more => ofValue item :: ofItems more

def ofMembers : List (String × Value) → List (Except Fault String × Tree)
  | [] => []
  | (key, value) :: more => (.ok key, ofValue value) :: ofMembers more

end

mutual

/-- How many lists and objects stand one inside the other. -/
def depth : Tree → Nat
  | array items _ => itemsDepth items + 1
  | object members _ => membersDepth members + 1
  | _ => 0

def itemsDepth : List Tree → Nat
  | [] => 0
  | item :: more => max item.depth (itemsDepth more)

def membersDepth : List (Except Fault String × Tree) → Nat
  | [] => 0
  | (_, value) :: more => max value.depth (membersDepth more)

end

end Tree

end RouterClient.Json
