import RouterClient.Json.Path
import RouterClient.Json.Tree
import RouterClient.Table
import RouterClient.Text.Quoted

/-! # Decoding JSON into typed values

Decoders read a syntax tree from its start to its end and stop at the first thing that is wrong,
be it the text or what it says, with the path that leads there. A structure is written as an
object with its fields as members, or as a list of its fields; a choice as its name, or as an
object whose only member is its name with nothing in it.
-/

namespace RouterClient.Json

/-- What was found where something else was due. -/
inductive Found where
  | null
  | bool (b : Bool)
  | number (n : Number)
  | string (text : String)
  | sequence
  | map

def Found.message : Found → String
  | null => "null"
  | bool b => "boolean `" ++ (if b then "true" else "false") ++ "`"
  | number (.integer n) => "integer `" ++ toString n ++ "`"
  | number (.float x) => "floating point `" ++ Number.floatText x ++ "`"
  | string text => "string " ++ Text.quoted text
  | sequence => "sequence"
  | map => "map"

/-- What is wrong at a place of a document. -/
inductive Problem where
  | unreadable (fault : Fault)
  | wrongType (found : Found) (expected : String)
  | wrongLength (length : Nat) (expected : String)
  | unknownVariant (found : String) (known : List String)
  /-- A choice written as an object that has not exactly one member. -/
  | notOneVariant
  | missingField (name : String)
  | duplicateField (name : String)
  /-- A list or an object where a literal is due. -/
  | notAScalar

/-- The alternatives of a choice, in words. -/
def variantsText (known : List String) : String :=
  match known.map fun name => "`" ++ name ++ "`" with
  | [] => "there are no variants"
  | [only] => "expected " ++ only
  | [first, second] => "expected " ++ first ++ " or " ++ second
  | more => "expected one of " ++ ", ".intercalate more

def Problem.message : Problem → String
  | unreadable fault => fault.message
  | wrongType found expected => "invalid type: " ++ found.message ++ ", expected " ++ expected
  | wrongLength length expected =>
    "invalid length " ++ toString length ++ ", expected " ++ expected
  | unknownVariant found known => "unknown variant `" ++ found ++ "`, " ++ variantsText known
  | notOneVariant => "invalid value: map, expected map with a single key"
  | missingField name => "missing field `" ++ name ++ "`"
  | duplicateField name => "duplicate field `" ++ name ++ "`"
  | notAScalar => "literal must be a scalar"

/-- A problem and the place it is at. -/
structure Mistake where
  path : Path
  problem : Problem

/-- The mistake, seen from one step further out. -/
def Mistake.under (step : Step) (mistake : Mistake) : Mistake :=
  { mistake with path := step :: mistake.path }

/-- A decoded value, or the first mistake. -/
abbrev Decoded (α : Type) := Except Mistake α

/-- Whether a document is decoded while its text is read, or after that. -/
inductive Form where
  | text
  | value
  deriving DecidableEq, Repr

namespace Decode

/-- A problem right here. -/
def fail {α : Type} (problem : Problem) : Decoded α :=
  .error ⟨[], problem⟩

/-- A fault of the text right here. -/
def faulty {α : Type} (fault : Fault) : Decoded α :=
  fail (.unreadable fault)

/-- A fault of the text around a key. -/
def faultyKey {α : Type} (fault : Fault) : Decoded α :=
  .error ⟨[.unknown], .unreadable fault⟩

/-- What a step leads to. -/
def under {α : Type} (step : Step) (decoded : Decoded α) : Decoded α :=
  decoded.mapError (Mistake.under step)

/-- Something other than `expected` is found. A scalar is read to its end first, and a fault in
it comes before its type. -/
def mismatch {α : Type} (expected : String) : Tree → Decoded α
  | .null => fail (.wrongType .null expected)
  | .bool b => fail (.wrongType (.bool b) expected)
  | .number (.ok n) => fail (.wrongType (.number n) expected)
  | .number (.error fault) => faulty fault
  | .string (.ok text) => fail (.wrongType (.string text) expected)
  | .string (.error fault) => faulty fault
  | .array _ _ => fail (.wrongType .sequence expected)
  | .object _ _ => fail (.wrongType .map expected)
  | .absent => faulty .valueEnded
  | .brokenString strict _ => faulty strict
  | .broken strict _ => faulty strict

def bool : Tree → Decoded Bool
  | .bool b => .ok b
  | tree => mismatch "a boolean" tree

/-- A string, which messages call `expected`. -/
def stringAs (expected : String) : Tree → Decoded String
  | .string (.ok text) => .ok text
  | tree => mismatch expected tree

def string : Tree → Decoded String :=
  stringAs "a string"

def filePath : Tree → Decoded String :=
  stringAs "path string"

/-- A value that may be absent, which `null` says. -/
def option {α : Type} (decode : Tree → Decoded α) : Tree → Decoded (Option α)
  | .null => .ok none
  | tree => some <$> decode tree

/-- Nothing, which `null` says. -/
def unit : Tree → Decoded Unit
  | .null => .ok ()
  | tree => mismatch "unit" tree

/-- The levels that are left inside a list or an object, of `levels` around it. -/
def inside : (levels : Nat) → Decoded Nat
  | levels + 2 => .ok (levels + 1)
  | _ => faulty .tooDeep

/-- Items from position `i` on, each decoded at its place. -/
def items {α : Type} (decode : Tree → Decoded α) (i : Nat) : List Tree → Decoded (List α)
  | [] => .ok []
  | item :: more => do
    let first ← under (.index i) (decode item)
    let others ← items decode (i + 1) more
    return first :: others

/-- The end of a list all of whose items are wanted. -/
def listEnd (ending : ListEnding) : Decoded Unit :=
  match ending.strictFault? with
  | none => .ok ()
  | some fault => faulty fault

/-- A list whose items are decoded with the levels that are left. -/
def list {α : Type} (levels : Nat) (decode : Nat → Tree → Decoded α) : Tree → Decoded (List α)
  | .array trees ending => do
    let levels ← inside levels
    let found ← items (decode levels) 0 trees
    listEnd ending
    return found
  | tree => mismatch "a sequence" tree

/-- A key whose characters are wanted. -/
def key : Except Fault String → Decoded String
  | .ok name => .ok name
  | .error fault => faultyKey fault

/-- The end of an object whose last key is not lonely. -/
def objectEnd : ObjectEnding → Decoded Unit
  | .closed => .ok ()
  | .ended => faultyKey .objectEnded
  | .endedAfterComma => faultyKey .valueEnded
  | .trailingComma => faultyKey .trailingComma
  | .unseparated => faultyKey .objectUnseparated
  | .unquotedKey => faultyKey .keyNotAString
  | .brokenKey strict _ => faultyKey strict
  | .lonelyKey _ true => faulty .objectEnded
  | .lonelyKey _ false => faulty .colonMissing

/-- The end of an object all of whose keys are wanted. -/
def tableEnd (ending : ObjectEnding) : Decoded Unit := do
  if let .lonelyKey name _ := ending then
    let _ ← key name
  objectEnd ending

/-- Members, each decoded under its key and written into the table. -/
def entries {α : Type} (decode : Tree → Decoded α) (table : Table String α) :
    List (Except Fault String × Tree) → Decoded (Table String α)
  | [] => .ok table
  | (name, tree) :: more => do
    let name ← key name
    let value ← under (.key name) (decode tree)
    entries decode (table.insert name value) more

/-- A table whose values are decoded with the levels that are left. A key that is written again
gets a new value. -/
def table {α : Type} (levels : Nat) (decode : Nat → Tree → Decoded α) :
    Tree → Decoded (Table String α)
  | .object members ending => do
    let levels ← inside levels
    let found ← entries (decode levels) [] members
    tableEnd ending
    return found
  | tree => mismatch "a map" tree

mutual

/-- Any value, kept as it is. -/
def value (levels : Nat) : Tree → Decoded Value
  | .null => .ok .null
  | .bool b => .ok (.bool b)
  | .number (.ok n) => .ok (.number n)
  | .number (.error fault) => faulty fault
  | .string (.ok text) => .ok (.string text)
  | .string (.error fault) => faulty fault
  | .array trees ending => do
    let levels ← inside levels
    let found ← valueItems levels 0 trees
    listEnd ending
    return .array found
  | .object members ending => do
    let levels ← inside levels
    let found ← valueMembers levels [] members
    tableEnd ending
    return .object found
  | .absent => faulty .valueEnded
  | .brokenString strict _ => faulty strict
  | .broken strict _ => faulty strict

/-- `value`, over the items of a list from position `i` on. -/
def valueItems (levels i : Nat) : List Tree → Decoded (List Value)
  | [] => .ok []
  | item :: more => do
    let first ← under (.index i) (value levels item)
    let others ← valueItems levels (i + 1) more
    return first :: others

/-- `value`, over the members of an object. -/
def valueMembers (levels : Nat) (found : Table String Value) :
    List (Except Fault String × Tree) → Decoded (Table String Value)
  | [] => .ok found
  | (name, tree) :: more => do
    let name ← key name
    let first ← under (.key name) (value levels tree)
    valueMembers levels (found.insert name first) more

end

/-- One field of a structure `σ`. -/
structure FieldRule (σ : Type) where
  name : String
  /-- Whether an object must have the field. -/
  required : Bool := false
  /-- Whether a list may end before the field. -/
  trailing : Bool := true
  /-- Decode the field, with the levels that are left, into the structure. -/
  decode : Nat → Tree → σ → Decoded σ

/-- A field whose value `set` writes into the structure. -/
def FieldRule.of {σ α : Type} (name : String) (decode : Nat → Tree → Decoded α)
    (set : σ → α → σ) : FieldRule σ where
  name := name
  decode levels tree start := set start <$> decode levels tree

/-- The same field, which a list must not leave out. -/
def FieldRule.kept {σ : Type} (field : FieldRule σ) : FieldRule σ :=
  { field with trailing := false }

/-- The same field, which nothing stands in for. -/
def FieldRule.needed {σ : Type} (field : FieldRule σ) : FieldRule σ :=
  { field with required := true, trailing := false }

/-- The field that a key names, unless the key has been met before. -/
def fieldOf? {σ : Type} (fields : List (FieldRule σ)) (seen : List String) (name : String) :
    Decoded (Option (FieldRule σ)) :=
  match fields.find? (·.name == name) with
  | none => .ok none
  | some field => if seen.contains name then fail (.duplicateField name) else .ok (some field)

/-- Members of a structure after the fields `seen`. What no field names is passed over. -/
def members {σ : Type} (fields : List (FieldRule σ)) (levels : Nat) (seen : List String)
    (start : σ) : List (Except Fault String × Tree) → Decoded (List String × σ)
  | [] => .ok (seen, start)
  | (name, tree) :: more => do
    let name ← key name
    match ← fieldOf? fields seen name with
    | none =>
      match tree.looseFault? with
      | some fault => under (.key name) (faulty fault)
      | none => members fields levels seen start more
    | some field =>
      let next ← under (.key name) (field.decode levels tree start)
      members fields levels (name :: seen) next more

/-- The end of a structure written as an object. -/
def membersEnd {σ : Type} (fields : List (FieldRule σ)) (seen : List String)
    (ending : ObjectEnding) : Decoded Unit := do
  if let .lonelyKey name _ := ending then
    let _ ← fieldOf? fields seen (← key name)
  objectEnd ending
  match fields.find? fun field => field.required && !seen.contains field.name with
  | some field => fail (.missingField field.name)
  | none => .ok ()

/-- The end of a structure written as a list, after all its fields; `count` items are written. -/
def elementsEnd (form : Form) (count : Nat) (left : List Tree) (ending : ListEnding) :
    Decoded Unit :=
  match form with
  | .value =>
    if left.isEmpty then .ok () else fail (.wrongLength count "fewer elements in array")
  | .text =>
    if !left.isEmpty then faulty .trailingItems
    else match ending with
      | .closed => .ok ()
      | .ended => faulty .listEnded
      | .trailingComma => faulty .trailingComma
      | .endedAfterComma | .unseparated => faulty .trailingItems

/-- Fields of a structure written as a list, from the field at position `i` on. -/
def elements {σ : Type} (form : Form) (whole : String) (count levels i : Nat)
    (ending : ListEnding) (start : σ) : List (FieldRule σ) → List Tree → Decoded σ
  | [], left => do
    elementsEnd form count left ending
    return start
  | field :: fields, [] => do
    listEnd ending
    if field.trailing then elements form whole count levels (i + 1) ending start fields []
    else fail (.wrongLength i whole)
  | field :: fields, tree :: more => do
    let next ← under (.index i) (field.decode levels tree start)
    elements form whole count levels (i + 1) ending next fields more

/-- A structure that messages call `name`; a field that is not written keeps what `start` has. -/
def record {σ : Type} (name : String) (fields : List (FieldRule σ)) (start : σ) (form : Form)
    (levels : Nat) : Tree → Decoded σ
  | .object written ending => do
    let levels ← inside levels
    let (seen, found) ← members fields levels [] start written
    membersEnd fields seen ending
    return found
  | .array trees ending => do
    let levels ← inside levels
    let whole := "struct " ++ name ++ " with " ++ toString fields.length ++ " elements"
    elements form whole trees.length levels 0 ending start fields trees
  | tree => mismatch ("struct " ++ name) tree

/-- The variant that a name stands for. -/
def variant {α : Type} (variants : List (String × α)) (name : String) : Decoded α :=
  match variants.lookup name with
  | some found => .ok found
  | none => fail (.unknownVariant name (variants.map Prod.fst))

/-- A choice whose text starts with a brace. -/
def bracedVariant {α : Type} (variants : List (String × α)) (ending : ObjectEnding) :
    List (Except Fault String × Tree) → Decoded α
  | [] =>
    match ending with
    | .ended => faulty .objectEnded
    | .unquotedKey => faulty .keyNotAString
    | .brokenKey strict _ => faulty strict
    | .lonelyKey (.error fault) _ => faulty fault
    | .lonelyKey (.ok name) ended => do
      let _ ← variant variants name
      faulty (if ended then .objectEnded else .colonMissing)
    | _ => faulty .notAValue
  | (.error fault, _) :: _ => faulty fault
  | (.ok name, content) :: more => do
    let found ← variant variants name
    under (.key name) (unit content)
    match more, ending with
    | [], .closed => return found
    | [], .ended => faulty .objectEnded
    | _, _ => faulty .notAValue

/-- A choice, while its text is read. -/
def choiceOfText {α : Type} (variants : List (String × α)) (levels : Nat) : Tree → Decoded α
  | .string (.ok name) => variant variants name
  | .string (.error fault) => faulty fault
  | .brokenString strict _ => faulty strict
  | .absent => faulty .valueEnded
  | .object members ending => do
    let _ ← inside levels
    bracedVariant variants ending members
  | _ => faulty .notAValue

/-- A choice that has been read. -/
def choiceOfValue {α : Type} (variants : List (String × α)) : Tree → Decoded α
  | .string (.ok name) => variant variants name
  | .object [(.ok name, content)] _ => do
    let found ← variant variants name
    under (.key name) (unit content)
    return found
  | .object _ _ => fail .notOneVariant
  | tree => mismatch "string or map" tree

/-- A choice between named variants. -/
def choice {α : Type} (variants : List (String × α)) (form : Form) (levels : Nat)
    (tree : Tree) : Decoded α :=
  match form with
  | .text => choiceOfText variants levels tree
  | .value => choiceOfValue variants tree

/-- Lists and objects may stand one inside the other 127 deep in a text. -/
def textLevels : Nat := 128

/-- Decode a document while its text is read. -/
def ofText {α : Type} (decode : Form → Nat → Tree → Decoded α) (text : String) : Decoded α :=
  decode .text textLevels (Tree.ofText text)

/-- Decode a document that has been read. -/
def ofValue {α : Type} (decode : Form → Nat → Tree → Decoded α) (value : Value) : Decoded α :=
  let tree := Tree.ofValue value
  decode .value (tree.depth + 1) tree

end Decode

end RouterClient.Json
