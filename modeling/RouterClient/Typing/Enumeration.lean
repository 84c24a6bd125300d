import RouterClient.Schema.Graph
import RouterClient.Code.Declaration

/-! # Enums

An enumeration, or a single literal, is declared as an enum with one case for each of its string
values. Labels are formatted like members, so two values may come to the same label; the later one
is numbered.
-/

namespace RouterClient.Typing

open Schema (Literal)
open Code (Declaration EnumCase memberName)

/-- The first of `base` with the numbers from `number` on that is not taken, in some tries. -/
def numbered (taken : List String) (base : String) : (tries number : Nat) → String
  | 0, number => base ++ toString number
  | tries + 1, number =>
    let label := base ++ toString number
    if taken.contains label then numbered taken base tries (number + 1) else label

/-- `base`, or the first of its numbered forms that is not taken. -/
def freeLabel (taken : List String) (base : String) : String :=
  if taken.contains base then numbered taken base taken.length 2 else base

/-- What a label is made from: the member name of a value, or the value's position where that is
a bare underscore. -/
def labelBase (position : Nat) (raw : String) : String :=
  let name := memberName raw
  if name = "_" then "value" ++ toString position else name

/-- The labels of values from a position on, after the labels `taken`. -/
def labelsFrom (taken : List String) (position : Nat) : List String → List String
  | [] => []
  | raw :: more =>
    let label := freeLabel taken (labelBase position raw)
    label :: labelsFrom (label :: taken) (position + 1) more

/-- One case label for each value, in order. -/
def caseLabels (raws : List String) : List String :=
  labelsFrom [] 1 raws

/-- The string values among some literals, each at its first place. -/
def stringValues (values : List Literal) : List String :=
  (values.filterMap Literal.string?).foldl
    (fun found raw => if found.contains raw then found else found ++ [raw]) []

/-- The declaration of an enumeration; none when no value is a string. -/
def declareEnum (settings : Settings) (name : String) (description : Option String)
    (values : List Literal) : Option Declaration :=
  let raws := stringValues values
  if raws.isEmpty then none
  else
    let heading :=
      { access := settings.access, name, conformance := settings.enumClause, description }
    some (.enumeration heading (List.zipWith EnumCase.mk (caseLabels raws) raws))

end RouterClient.Typing
