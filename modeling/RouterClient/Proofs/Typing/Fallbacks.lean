import RouterClient.Proofs.Code.CamelCase
import RouterClient.Typing.Node

/-! # Names that are made up

A model that nobody has named is called after a text that goes with the site where its type is wanted.  For a
field this is its key, formatted as the name of a type, and what gives the model its name formats the text
again.  Names are a normal form, so that the second formatting never shows: typing is the same with a text
and with the name that it makes.
-/

namespace RouterClient.Typing

open Schema (NodeId Graph)
open Code (Admissible IsCamel alternativeName? camelize memberName reservedMembers reservedTypes spelling
  typeName typeName_typeName)

/-- The same site with another text for a model that nobody has named. -/
def Site.calling (site : Site) (fallback : String) : Site :=
  { site with fallback }

section

variable (graph : Graph) (settings : Settings) {typer : Typer} (id : NodeId) (site : Site) (key : String)

@[simp] theorem Site.fallback_calling : (site.calling key).fallback = key := rfl

@[simp] theorem Site.declared_calling : (site.calling key).declared = site.declared := rfl

@[simp] theorem Site.marked_calling : (site.calling key).marked = site.marked := rfl

@[simp] theorem Site.descend_calling (marked : Bool) (declared : Option NodeId) :
    (site.calling key).descend marked declared = (site.descend marked declared).calling key := rfl

theorem proposedName_calling :
    proposedName graph id (site.calling (typeName key)) = proposedName graph id (site.calling key) := by
  simp only [proposedName, Site.declared_calling]
  cases (graph.label id).name.or ((site.declared.map graph.label).bind Schema.Label.name) with
  | none => exact typeName_typeName key
  | some given => simp only [Option.getD_some]

/-- The field of an object hands its key on as the name of a type, and a model that nobody has named is
called just so. -/
theorem proposedName_field (name : String) (depth : Nat) (field : String × NodeId) :
    proposedName graph field.2 (fieldMember graph settings name depth field).site =
      typeName ((graph.label field.2).name.getD field.1) := by
  let site := Site.member depth false field.1
  have undeclared : (site.calling field.1).declared = none := rfl
  -- The site of the field is that of its key, but for the formatting.
  calc proposedName graph field.2 (site.calling (typeName field.1))
      = proposedName graph field.2 (site.calling field.1) :=
        proposedName_calling graph field.2 site field.1
    _ = typeName ((graph.label field.2).name.getD field.1) := by
        simp only [proposedName, undeclared, Option.map_none, Option.bind_none, Option.or_none,
          Site.fallback_calling]

theorem typeNominal_calling :
    typeNominal graph settings typer id (site.calling (typeName key)) =
      typeNominal graph settings typer id (site.calling key) := by
  simp only [typeNominal, proposedName_calling]
  rfl

/-- Only the name of a nominal node is made from the text, and all other nodes hand it on. -/
theorem typeNode_calling
    (below : ∀ id (site : Site), typer id (site.calling (typeName key)) = typer id (site.calling key)) :
    typeNode graph settings typer id (site.calling (typeName key)) =
      typeNode graph settings typer id (site.calling key) := by
  cases kind : graph.kind id with
  | primitive | empty | unsupported => simp only [typeNode, kind]
  | optional | nullable =>
      simp only [typeNode, kind, typeOptional, Site.declared_calling, Site.marked_calling,
        Site.descend_calling, below]
  | collection arrangement element =>
      simp only [typeNode, kind, typeCollection, Site.declared_calling, Site.descend_calling, below]
  | transform inner =>
      simp only [typeNode, kind, Site.declared_calling, Site.marked_calling, Site.descend_calling,
        below]
  | object | enumeration | literal | union =>
      simp only [typeNode, kind]
      exact typeNominal_calling graph settings id site key

theorem typeWithin_calling (budget : Nat) :
    typeWithin graph settings budget id (site.calling (typeName key)) =
      typeWithin graph settings budget id (site.calling key) := by
  induction budget generalizing id site with
  | zero => rfl
  | succ budget ih => simp only [typeWithin, typeNode_calling graph settings id site key ih]

end

/-- Camel case is a normal form.  It has letters, digits and underscores, none of which stands before a
letter or another one; every text of that form is its own camel case; and it spells what the text spells.  The
name of a type is its own name, so that a text for models that nobody has named may be formatted in advance,
as the fields of an object have it.  Whatever texts names are made from, they are identifiers, and none that
is reserved where the name stands. -/
theorem names_canonical (graph : Graph) (settings : Settings) :
    (∀ cs : List Char,
      IsCamel (camelize cs) ∧ (camelize cs = cs ↔ IsCamel cs) ∧ camelize (camelize cs) = camelize cs ∧
        spelling (camelize cs) = spelling cs) ∧
    (∀ text, typeName (typeName text) = typeName text) ∧
    (∀ name depth field,
      proposedName graph field.2 (fieldMember graph settings name depth field).site =
        typeName ((graph.label field.2).name.getD field.1)) ∧
    (∀ budget id (site : Site) key,
      typeWithin graph settings budget id (site.calling (typeName key)) =
        typeWithin graph settings budget id (site.calling key)) ∧
    ∀ text, Admissible reservedTypes (typeName text) ∧ Admissible reservedMembers (memberName text) ∧
      ∀ name, alternativeName? text = some name → Admissible reservedMembers name := by
  refine ⟨fun cs => ⟨Code.camel_isCamel false cs, Code.camelize_eq_self_iff, Code.camelize_camelize cs,
    Code.spelling_camel false cs⟩, typeName_typeName, ?_, ?_, fun text => ?_⟩
  · exact fun name depth field => proposedName_field graph settings name depth field
  · exact fun budget id site key => typeWithin_calling graph settings id site key budget
  · exact ⟨Code.typeName_admissible text, Code.memberName_admissible text,
      fun _ => Code.alternativeName?_admissible⟩

/-- A union that holds a model called `Self` calls its property after a name that is reserved in small
letters as well. -/
theorem names_canonical_self :
    alternativeName? "Self" = some "_self" ∧ Admissible reservedMembers "_self" := by
  have given : alternativeName? "Self" = some "_self" := by decide
  exact ⟨given, ((names_canonical {} {}).2.2.2.2 "Self").2.2 "_self" given⟩

end RouterClient.Typing
