import RouterClient.Client.Assembly
import RouterClient.Proofs.Code.Sections

/-! # The runtime text of a client

A file is the runtime text and then the declarations of the client, with a blank line in between.  No
declaration starts with a brace, so a runtime text that comes back to level zero is laid out on its own, and
the declarations are laid out in one way below all such texts.
-/

namespace RouterClient.Code

open Model (LocalModel)

/-- What is declared starts with its access or with a word. -/
theorem fronts_declared (access : Access) {word : String} (front : fronts word.toList = true)
    (rest : String) : fronts (access.modifier ++ (word ++ rest)).toList = true := by
  have started := fronts_append front rest.toList
  cases access with
  | internal => simpa [Access.modifier, String.toList_append] using started
  | published =>
      rw [String.toList_append]
      exact fronts_append (by decide) _

/-- Lines start as the first of them does. -/
theorem fronts_text {line : String} (front : fronts line.toList = true) (more : Lines) :
    fronts (Lines.text (line :: more)).toList = true := by
  have written : (Lines.text (line :: more)).toList = line.toList ++ '\n' :: more.text.toList := by
    simp [Lines.text, String.join_cons, String.toList_append]
  rw [written]
  exact fronts_append front _

theorem fronts_text_append {lines : Lines} (front : fronts lines.text.toList = true) (more : Lines) :
    fronts (lines ++ more).text.toList = true := by
  rw [Lines.text_append, String.toList_append]
  exact fronts_append front _

/-- A doc comment starts with its slashes, so what starts well does so below one. -/
theorem fronts_described (description : Option String) {lines : Lines}
    (front : fronts lines.text.toList = true) :
    fronts (docComment? description ++ lines).text.toList = true := by
  cases commented : docComment? description with
  | nil => exact front
  | cons first more =>
      refine fronts_text_append (fronts_text ?_ more) lines
      have listed : first ∈ docComment? description := by simp [commented]
      cases description with
      | none => cases listed
      | some text =>
          obtain ⟨line, _, rfl⟩ := List.mem_map.mp listed
          rw [String.toList_append]
          exact fronts_append (by decide) _

theorem fronts_block {head : String} (front : fronts head.toList = true) (body : Lines) :
    fronts (Lines.block head body).text.toList = true := by
  refine fronts_text_append (fronts_text ?_ body) ["\x7d"]
  rw [String.toList_append]
  exact fronts_append front _

theorem Declaration.fronts_lines (declaration : Declaration) :
    fronts declaration.lines.text.toList = true := by
  cases declaration with
  | record | choice =>
      rw [lines]
      refine fronts_described _ (fronts_block ?_ _)
      simp only [Heading.structLine, Heading.declare, String.append_assoc]
      exact fronts_declared _ (by decide) _
  | enumeration =>
      rw [lines]
      refine fronts_described _ (fronts_block ?_ _)
      simp only [Heading.enumLine, Heading.declare, String.append_assoc]
      exact fronts_declared _ (by decide) _

theorem RouteClass.fronts_lines (style : Style) (depth : Nat) (cls : RouteClass) :
    fronts (cls.lines style depth).text.toList = true := by
  cases cls with
  | mk name segment models methods children =>
      unfold lines
      refine fronts_block ?_ _
      simp only [String.append_assoc]
      exact fronts_declared _ (by decide) _

end RouterClient.Code

namespace RouterClient.Client

open Code (closesBlock endLevel fronts fronts_declared fronts_text fronts_text_append indent opensBlock
  parting trimmedLines written)

section

variable (settings : Settings)

/-- A client starts with a global model, an alias or its root class. -/
theorem fronts_lines (client : Client) : fronts (client.lines settings).text.toList = true := by
  simp only [lines]
  cases client.globals.definitions with
  | cons definition more =>
      refine fronts_text_append (fronts_text_append ?_ _) _
      rw [List.flatMap_cons]
      exact fronts_text_append (fronts_text_append definition.fronts_lines _) _
  | nil =>
      rw [List.flatMap_nil, List.nil_append]
      cases named : client.aliases with
      | nil =>
          simp only [aliasLines, named, List.map_nil, List.isEmpty_nil, if_pos, List.nil_append]
          exact client.root.fronts_lines _ _
      | cons entry more =>
          simp only [aliasLines, named, List.map_cons, List.isEmpty_cons, if_neg Bool.false_ne_true]
          refine fronts_text_append (fronts_text_append (fronts_text ?_ _) _) _
          simp only [Alias.line, String.append_assoc]
          exact fronts_declared _ (by decide) _

/-- Whether there is a client does not depend on the runtime text, nor do its declarations or their layout. -/
theorem generate_below (document : Document) (router : String) {template : String}
    (returned : endLevel template = 0) :
    generate settings document router template =
      (ofDocument settings document router).map fun client =>
        { source := indent template ++ parting template ++ indent (client.lines settings).text
          diagnostics := client.diagnostics } := by
  have file (client : Client) : client.generation settings template =
      { source := indent template ++ parting template ++ indent (client.lines settings).text
        diagnostics := client.diagnostics } := by
    obtain ⟨line, front, closes⟩ := Code.closesBlock_of_fronts (client.fronts_lines settings)
    rw [generation, Code.indent_section returned front closes]
  simp only [generate, file]

end

/-- Two sections of a text with a blank line in between are laid out one by one, where the first comes back to
level zero and no brace is in the way of the blank line.  So a runtime text that comes back to level zero and
is its own layout stands at the start of a file as it is, and below all such texts the declarations of a client
are laid out as in a file of their own. -/
theorem laid_out_by_sections :
    (∀ (above below : String) (last first : List Char),
      (written (trimmedLines above)).getLast? = some last →
      (written (trimmedLines below)).head? = some first →
      endLevel above = 0 → opensBlock last = false → closesBlock first = false →
      indent (above ++ "\n\n" ++ below) = indent above ++ "\n" ++ indent below) ∧
    ∀ settings document router template, endLevel template = 0 → indent template = template →
      generate settings document router template =
        (ofDocument settings document router).map fun client =>
          { source := template ++ parting template ++ indent (client.lines settings).text
            diagnostics := client.diagnostics } := by
  constructor
  · intro above below last first ending front returned opens closes
    have parted : parting above = "\n" := by simp [parting, ending, opens]
    rw [Code.indent_section returned front closes, parted]
  · intro settings document router template returned laid
    rw [generate_below settings document router returned, laid]

/-- A router with one procedure that takes and gives nothing. -/
def pingDocument : Document where
  routers := [("app", [("ping", { kind := .query })])]

/-- Blank lines on either side come down to one between two sections, and a client stands below an import. -/
theorem ping_below_import :
    indent ("f \x7b\n\x7d\n\n" ++ "\n\n" ++ "\n\tb") = indent "f \x7b\n\x7d\n\n" ++ "\n" ++ indent "\n\tb" ∧
    endLevel "import Foundation\n" = 0 ∧ indent "import Foundation\n" = "import Foundation\n" ∧
    ∃ client, ofDocument {} pingDocument "app" = .ok client ∧
      generate {} pingDocument "app" "import Foundation\n" =
        .ok { source := "import Foundation\n" ++ "\n" ++ indent (client.lines {}).text
              diagnostics := client.diagnostics } := by
  have apart := laid_out_by_sections.1 "f \x7b\n\x7d\n\n" "\n\tb" ['\x7d'] ['b'] (by decide) (by decide)
    (by decide) (by decide) (by decide)
  have laid : indent "import Foundation\n" = "import Foundation\n" := by decide
  have file := laid_out_by_sections.2 {} pingDocument "app" "import Foundation\n" (by decide) laid
  have parted : parting "import Foundation\n" = "\n" := by decide
  have found : pingDocument.router "app" = .ok [("ping", { kind := .query })] := rfl
  have built : Route.Tree.ofProcedures [("ping", { kind := .query })] =
      .ok [("ping", .procedure { kind := .query })] := rfl
  obtain ⟨client, assembled⟩ : ∃ client,
      assemble {} {} "app" [("ping", .procedure { kind := .query })] [] = .ok client := by
    simp only [assemble, assembleRoot, addEntries]
    exact ⟨_, rfl⟩
  have made : ofDocument {} pingDocument "app" = .ok client := by
    simp only [ofDocument, found, built, Except.mapError, bind, Except.bind]
    exact assembled
  rw [made, parted] at file
  exact ⟨apart, by decide, laid, client, made, file⟩

end RouterClient.Client
