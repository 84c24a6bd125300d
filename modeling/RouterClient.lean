import RouterClient.Main
import RouterClient.Proofs.Typing.Rules
import RouterClient.Proofs.Typing.Following
import RouterClient.Proofs.Typing.Budget
import RouterClient.Proofs.Typing.ScopeEffect
import RouterClient.Proofs.Typing.Registry
import RouterClient.Proofs.Typing.Passages
import RouterClient.Proofs.Typing.Depth
import RouterClient.Proofs.Typing.Containment
import RouterClient.Proofs.Code.Bodies
import RouterClient.Proofs.Typing.Drafts
import RouterClient.Proofs.Typing.Mentions
import RouterClient.Proofs.Typing.Hygiene
import RouterClient.Proofs.Client.Rules
import RouterClient.Proofs.Client.InStep
import RouterClient.Proofs.Client.Containment
import RouterClient.Proofs.Client.Ledger
import RouterClient.Proofs.Client.Hygiene
import RouterClient.Proofs.Route.Insertion
import RouterClient.Proofs.Route.Nesting
import RouterClient.Proofs.Code.Address
import RouterClient.Proofs.Client.Address
import RouterClient.Proofs.Code.UnionCodec
import RouterClient.Proofs.Typing.Union
import RouterClient.Proofs.Document.Occurrences
import RouterClient.Proofs.Document.Laying
import RouterClient.Proofs.Document.Decoding
import RouterClient.Proofs.Document.Definitions
import RouterClient.Proofs.Document.Routers
import RouterClient.Proofs.Document.Faithful
import RouterClient.Proofs.Typing.Emptiness
import RouterClient.Proofs.Client.Classes
import RouterClient.Proofs.Client.Promotion
import RouterClient.Proofs.Code.Balance
import RouterClient.Proofs.Code.Blocks
import RouterClient.Proofs.Typing.Plain
import RouterClient.Proofs.Client.Balance
import RouterClient.Proofs.Typing.Citations
import RouterClient.Proofs.Client.Orphans
import RouterClient.Proofs.Client.Exclusion
import RouterClient.Proofs.Document.Aliases
import RouterClient.Proofs.Document.Acceptance
import RouterClient.Proofs.Client.Aliases
import RouterClient.Proofs.Code.Declared
import RouterClient.Proofs.Code.Names
import RouterClient.Proofs.Typing.Names
import RouterClient.Proofs.Client.Names
import RouterClient.Proofs.Typing.Determined
import RouterClient.Proofs.Typing.Locality
import RouterClient.Proofs.Typing.Relocation
import RouterClient.Proofs.Typing.Wrappers
import RouterClient.Proofs.Typing.Standards
import RouterClient.Proofs.Code.QuestionMarks
import RouterClient.Proofs.Typing.QuestionMarks
import RouterClient.Proofs.Client.Optionality
import RouterClient.Proofs.Code.Fields
import RouterClient.Proofs.Typing.Fields
import RouterClient.Proofs.Document.Remainder
import RouterClient.Proofs.Typing.NullAttempts
import RouterClient.Proofs.Code.Identifiers
import RouterClient.Proofs.Code.Outline
import RouterClient.Proofs.Typing.CaseLabels
import RouterClient.Proofs.Code.Comments
import RouterClient.Proofs.Client.Comments
import RouterClient.Proofs.Typing.Identifiers
import RouterClient.Proofs.Client.Identifiers
import RouterClient.Proofs.Typing.Fallbacks
import RouterClient.Proofs.Code.Literals
import RouterClient.Proofs.Code.Layout
import RouterClient.Proofs.Code.Sections
import RouterClient.Proofs.Client.Sections
import RouterClient.Proofs.Client.Turns
import RouterClient.Proofs.Document.Places
import RouterClient.Proofs.Document.Faults
