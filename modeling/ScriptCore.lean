import ScriptCore.Scope.Board
import ScriptCore.Interner
import ScriptCore.Session
import ScriptCore.Proofs.Attributes.Deletion
import ScriptCore.Proofs.Attributes.Inheritance
import ScriptCore.Proofs.Binding.Rearrangement
import ScriptCore.Proofs.Clause.Instances
import ScriptCore.Proofs.Clause.Selection
import ScriptCore.Proofs.Errors.Hosts
import ScriptCore.Proofs.Interner.Numbering
import ScriptCore.Proofs.Registry.Identity
import ScriptCore.Proofs.Registry.Subtyping
import ScriptCore.Proofs.Run.Balance
import ScriptCore.Proofs.Run.Construction
import ScriptCore.Proofs.Run.Dispatch
import ScriptCore.Proofs.Run.Handlers
import ScriptCore.Proofs.Run.Indexing
import ScriptCore.Proofs.Run.Limit
import ScriptCore.Proofs.Run.Methods
import ScriptCore.Proofs.Run.Termination
import ScriptCore.Proofs.Run.Refusal
import ScriptCore.Proofs.Run.Summation
import ScriptCore.Proofs.Scope.Isolation
import ScriptCore.Proofs.Sharing.Defaults
import ScriptCore.Proofs.Signature.Faults
import ScriptCore.Proofs.Value.Equality
import ScriptCore.Proofs.Mapping.Order
import ScriptCore.Proofs.Text.Drawing
import ScriptCore.Proofs.Text.Ending
import ScriptCore.Proofs.Text.Cycles
import ScriptCore.Proofs.Text.Naming
import ScriptCore.Proofs.Text.Reading
import ScriptCore.Proofs.Definitions.Faithful
