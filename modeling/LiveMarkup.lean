import LiveMarkup.Condition.Evaluation
import LiveMarkup.Condition.Expr
import LiveMarkup.Condition.Parser
import LiveMarkup.Config
import LiveMarkup.Diagnostic
import LiveMarkup.Dom.Arena
import LiveMarkup.Dom.Change
import LiveMarkup.Dom.Display
import LiveMarkup.Dom.Fragment
import LiveMarkup.Dom.Mutation
import LiveMarkup.Dom.Reconcile
import LiveMarkup.Dom.Tree
import LiveMarkup.Engine.Execute
import LiveMarkup.Engine.Program
import LiveMarkup.Engine.Render
import LiveMarkup.Engine.World
import LiveMarkup.Engine.Write
import LiveMarkup.Error
import LiveMarkup.FileTree
import LiveMarkup.FileTree.Component
import LiveMarkup.Html.NamedReferences
import LiveMarkup.Html.RawText
import LiveMarkup.Html.Reference
import LiveMarkup.Html.Tag
import LiveMarkup.Html.Token
import LiveMarkup.Html.Tokenizer
import LiveMarkup.Json.Fields
import LiveMarkup.Json.Reader
import LiveMarkup.Json.Shape
import LiveMarkup.Json.Skipping
import LiveMarkup.Json.Text
import LiveMarkup.Json.Value
import LiveMarkup.Markup.Escape
import LiveMarkup.Markup.Sanitize
import LiveMarkup.Number.Double
import LiveMarkup.Number.Reading
import LiveMarkup.Number.Shortest
import LiveMarkup.OrderedMap
import LiveMarkup.Proofs.Condition.Blanks
import LiveMarkup.Proofs.Condition.Comparing
import LiveMarkup.Proofs.Condition.Deriving
import LiveMarkup.Proofs.Condition.Extending
import LiveMarkup.Proofs.Condition.Faults
import LiveMarkup.Proofs.Condition.Grammar
import LiveMarkup.Proofs.Condition.Printing
import LiveMarkup.Proofs.Dom.Alignment
import LiveMarkup.Proofs.Dom.Building
import LiveMarkup.Proofs.Dom.Cloning
import LiveMarkup.Proofs.Dom.Copying
import LiveMarkup.Proofs.Dom.Cycles
import LiveMarkup.Proofs.Dom.Descent
import LiveMarkup.Proofs.Dom.DocumentOrder
import LiveMarkup.Proofs.Dom.Editing
import LiveMarkup.Proofs.Dom.Forest
import LiveMarkup.Proofs.Dom.Freeing
import LiveMarkup.Proofs.Dom.Generations
import LiveMarkup.Proofs.Dom.Growth
import LiveMarkup.Proofs.Dom.Hosting
import LiveMarkup.Proofs.Dom.Identity
import LiveMarkup.Proofs.Dom.InPlace
import LiveMarkup.Proofs.Dom.Linking
import LiveMarkup.Proofs.Dom.Links
import LiveMarkup.Proofs.Dom.Origins
import LiveMarkup.Proofs.Dom.Paths
import LiveMarkup.Proofs.Dom.Planting
import LiveMarkup.Proofs.Dom.Rebuilding
import LiveMarkup.Proofs.Dom.Reconciliation
import LiveMarkup.Proofs.Dom.Redrawing
import LiveMarkup.Proofs.Dom.Replacing
import LiveMarkup.Proofs.Dom.Retouching
import LiveMarkup.Proofs.Dom.Serializing
import LiveMarkup.Proofs.Dom.Showing
import LiveMarkup.Proofs.Dom.Slots
import LiveMarkup.Proofs.Dom.Sparing
import LiveMarkup.Proofs.Dom.Staleness
import LiveMarkup.Proofs.Dom.Swapping
import LiveMarkup.Proofs.Dom.Traversing
import LiveMarkup.Proofs.Engine.Accounting
import LiveMarkup.Proofs.Engine.Calling
import LiveMarkup.Proofs.Engine.Committing
import LiveMarkup.Proofs.Engine.Depot
import LiveMarkup.Proofs.Engine.Ensuring
import LiveMarkup.Proofs.Engine.Keeping
import LiveMarkup.Proofs.Engine.Latest
import LiveMarkup.Proofs.Engine.Lenses
import LiveMarkup.Proofs.Engine.Opening
import LiveMarkup.Proofs.Engine.Orderly
import LiveMarkup.Proofs.Engine.Pairing
import LiveMarkup.Proofs.Engine.Recording
import LiveMarkup.Proofs.Engine.Reentry
import LiveMarkup.Proofs.Engine.Refreshing
import LiveMarkup.Proofs.Engine.Rendering
import LiveMarkup.Proofs.Engine.Rounds
import LiveMarkup.Proofs.Engine.Saving
import LiveMarkup.Proofs.Engine.Settling
import LiveMarkup.Proofs.Engine.Silence
import LiveMarkup.Proofs.Engine.Stored
import LiveMarkup.Proofs.Engine.Telling
import LiveMarkup.Proofs.Engine.Tracking
import LiveMarkup.Proofs.Engine.Transparency
import LiveMarkup.Proofs.Engine.Unfolding
import LiveMarkup.Proofs.Engine.Unsubscribing
import LiveMarkup.Proofs.Engine.Upholding
import LiveMarkup.Proofs.Engine.Wiring
import LiveMarkup.Proofs.Engine.Writing
import LiveMarkup.Proofs.FileTree
import LiveMarkup.Proofs.FileTree.Joining
import LiveMarkup.Proofs.Html.NameOrder
import LiveMarkup.Proofs.Html.Reading
import LiveMarkup.Proofs.Html.Spelling
import LiveMarkup.Proofs.Json.Agreement
import LiveMarkup.Proofs.Markup.Escaping
import LiveMarkup.Proofs.Number.Nearest
import LiveMarkup.Proofs.OrderedMap
import LiveMarkup.Proofs.State.Overwriting
import LiveMarkup.Proofs.State.Resolving
import LiveMarkup.Proofs.State.Sameness
import LiveMarkup.Proofs.State.Slots
import LiveMarkup.Proofs.Storage
import LiveMarkup.Proofs.Template.Blocks
import LiveMarkup.Proofs.Template.Braces
import LiveMarkup.Proofs.Template.Branches
import LiveMarkup.Proofs.Template.CacheHistory
import LiveMarkup.Proofs.Template.Compositional
import LiveMarkup.Proofs.Template.Events
import LiveMarkup.Proofs.Template.Locators
import LiveMarkup.Proofs.Template.LoopEnds
import LiveMarkup.Proofs.Template.Nesting
import LiveMarkup.Proofs.Template.Outline
import LiveMarkup.Proofs.Template.Reports
import LiveMarkup.Proofs.Template.Rewriting
import LiveMarkup.Proofs.Template.Scan
import LiveMarkup.Proofs.Template.Stages
import LiveMarkup.Proofs.Template.Strays
import LiveMarkup.Proofs.Template.Substitution
import LiveMarkup.Proofs.Template.Values
import LiveMarkup.Proofs.Text.Occurrence
import LiveMarkup.Proofs.Text.Reading
import LiveMarkup.State.Ordered
import LiveMarkup.State.Path
import LiveMarkup.Storage
import LiveMarkup.Template.Block
import LiveMarkup.Template.Cache
import LiveMarkup.Template.Compiler
import LiveMarkup.Template.Expansion
import LiveMarkup.Template.Pass
import LiveMarkup.Template.Source
import LiveMarkup.Template.Tag
import LiveMarkup.Text.Blank
import LiveMarkup.Text.Reading
import LiveMarkup.Text.Search
