import CppRefactor.Edit.Host
import CppRefactor.Fix.Accessors
import CppRefactor.Fix.Catalog
import CppRefactor.Fix.CompleteSwitch
import CppRefactor.Fix.DefinitionPlace
import CppRefactor.Fix.ExtractFunction
import CppRefactor.Fix.ExtractLiteral
import CppRefactor.Fix.ForwardDeclaration
import CppRefactor.Fix.IncludeInsertion
import CppRefactor.Fix.MemberInsertion
import CppRefactor.Fix.MoveOutside
import CppRefactor.Fix.MoveToDeclaration
import CppRefactor.Fix.RemoveUsing
import CppRefactor.Fix.Request
import CppRefactor.Fix.TemplateHeader
import CppRefactor.Project.Sync
import CppRefactor.Project.Workspace
import CppRefactor.Symbols.Reference
import CppRefactor.Syntax.Parse
import CppRefactor.Syntax.View.Declaration
import CppRefactor.Syntax.View.Expression
import CppRefactor.Text.Indentation
import CppRefactor.Text.LetterCase
import CppRefactor.Text.LineIndex
import CppRefactor.Text.Placement
import CppRefactor.Proofs.Grammar.Progress
import CppRefactor.Proofs.Grammar.Ends
import CppRefactor.Proofs.Grammar.Names
import CppRefactor.Proofs.Grammar.Plain
import CppRefactor.Proofs.Grammar.TemplateHeaders
import CppRefactor.Proofs.Grammar.Total
import CppRefactor.Proofs.Grammar.Expressions
import CppRefactor.Proofs.Grammar.Declarators
import CppRefactor.Proofs.Grammar.Specifiers
import CppRefactor.Proofs.Grammar.Statements
import CppRefactor.Proofs.Grammar.Declarations
import CppRefactor.Proofs.Grammar.SourceFile
import CppRefactor.Proofs.Grammar.Gap
import CppRefactor.Proofs.Grammar.Judgement
import CppRefactor.Proofs.Grammar.Rules
import CppRefactor.Proofs.Grammar.Blind
import CppRefactor.Proofs.Syntax.Tokens
import CppRefactor.Proofs.Syntax.Lossless
import CppRefactor.Proofs.Syntax.Bare
import CppRefactor.Proofs.Grammar.RawTokens
import CppRefactor.Proofs.Syntax.Unmatched
import CppRefactor.Proofs.Edit.Action
import CppRefactor.Proofs.Edit.Atomicity
import CppRefactor.Proofs.Project.Normalized
import CppRefactor.Proofs.Project.Ranks
import CppRefactor.Proofs.Project.Denotation
import CppRefactor.Proofs.Edit.Reachable
import CppRefactor.Proofs.Edit.History
import CppRefactor.Proofs.Edit.Revisions
import CppRefactor.Proofs.Edit.Syncing
import CppRefactor.Proofs.Edit.Overlap
import CppRefactor.Proofs.Symbols.Lookup
import CppRefactor.Proofs.Fix.RemoveUsing
import CppRefactor.Proofs.Fix.ExtractFunction
import CppRefactor.Proofs.Fix.DataFlow
import CppRefactor.Proofs.Fix.FlowBack
import CppRefactor.Proofs.Text.Blanks
import CppRefactor.Proofs.Text.Lines
import CppRefactor.Proofs.Text.Slices
import CppRefactor.Proofs.Syntax.Spans
import CppRefactor.Proofs.Syntax.Cursors
import CppRefactor.Proofs.Fix.Request
import CppRefactor.Proofs.Fix.MoveOutside
import CppRefactor.Proofs.Fix.MoveToDeclaration
import CppRefactor.Proofs.Symbols.Outside
import CppRefactor.Proofs.Grammar.Functions
import CppRefactor.Proofs.Syntax.Functions
import CppRefactor.Proofs.Symbols.Blocks
import CppRefactor.Proofs.Symbols.Built
import CppRefactor.Proofs.Symbols.Answers
import CppRefactor.Proofs.Symbols.Inside
import CppRefactor.Proofs.Fix.CompleteSwitch
import CppRefactor.Proofs.Fix.Accessors
import CppRefactor.Proofs.Fix.ExtractLiteral
import CppRefactor.Proofs.Project.Closure
import CppRefactor.Proofs.Syntax.Apart
import CppRefactor.Proofs.Symbols.Entries
import CppRefactor.Proofs.Symbols.Nesting
import CppRefactor.Proofs.Symbols.Ground
import CppRefactor.Proofs.Symbols.Naming
import CppRefactor.Proofs.Symbols.Walk
import CppRefactor.Proofs.Symbols.Placement
import CppRefactor.Proofs.Symbols.Seen
import CppRefactor.Proofs.Symbols.Innermost
import CppRefactor.Proofs.Edit.Preview
import CppRefactor.Proofs.Project.Writes
import CppRefactor.Proofs.Edit.Splice
import CppRefactor.Proofs.Edit.Cursors
import CppRefactor.Proofs.Project.Spelling
import CppRefactor.Proofs.Fix.AddInclude
import CppRefactor.Proofs.Symbols.Declared
import CppRefactor.Proofs.Fix.ForwardDeclaration
import CppRefactor.Proofs.Edit.Order
import CppRefactor.Proofs.Edit.Weave
import CppRefactor.Proofs.Edit.Offsets
import CppRefactor.Proofs.Symbols.Origins
import CppRefactor.Proofs.Symbols.Members
import CppRefactor.Proofs.Symbols.NamespaceBlocks
import CppRefactor.Proofs.Symbols.Namespaces
import CppRefactor.Proofs.Symbols.Links
import CppRefactor.Proofs.Fix.ParameterTypes
import CppRefactor.Proofs.Symbols.Every
import CppRefactor.Proofs.Symbols.Targets
import CppRefactor.Proofs.Symbols.Entities
import CppRefactor.Proofs.Symbols.Sections
import CppRefactor.Proofs.Fix.MemberInsertion
import CppRefactor.Proofs.Text.LineStarts
import CppRefactor.Proofs.Text.LetterCase
import CppRefactor.Proofs.Syntax.Identifiers
import CppRefactor.Proofs.Syntax.LineFeeds
import CppRefactor.Proofs.Syntax.Directives
import CppRefactor.Proofs.Project.Includes
import CppRefactor.Proofs.Fix.IncludeGroups
import CppRefactor.Proofs.Fix.IncludeInsertion
import CppRefactor.Proofs.Fix.AccessorNames
import CppRefactor.Proofs.Symbols.Frames
import CppRefactor.Proofs.Symbols.Bodies
import CppRefactor.Proofs.Symbols.Opened
import CppRefactor.Proofs.Symbols.Levels
import CppRefactor.Proofs.Symbols.Leveled
import CppRefactor.Proofs.Text.LineColumns
import CppRefactor.Proofs.Symbols.PathText
import CppRefactor.Proofs.Syntax.Numbers
import CppRefactor.Proofs.Syntax.Scans
import CppRefactor.Proofs.Syntax.Respelling
import CppRefactor.Proofs.Syntax.Gluing
import CppRefactor.Proofs.Syntax.TypeText
import CppRefactor.Proofs.Grammar.Faults
import CppRefactor.Proofs.Syntax.Errors
import CppRefactor.Proofs.Syntax.Jumps
import CppRefactor.Proofs.Grammar.Closers
import CppRefactor.Proofs.Syntax.TemplateArguments
import CppRefactor.Proofs.Syntax.TemplateHeaders
import CppRefactor.Proofs.Fix.TemplateHeader
import CppRefactor.Proofs.Text.Indentation
