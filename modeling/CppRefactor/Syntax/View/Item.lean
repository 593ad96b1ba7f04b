import CppRefactor.Syntax.Cursor
import CppRefactor.Syntax.View.Name
import CppRefactor.Text.Blank

/-!
Reading what stands in a namespace or a class: items, templates around them and access levels.
-/

namespace CppRefactor

/-- The kinds of nodes that may stand directly in a namespace or a class. -/
def Kind.isItem : Kind → Bool
  | .namespaceDef | .namespaceAlias | .linkageSpec | .usingDirective | .usingDecl | .aliasDecl
  | .templateDecl | .simpleDecl | .functionDef | .accessSpec | .macroCall | .staticAssert
  | .emptyDecl => true
  | _ => false

namespace Tree

def isItem (t : Tree) : Bool := t.isNode && t.kind.isItem

/-- The items directly below. -/
def items (t : Tree) : List Tree := t.parts.filter isItem

/-- The item that a template or a linkage specification is about. -/
def item? (t : Tree) : Option Tree := t.parts.find? isItem

mutual

/-- The item inside the templates around it. -/
def withoutTemplates : Tree → Tree
  | .node .templateDecl s ts => (itemWithoutTemplates? ts).getD (.node .templateDecl s ts)
  | t => t

def itemWithoutTemplates? : List Tree → Option Tree
  | [] => none
  | t :: ts => if t.isItem then some (withoutTemplates t) else itemWithoutTemplates? ts

end

def name? (t : Tree) : Option Tree := t.child? .qualifiedName

def openBrace? (t : Tree) : Option Token := t.firstToken? .lBrace

def closeBrace? (t : Tree) : Option Token := t.lastToken? .rBrace

end Tree

namespace Cursor

mutual

/-- The item inside the templates around a tree, in its surroundings. -/
def unwrap (above : List (Tree × Nat)) : Tree → Cursor
  | .node .templateDecl s ts =>
    (unwrapItem? (.node .templateDecl s ts) 0 above ts).getD ⟨.node .templateDecl s ts, above⟩
  | t => ⟨t, above⟩

def unwrapItem? (parent : Tree) (i : Nat) (above : List (Tree × Nat)) : List Tree → Option Cursor
  | [] => none
  | t :: ts =>
    if t.isItem then some (unwrap ((parent, i) :: above) t)
    else unwrapItem? parent (i + 1) above ts

end

def withoutTemplates (c : Cursor) : Cursor := unwrap c.above c.focus

end Cursor

/-- The name of a namespace by segments, empty for an anonymous one. -/
def namespacePath (t : Tree) : List String := (t.name?.map Name.path).getD []

/-- The name an alias of a namespace stands for. -/
def namespaceAliasTarget? (t : Tree) : Option Tree := (t.childrenOf .qualifiedName)[1]?

namespace TemplateParameter

/-- It stands for a type or a template. -/
def isType (t : Tree) : Bool :=
  t.leadToken?.any fun t => [Kind.classKw, .typenameKw, .templateKw].contains t.kind

/-- The last identifier outside angle brackets and before a default argument. -/
def nameIn (angle : Nat) (name : Option Token) : List Token → Option Token
  | [] => name
  | t :: ts =>
    match t.kind with
    | .lt => nameIn (angle + 1) name ts
    | .gt => nameIn (angle - 1) name ts
    | .eq => if angle = 0 then name else nameIn angle name ts
    | .ident => nameIn angle (if angle = 0 then some t else name) ts
    | _ => nameIn angle name ts

def name? (t : Tree) : Option Token := nameIn 0 none t.tokens

/-- The text before a default argument. -/
def text (t : Tree) : String :=
  Text.trim (.join ((t.tokens.takeWhile (·.kind != .eq)).map (·.text)))

end TemplateParameter

/-- The parameters of a template declaration. -/
def templateParameters (t : Tree) : List Tree :=
  ((t.child? .templateParamList).map (·.childrenOf .templateParam)).getD []

/-- How widely a member can be used. -/
inductive Access
  | pub
  | prot
  | priv
  deriving DecidableEq, Repr, Inhabited

def Access.text : Access → String
  | pub => "public"
  | prot => "protected"
  | priv => "private"

namespace AccessSection

/-- The access level of a section; one named by an identifier is public. -/
def access (t : Tree) : Access :=
  match t.leadKind? with
  | some .privateKw => .priv
  | some .protectedKw => .prot
  | _ => .pub

/-- The section is one of `signals` or `slots`. -/
def isSignalsOrSlots (t : Tree) : Bool := t.hasToken .ident

end AccessSection

end CppRefactor
