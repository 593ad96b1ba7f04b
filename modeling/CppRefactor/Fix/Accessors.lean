import CppRefactor.Fix.AccessorNames
import CppRefactor.Fix.DefinitionPlace
import CppRefactor.Fix.MemberInsertion
import CppRefactor.Fix.Request
import CppRefactor.Fix.TemplateHeader
import CppRefactor.Fix.Variable

/-!
Getters and setters for a data member: which are missing, how they are declared, and where they are
defined.
-/

namespace CppRefactor

/-- Which accessors a fix makes. -/
inductive AccessorChoice
  | both
  | getter
  | setter
  deriving DecidableEq, Repr, Inhabited

namespace Accessors

/-- The type of a data member. -/
structure FieldType where
  /-- Without `const` and without pointers. -/
  base : String
  /-- The pointer and reference operators, without `const` at their end. -/
  pointers : String
  /-- What it points or refers to is constant. -/
  isConstTarget : Bool
  isStatic : Bool
  /-- The member cannot be assigned to. -/
  isConst : Bool
  /-- Arithmetic types and enumerations are passed by value. -/
  isPassedByValue : Bool

/-- The characters without a word repeated at their end. -/
def dropSuffixes (word : List Char) : Nat → List Char → List Char
  | 0, cs => cs
  | n + 1, cs =>
    if word.isSuffixOf cs then dropSuffixes word n (cs.take (cs.length - word.length)) else cs

/-- The member of a declarator is of an enumeration. -/
def isOfEnumeration (r : Request) (declarator : Tree) : Bool :=
  ((do
    let segment ← (Declarator.name? declarator).bind Name.last?
    let member ← r.symbols.declaredAt? r.file segment.span.start
    let type ← r.symbols.typeOf? member
    return (r.symbols.symbol type).kind == .enumKind) : Option Bool).getD false

def FieldType.of (r : Request) (specs declarator : Tree) : FieldType :=
  let pointers := (Declarator.pointerText declarator).toList
  let isIndirect := Declarator.isPointer declarator || Declarator.isReference declarator
  let isConst := specs.hasToken .constKw
  let isBuiltin := specs.name?.isNone && !(Specifiers.builtinTokens specs).isEmpty
  let isEnum := (specs.child? .enumSpec).isSome ||
    (specs.child? .elaboratedType).any (·.leadKind? == some .enumKw) || isOfEnumeration r declarator
  { base := Specifiers.typeText specs
    pointers := .ofList (dropSuffixes "const".toList pointers.length pointers)
    isConstTarget := isConst && isIndirect
    isStatic := specs.hasToken .staticKw
    isConst := "const".toList.isSuffixOf pointers ||
      ((isConst || specs.hasToken .constexprKw) && !isIndirect)
    isPassedByValue := isBuiltin || isEnum }

namespace FieldType

/-- The type with its pointers, up to a name. -/
def spelled (t : FieldType) : String :=
  (if t.isConstTarget then "const " else "") ++ t.base ++ " " ++ t.pointers

/-- What stands before the name of the getter. -/
def result (t : FieldType) : String := if t.pointers.isEmpty then t.base ++ " " else t.spelled

/-- The parameter of the setter: pointers and small types by value, others by reference. -/
def parameter (t : FieldType) (name : String) : String :=
  if t.pointers.toList.contains '*' then t.spelled ++ name
  else if !t.pointers.isEmpty || !t.isPassedByValue then "const " ++ t.base ++ " &" ++ name
  else t.base ++ " " ++ name

end FieldType

/-- What a class has besides a member. -/
structure OtherMembers where
  fields : List String
  /-- The functions with the numbers of their parameters. -/
  methods : List (String × Nat)

namespace OtherMembers

def of (t : SymbolTable) (cls : SymbolId) (member : String) : OtherMembers :=
  let members := (t.members cls).map t.symbol
  let (methods, others) := members.partition (·.kind.isFunction)
  { fields := (others.map (·.name)).filter (· != member)
    methods := methods.map fun m => (m.name, m.params.length) }

/-- Some function is called like `getFoo`. -/
def hasGetPrefix (s : OtherMembers) : Bool :=
  s.methods.any fun (name, _) =>
    match Text.dropStart? "get" name.toList with
    | some (c :: _) => Text.isUppercase c
    | _ => false

end OtherMembers

/-- A function that is made. -/
structure Accessor where
  isStatic : Bool
  /-- What stands before its name. -/
  result : String
  /-- Its name and parameters. -/
  signature : String
  qualifiers : String
  /-- The statement in its body, indented. -/
  body : String
  deriving DecidableEq, Repr, Inhabited

namespace Accessor

/-- The declaration in the class, without a semicolon. -/
def declaration (a : Accessor) : String :=
  (if a.isStatic then "static " else "") ++ a.result ++ a.signature ++ a.qualifiers

def withBody (head body : String) : String := head ++ "\n\x7b\n" ++ body ++ "\n\x7d"

/-- The definition outside the class. -/
def definition (a : Accessor) (qualifier : String) : String :=
  withBody (a.result ++ qualifier ++ a.signature ++ a.qualifiers) a.body

/-- The definition inside the class. -/
def inlineDefinition (a : Accessor) (indent : String) : String :=
  .ofList ((withBody a.declaration a.body).toList.flatMap fun c =>
    if c = '\n' then '\n' :: indent.toList else [c])

end Accessor

def getter (r : Request) (member : String) (names : AccessorNames) (t : FieldType) : Accessor :=
  { isStatic := t.isStatic
    result := t.result
    signature := names.getter ++ "()"
    qualifiers := if t.isStatic then "" else " const"
    body := r.settings.indent 1 ++ "return " ++ member ++ ";" }

def setter (r : Request) (member : String) (names : AccessorNames) (t : FieldType) : Accessor :=
  { isStatic := t.isStatic
    result := "void "
    signature := names.setter ++ "(" ++ t.parameter names.parameter ++ ")"
    qualifiers := ""
    body := r.settings.indent 1 ++ member ++ " = " ++ names.parameter ++ ";" }

/-- Where accessors are defined. -/
inductive Placement
  | inClass
  /-- Behind the class; `before` goes before each definition. -/
  | behindClass (offset : Nat) (qualifier before : String)
  | implementation (target : DefinitionPlace)
  deriving DecidableEq, Repr, Inhabited

/-- The implementation file of the request's file, for a class that is no template. -/
def implementationFile? (r : Request) (isTemplate : Bool) : Option FileId :=
  if r.source.isHeader && !isTemplate then r.snapshot.associated? r.file else none

/-- Accessors go to the implementation file if there is one; else into the class, or behind one
declared in a namespace if so asked. -/
def placement (r : Request) (cls : Cursor) (id : SymbolId) : Except FixError Placement := do
  let decl ← orError (.malformed .classOutsideDeclaration)
    (cls.ancestors.find? (·.kind == .simpleDecl))
  let template := decl.template?
  match implementationFile? r template.isSome with
  | some file => return .implementation (.opening r.snapshot file id)
  | none =>
    let t := r.symbols
    let isInNamespace := (t.symbol id).parent.any fun s => (t.scope s).isNamespaceBody
    if r.settings.accessorPlacement == .inClass || !isInNamespace then return .inClass
    else
      let offset := Text.behindDeclaration r.text r.lines decl.outermostTemplate.span.stop
      let header := (template.map fun t => (TemplateHeader.ofTemplate t.focus).text ++ "\n").getD ""
      let before := header ++ if r.source.isHeader then "inline " else ""
      return .behindClass offset (t.memberQualifier r.file offset id) before

/-- The declarator that the cursor is on; the specifiers count for a single one. -/
def chosenDeclarator? (r : Request) (decl : Tree) : Option Tree :=
  let inits := decl.childrenOf .initDeclarator
  match inits.find? fun i => r.isOn i.span, inits with
  | some i, _ => i.declarator?
  | none, [single] =>
    if decl.specifiers?.any fun s => r.isOn s.span then single.declarator? else none
  | none, _ => none

/-- A data member under the cursor. -/
structure Member where
  cls : Cursor
  specs : Tree
  declarator : Tree
  name : String

/-- The class that a declaration stands directly in. -/
def classAround? (decl : Cursor) : Option Cursor := do
  let list ← decl.up?.filter (·.kind == .memberList)
  list.up?.filter (·.kind == .classSpec)

def chosenMember? (r : Request) : Option Member := do
  let decl ← r.find? .simpleDecl
  let cls ← classAround? decl
  let specs ← decl.focus.specifiers?
  guard !(specs.hasToken .typedefKw || specs.hasToken .friendKw || (specs.child? .classSpec).isSome)
  let declarator ← chosenDeclarator? r decl.focus
  guard !(Declarator.isFunction declarator || Declarator.isArray declarator ||
    (declarator.child? .nestedDeclarator).isSome)
  let name ← Declarator.name? declarator
  guard !(Name.isQualified name)
  return { cls, specs, declarator, name := name.spelling }

end Accessors

/-- The making of accessors for a member. -/
structure AccessorFix where
  choice : AccessorChoice
  insertion : MemberInsertion
  placement : Accessors.Placement
  accessors : List Accessors.Accessor
  deriving DecidableEq, Repr, Inhabited

namespace AccessorFix

open Accessors

/-- The fixes for the accessors a member lacks: both at once if both are, then each. -/
def choices (insertion : MemberInsertion) (placement : Placement)
    (getter setter : Option Accessor) : List AccessorFix :=
  let fix (choice : AccessorChoice) (accessors : List Accessor) : AccessorFix :=
    { choice, insertion, placement, accessors }
  match getter, setter with
  | some g, some s => [fix .both [g, s], fix .getter [g], fix .setter [s]]
  | some g, none => [fix .getter [g]]
  | none, some s => [fix .setter [s]]
  | none, none => []

def offersFor (r : Request) (m : Member) : Except FixError (List AccessorFix) := do
  let t := r.symbols
  let cls ← orError (.unresolved .memberClass) do
    t.declaredAt? r.file (← m.cls.focus.name?.bind Name.last?).span.start
  let type := FieldType.of r m.specs m.declarator
  let siblings := OtherMembers.of t cls m.name
  let names := AccessorNames.ofMember m.name (r.settings.preferGetPrefix || siblings.hasGetPrefix)
    siblings.fields.contains
  let lacksGetter := !siblings.methods.contains (names.getter, 0)
  let lacksSetter := !type.isConst && !siblings.methods.contains (names.setter, 1)
  if !lacksGetter && !lacksSetter then return []
  let insertion ← orError (.malformed .classWithoutBody)
    (MemberInsertion.find? r.text r.lines m.cls.focus .pub r.settings.indentWidth)
  return choices insertion (← Accessors.placement r m.cls cls)
    (if lacksGetter then some (getter r m.name names type) else none)
    (if lacksSetter then some (setter r m.name names type) else none)

/-- The fixes offered on a data member that lacks a getter or a setter. -/
def offers (r : Request) : Except FixError (List AccessorFix) :=
  match chosenMember? r with
  | some m => offersFor r m
  | none => .ok []

def description (f : AccessorFix) : String :=
  match f.choice with
  | .both => "Create Getter and Setter Member Functions"
  | .getter => "Create Getter Member Function"
  | .setter => "Create Setter Member Function"

def insertMembers (f : AccessorFix) (r : Request) (members : List String) : Changeset :=
  Changeset.empty.editFile r.snapshot r.file
    (·.insert f.insertion.offset (f.insertion.render members))

def declared (f : AccessorFix) (r : Request) : Changeset :=
  f.insertMembers r (f.accessors.map fun a => a.declaration ++ ";")

def changes (r : Request) (f : AccessorFix) : Changeset :=
  match f.placement with
  | .inClass => f.insertMembers r (f.accessors.map (·.inlineDefinition f.insertion.indent))
  | .behindClass offset qualifier before =>
    let definitions := f.accessors.map fun a => before ++ a.definition qualifier
    (f.declared r).editFile r.snapshot r.file
      (·.insert offset (Text.setApart r.text offset ("\n\n".intercalate definitions)))
  | .implementation target =>
    let definitions := f.accessors.map (·.definition target.qualifier)
    (f.declared r).editFile r.snapshot target.file
      (·.insert target.offset (target.render r.snapshot ("\n\n".intercalate definitions)))

end AccessorFix

end CppRefactor
