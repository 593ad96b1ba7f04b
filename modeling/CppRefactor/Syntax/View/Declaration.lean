import CppRefactor.Syntax.View.Item

/-!
Reading declarations: specifiers, classes and enumerations, declarators and parameters.
-/

namespace CppRefactor

namespace Class

/-- `class`, `struct` or `union`. -/
def key (t : Tree) : Kind := t.leadKind?.getD .classKw

/-- The access of members before any section. -/
def defaultAccess (t : Tree) : Access := if key t == .classKw then .priv else .pub

def members? (t : Tree) : Option Tree := t.child? .memberList

/-- The base classes, each of which may lack a name. -/
def bases (t : Tree) : List Tree :=
  ((t.child? .baseClause).map (·.childrenOf .baseSpec)).getD []

end Class

namespace Enumeration

def isScoped (t : Tree) : Bool := t.hasToken .classKw || t.hasToken .structKw

def list? (t : Tree) : Option Tree := t.child? .enumeratorList

def enumerators (t : Tree) : List Tree := ((list? t).map (·.childrenOf .enumerator)).getD []

end Enumeration

namespace Specifiers

/-- The text of one specifier that is part of the type: no modifier and no macro. The name stands
for a class or an enumeration with a body. -/
def typePart? : Tree → Option String
  | .token t =>
    if t.isTrivia || t.kind.isDeclModifier || t.kind == .ident then none else some t.text
  | .node k s ts =>
    if k == .classSpec || k == .enumSpec then (Tree.node k s ts).name?.map (·.spelling)
    else some (Tree.node k s ts).spelling

/-- The type that is specified: `static const Foo` specifies `Foo`. -/
def typeText (t : Tree) : String := " ".intercalate (t.parts.filterMap typePart?)

/-- The tokens that name a built-in type. -/
def builtinTokens (t : Tree) : List Token := t.tokens.filter (·.kind.isBuiltinType)

end Specifiers

namespace Declarator

mutual

/-- The declared name, also inside parentheses. -/
def name? : Tree → Option Tree
  | .token _ => none
  | .node _ _ ts => (ts.find? fun t => t.isNode && t.kind == .qualifiedName).or (nestedName? ts)

/-- The name in the first nested declarator among the parts. -/
def nestedName? : List Tree → Option Tree
  | [] => none
  | .node .nestedDeclarator _ ts :: _ => innerName? ts
  | _ :: ts => nestedName? ts

/-- The name of the first declarator among the parts. -/
def innerName? : List Tree → Option Tree
  | [] => none
  | .node .declarator s ts :: _ => name? (.node .declarator s ts)
  | _ :: ts => innerName? ts

end

def parameters? (t : Tree) : Option Tree := t.child? .paramList

/-- The name is followed by parameters. -/
def isFunction (t : Tree) : Bool :=
  (t.child? .nestedDeclarator).isNone && (name? t).isSome && (parameters? t).isSome

def isArray (t : Tree) : Bool := (t.child? .arraySuffix).isSome

def pointerOperators (t : Tree) : List Tree := t.childrenOf .ptrOp

/-- The operator a pointer operator is, without its qualifiers. -/
def operatorKind (t : Tree) : Kind := t.leadKind?.getD .star

/-- The pointer and reference operators as text: `*`, `&`, `*const*`. -/
def pointerText (t : Tree) : String := .join ((pointerOperators t).map (·.spelling))

def isPointer (t : Tree) : Bool := (pointerOperators t).any (operatorKind · == .star)

def isReference (t : Tree) : Bool :=
  (pointerOperators t).any fun op => operatorKind op == .amp || operatorKind op == .ampAmp

/-- What stands behind the parameters, as written. -/
def qualifiers (t : Tree) : String :=
  match t.parts.dropWhile fun p => !(p.isNode && p.kind == .paramList) with
  | [] => ""
  | _ :: rest => Text.trim (.join (rest.map Tree.text))

/-- The specifiers of a trailing return type. -/
def trailingSpecifiers? (t : Tree) : Option Tree := do
  (← t.child? .trailingReturn).child? .declSpecifiers

end Declarator

/-- The declarator of a declaration, a parameter or a function. -/
def Tree.declarator? (t : Tree) : Option Tree := t.child? .declarator

def Tree.specifiers? (t : Tree) : Option Tree := t.child? .declSpecifiers

/-- The name a declaration's declarator declares. -/
def Tree.declaredName? (t : Tree) : Option Tree := t.declarator?.bind Declarator.name?

namespace Parameters

def list (t : Tree) : List Tree := t.childrenOf .param

/-- There are none: `()` or `(void)`. -/
def isEmpty (t : Tree) : Bool :=
  match list t with
  | [] => true
  | [p] => Text.trim p.text == "void"
  | _ => false

end Parameters

/-- The type of a parameter: `const Foo &`, `int *`. -/
def parameterType (t : Tree) : String :=
  let base :=
    match t.specifiers? with
    | some s => (if s.hasToken .constKw then "const " else "") ++ Specifiers.typeText s
    | none => ""
  let pointer := (t.declarator?.map Declarator.pointerText).getD ""
  if pointer.isEmpty then base else base ++ " " ++ pointer

/-- The parameters of the function a declaration's declarator declares. -/
def Tree.functionParameters? (t : Tree) : Option Tree := t.declarator?.bind Declarator.parameters?

end CppRefactor
