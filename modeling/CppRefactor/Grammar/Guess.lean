import CppRefactor.Grammar.Parser

/-!
Guesses from the words ahead. Which names are types is not known while parsing, so a construct is
told by the shape of the words that follow: `A<B> c;` declares, `a(b);` does not.
-/

namespace CppRefactor.Grammar.Guess

/-- How many words a guess looks at. -/
def window : Nat := 256

def kind? (ws : List Word) : Option Kind := ws.head?.map (·.kind)

def startsWith (k : Kind) (ws : List Word) : Bool := kind? ws == some k

/-- The first word is of one of the kinds. -/
def startsWithAny (ks : List Kind) (ws : List Word) : Bool := (kind? ws).any ks.contains

/-- What can stand behind template arguments. -/
def followsArguments (k : Kind) : Bool :=
  [Kind.colonColon, .lParen, .rParen, .lBrace, .semicolon, .comma, .gt, .ident, .star, .amp,
    .ampAmp, .ellipsis, .constKw, .operatorKw, .eq, .lBracket].contains k

/-- What does not stand among template arguments. -/
def refutesArguments (k : Kind) : Bool :=
  [Kind.semicolon, .lBrace, .rBrace, .eq, .eqEq, .bangEq, .pipePipe, .ltEq, .gtEq, .question,
    .plus, .minus, .slash, .percent, .compoundAssign, .stringLit].contains k

/-- The words behind the bracket that closes `angle` angle brackets; inside `paren` parentheses
only those are matched. -/
def closeAngles : Nat → Nat → List Word → Option (List Word)
  | _, _, [] => none
  | angle, paren, w :: ws =>
    match w.kind with
    | .lt => closeAngles (angle + 1) paren ws
    | .gt =>
      if paren ≠ 0 then closeAngles angle paren ws
      else if angle ≤ 1 then
        if (kind? ws).all followsArguments then some ws else none
      else closeAngles (angle - 1) paren ws
    | .lParen => closeAngles angle (paren + 1) ws
    | .rParen => if paren = 0 then none else closeAngles angle (paren - 1) ws
    | k => if refutesArguments k then none else closeAngles angle paren ws

/-- The words behind template arguments at the front. -/
def behindArguments (ws : List Word) : Option (List Word) :=
  if startsWith .lt ws then closeAngles 0 0 ws else none

/-- The words behind a parenthesised group at the front. -/
def closeParens : Nat → List Word → Option (List Word)
  | _, [] => none
  | depth, w :: ws =>
    match w.kind with
    | .lParen => closeParens (depth + 1) ws
    | .rParen => if depth ≤ 1 then some ws else closeParens (depth - 1) ws
    | _ => closeParens depth ws

def behindParens (ws : List Word) : Option (List Word) :=
  if startsWith .lParen ws then closeParens 0 ws else none

/-- What goes on with a name behind `::`. -/
def startsSegment (k : Kind) : Bool :=
  [Kind.ident, .tilde, .operatorKw, .templateKw].contains k

/-- The words behind the segments of a name, at most `n` of them. An operator ends the name at its
keyword. -/
def behindSegments : Nat → List Word → Option (List Word)
  | 0, _ => none
  | n + 1, ws =>
    let ws := if startsWith .templateKw ws then ws.drop 1 else ws
    let goOn (ws : List Word) :=
      let ws := (behindArguments ws).getD ws
      match ws with
      | ⟨.colonColon, _, _⟩ :: next =>
        if (kind? next).any startsSegment then behindSegments n next else some ws
      | _ => some ws
    match ws with
    | ⟨.ident, _, _⟩ :: ws => goOn ws
    | ⟨.tilde, _, _⟩ :: ⟨.ident, _, _⟩ :: ws => goOn ws
    | ⟨.operatorKw, _, _⟩ :: ws => some ws
    | _ => none

/-- The words behind a name at the front. -/
def behindName (ws : List Word) : Option (List Word) :=
  behindSegments (ws.length + 1) (if startsWith .colonColon ws then ws.drop 1 else ws)

/-- A part of a name outside its template arguments. -/
inductive Segment
  | plain (text : String)
  | destructor
  | operator
  deriving DecidableEq

/-- The segments of a name of the given words; `tilde` says that a tilde comes before. -/
def segments : Nat → Bool → List Word → List Segment
  | _, _, [] => []
  | angle, tilde, w :: ws =>
    match w.kind with
    | .lt => segments (angle + 1) false ws
    | .gt => segments (angle - 1) false ws
    | .ident =>
      if angle = 0 then (if tilde then .destructor else .plain w.text) :: segments angle false ws
      else segments angle false ws
    | .operatorKw =>
      if angle = 0 then .operator :: segments angle false ws else segments angle false ws
    | .tilde => segments angle true ws
    | _ => segments angle false ws

/-- The name ahead is that of a constructor, destructor or operator and not of a type. -/
def startsConstructor (place : Place) (ahead : List Word) : Bool :=
  let ws := ahead.take window
  if startsWithAny [.tilde, .operatorKw] ws then true
  else
    match behindName ws with
    | none => false
    | some rest =>
      let parts := (segments 0 false (ws.take (ws.length - rest.length))).reverse
      match parts with
      | .operator :: _ => true
      | .destructor :: _ => startsWith .lParen rest
      | .plain inner :: .plain outer :: _ => startsWith .lParen rest && inner == outer
      | [.plain name] => startsWith .lParen rest && place == .members (some name)
      | _ => false

/-- Keywords with which only a declaration begins. -/
def declares (k : Kind) : Bool :=
  [Kind.classKw, .structKw, .unionKw, .enumKw, .usingKw, .staticAssertKw, .templateKw,
    .namespaceKw].contains k

/-- What stands between a type and the name it declares. -/
def isPointerPart (k : Kind) : Bool :=
  [Kind.star, .amp, .ampAmp, .constKw, .volatileKw].contains k

/-- What stands behind a declared name. -/
def followsDeclared (k : Kind) : Bool :=
  [Kind.eq, .semicolon, .comma, .lParen, .lBracket, .lBrace, .colon].contains k

/-- The words ahead declare something. -/
def startsDeclaration (ahead : List Word) : Bool :=
  let ws := ahead.take window
  let rest := ws.dropWhile (·.kind.isDeclModifier)
  match rest with
  | [] => false
  | w :: next =>
    if w.kind.isBuiltinType then !startsWith .lParen next
    else if rest.length < ws.length && w.kind == .ident then true
    else if declares w.kind then true
    else
      let behindType :=
        match w.kind with
        | .decltypeKw => behindParens next
        | .ident | .colonColon => behindName rest
        | _ => none
      match behindType with
      | none => false
      | some ws =>
        let ws := ws.dropWhile (isPointerPart ·.kind)
        let ws := if startsWith .ellipsis ws then ws.drop 1 else ws
        startsWith .ident ws && (kind? (ws.drop 1)).any followsDeclared

/-- What begins a value and no parameter. -/
def startsValue (k : Kind) : Bool :=
  k.isLiteral ||
    [Kind.trueKw, .falseKw, .nullptrKw, .thisKw, .amp, .minus, .bang].contains k

/-- The parenthesis ahead, behind a declared name, opens parameters and not an initializer. -/
def startsParameters (place : Place) (ahead : List Word) : Bool :=
  let ws := (ahead.take window).drop 1
  match kind? ws with
  | none => false
  | some k =>
    if startsValue k then false
    else if place != .block then true
    else if k == .rParen || k.isBuiltinType || k.isDeclModifier then true
    else
      match behindName ws with
      | none => false
      | some rest => startsWith .ident (rest.dropWhile ([Kind.star, .amp, .ampAmp].contains ·.kind))

/-- Words that may close the head of a class. -/
def isFinal (text : String) : Bool := text == "final" || text == "sealed"

/-- Drops macros such as a visibility marker: identifiers in front of another one. -/
def skipMarkers : List Word → List Word
  | w :: next =>
    if w.kind == .ident && startsWith .ident next then skipMarkers next else w :: next
  | [] => []

/-- The first brace comes before any semicolon and closing brace. -/
def reachesBody (ws : List Word) : Bool :=
  startsWith .lBrace (ws.dropWhile fun w => !([Kind.lBrace, .semicolon, .rBrace].contains w.kind))

/-- The class or enumeration ahead has a body. -/
def startsTypeDefinition (ahead : List Word) : Bool :=
  let ws := (ahead.take window).drop 1
  let ws := if startsWithAny [.classKw, .structKw] ws then ws.drop 1 else ws
  let ws := skipMarkers ws
  match if startsWithAny [.ident, .colonColon] ws then behindName ws else some ws with
  | none => false
  | some ws =>
    let ws :=
      match ws with
      | w :: next => if w.kind == .ident && isFinal w.text then next else ws
      | [] => []
    match kind? ws with
    | some .lBrace => true
    | some .colon => reachesBody (ws.drop 1)
    | _ => false

/-- Capitals, digits and underscores, two at least and a capital among them, as macros have it. -/
def isMacroName (text : String) : Bool :=
  2 ≤ text.utf8ByteSize && text.toList.any Char.isUpper &&
    text.toList.all fun c => c.isUpper || c.isDigit || c == '_'

/-- What makes a name that looks like a macro part of a declaration. -/
def continuesDeclaration (k : Kind) : Bool :=
  [Kind.semicolon, .comma, .eq, .colonColon, .lt, .lBrace, .star, .amp, .lBracket].contains k

/-- The macro ahead stands by itself: a line break or a closing brace follows it. -/
def startsMacroCall (place : Place) (ahead : List Word) : Bool :=
  let ws := ahead.take 512
  match ws with
  | [] => false
  | name :: rest =>
    if place == .block || !isMacroName name.text then false
    else if startsWith .lParen rest then
      match closeParens 0 rest with
      | none => false
      | some [] => true
      | some (w :: _) => w.kind == .rBrace || w.kind == .semicolon || w.gap == .newline
    else
      match rest with
      | [] => true
      | w :: _ =>
        w.kind == .rBrace || (!continuesDeclaration w.kind && w.gap == .newline)

end CppRefactor.Grammar.Guess
