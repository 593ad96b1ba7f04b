import CppRefactor.Syntax.Token
import CppRefactor.Text.Identifier

/-!
Splitting a text into tokens. Each token is the longest that a pattern allows; a character that
begins no pattern is an `error` token of its own, so every character belongs to one token.
-/

namespace CppRefactor.Lexer

/-- How many characters at the front satisfy `p`. -/
def run (p : Char → Bool) (cs : List Char) : Nat := (cs.takeWhile p).length

def isSpace (c : Char) : Bool :=
  c == ' ' || c == '\t' || c == '\r' || c == '\n' || c == '\x0c'

/-- A directive goes on behind a backslash and ends at a line feed; a backslash at the end of the
text is not part of it. -/
def directive : List Char → Nat
  | '\\' :: _ :: cs => 2 + directive cs
  | ['\\'] => 0
  | c :: cs => if c = '\n' then 0 else 1 + directive cs
  | [] => 0

/-- A block comment runs to the slash behind its closing star and leaves that slash over; `starred`
says that the character before was a star inside the comment. -/
def comment (starred : Bool) : List Char → Nat
  | [] => 0
  | c :: cs =>
    if c = '/' && starred then 0 else 1 + comment (c == '*') cs

/-- The rest of a quoted literal, and whether its closing quote is there. A line feed ends the
literal, and so does the end of the text; a backslash directly before either is left out. -/
def quoted (quote : Char) : List Char → Bool × Nat
  | [] => (false, 0)
  | '\\' :: rest =>
    match rest with
    | [] => (false, 0)
    | c :: cs =>
      if c = '\n' then (false, 0)
      else
        let (closed, n) := quoted quote cs
        (closed, n + 2)
  | c :: cs =>
    if c = quote then (true, 1)
    else if c = '\n' then (false, 0)
    else
      let (closed, n) := quoted quote cs
      (closed, n + 1)

/-- Digits of a decimal number, with quotes between them. -/
def isDigitOrQuote (c : Char) : Bool := c.isDigit || c == '\''

def isHexOrQuote (c : Char) : Bool :=
  isDigitOrQuote c || ('a' ≤ c && c ≤ 'f') || ('A' ≤ c && c ≤ 'F')

def isBinaryOrQuote (c : Char) : Bool := c == '0' || c == '1' || c == '\''

def isIntegerSuffix (c : Char) : Bool := "uUlLzZ".toList.contains c

def isFloatSuffix (c : Char) : Bool := "fFlL".toList.contains c

/-- A run of digits, then a suffix. -/
def suffixed (isDigit : Char → Bool) (cs : List Char) : Nat :=
  let n := run isDigit cs
  n + run isIntegerSuffix (cs.drop n)

/-- The length of an integer; its first character is a digit. A base without digits is none. -/
def integer (cs : List Char) : Nat :=
  match cs with
  | '0' :: b :: digits =>
    if (b == 'x' || b == 'X') && run isHexOrQuote digits != 0 then 2 + suffixed isHexOrQuote digits
    else if (b == 'b' || b == 'B') && run isBinaryOrQuote digits != 0 then
      2 + suffixed isBinaryOrQuote digits
    else suffixed isDigitOrQuote cs
  | _ => suffixed isDigitOrQuote cs

/-- The length of an exponent, zero without one. -/
def exponent : List Char → Nat
  | e :: cs =>
    if e == 'e' || e == 'E' then
      match cs with
      | sign :: digits =>
        if sign == '+' || sign == '-' then
          match run Char.isDigit digits with
          | 0 => 0
          | n => n + 2
        else
          match run Char.isDigit cs with
          | 0 => 0
          | n => n + 1
      | [] => 0
    else 0
  | [] => 0

def floatSuffix : List Char → Nat
  | c :: _ => if isFloatSuffix c then 1 else 0
  | [] => 0

/-- An exponent and a suffix, either of which may be missing. -/
def floatTail (cs : List Char) : Nat :=
  let n := exponent cs
  n + floatSuffix (cs.drop n)

/-- The length of a floating-point number, zero if there is none: digits with a point, behind
which digits may be missing, or digits with an exponent. -/
def float (cs : List Char) : Nat :=
  let whole := run isDigitOrQuote cs
  match cs.drop whole with
  | '.' :: fraction =>
    let n := run isDigitOrQuote fraction
    whole + 1 + n + floatTail (fraction.drop n)
  | rest =>
    if exponent rest = 0 then 0 else whole + floatTail rest

/-- A number that starts with a digit. -/
def number (cs : List Char) : Kind × Nat :=
  let n := integer cs
  let m := float cs
  if n < m then (.floatNumber, m) else (.intNumber, n)

/-- The punctuation, longer spellings before their beginnings. -/
def punctuation : List (List Char × Kind) :=
  [("...", .ellipsis), ("<<=", .compoundAssign), (">>=", .compoundAssign),
   ("::", .colonColon), ("->", .arrow), ("==", .eqEq), ("!=", .bangEq), ("<=", .ltEq),
   (">=", .gtEq), ("<<", .shl), ("&&", .ampAmp), ("||", .pipePipe), ("++", .plusPlus),
   ("--", .minusMinus), ("+=", .compoundAssign), ("-=", .compoundAssign),
   ("*=", .compoundAssign), ("/=", .compoundAssign), ("%=", .compoundAssign),
   ("&=", .compoundAssign), ("|=", .compoundAssign), ("^=", .compoundAssign),
   ("\x7b", .lBrace), ("\x7d", .rBrace), ("[", .lBracket), ("]", .rBracket), ("(", .lParen),
   (")", .rParen), (";", .semicolon), (":", .colon), (",", .comma), (".", .dot),
   ("?", .question), ("=", .eq), ("<", .lt), (">", .gt), ("+", .plus), ("-", .minus),
   ("*", .star), ("/", .slash), ("%", .percent), ("&", .amp), ("|", .pipe), ("^", .caret),
   ("~", .tilde), ("!", .bang)].map fun (spelling, kind) => (spelling.toList, kind)

def punctuationAt (cs : List Char) : Option (Kind × Nat) :=
  (punctuation.find? fun (spelling, _) => spelling.isPrefixOf cs).map fun (spelling, kind) =>
    (kind, spelling.length)

/-- The literal that begins with an encoding prefix of a length, if a quote follows the prefix. -/
def literalAt (skip : Nat) (cs : List Char) : Option (Kind × Nat) :=
  match cs.drop skip with
  | '"' :: rest =>
    let (closed, n) := quoted '"' rest
    some (if closed then .stringLit else .error, skip + 1 + n)
  | '\'' :: rest =>
    let (closed, n) := quoted '\'' rest
    some (if closed then .charLit else .error, skip + 1 + n)
  | _ => none

/-- The length of the encoding prefix of a literal. -/
def encodingPrefix : List Char → Nat
  | 'u' :: '8' :: _ => 2
  | 'u' :: _ => 1
  | 'U' :: _ => 1
  | 'L' :: _ => 1
  | _ => 0

def identifier (cs : List Char) : Kind × Nat :=
  let n := run Text.continuesIdentifier cs
  ((Kind.keyword? (.ofList (cs.take n))).getD .ident, n)

/-- The token at the front: its kind and its length in characters. -/
def scan (cs : List Char) : Kind × Nat :=
  match literalAt (encodingPrefix cs) cs with
  | some found => found
  | none =>
    match cs with
    | [] => (.error, 0)
    | c :: rest =>
      if isSpace c then (.whitespace, run isSpace cs)
      else if Text.startsIdentifier c then identifier cs
      else if c.isDigit then number cs
      else
        match c, rest with
        | '/', '/' :: _ => (.lineComment, run (· != '\n') cs)
        | '/', '*' :: body => (.error, 2 + comment false body)
        | '#', _ => (.preproc, 1 + directive rest)
        | '.', d :: _ =>
          if d.isDigit then (.floatNumber, float cs)
          else (punctuationAt cs).getD (.error, 1)
        | _, _ => (punctuationAt cs).getD (.error, 1)

/-- The tokens of the characters left once `skip` of them, already in a token, are passed over.
A token has at least one character. -/
def tokens (offset : Nat) : Nat → List Char → List Token
  | _, [] => []
  | skip + 1, _ :: cs => tokens offset skip cs
  | 0, c :: cs =>
    let (kind, n) := scan (c :: cs)
    let text := String.ofList (c :: cs.take (n - 1))
    ⟨kind, offset, text⟩ :: tokens (offset + text.utf8ByteSize) (n - 1) cs

end Lexer

/-- Every token of a text, trivia included. -/
def tokenize (text : String) : List Token := Lexer.tokens 0 0 text.toList

end CppRefactor
