/-!
The kinds of tokens and nodes of a syntax tree, and the classes of tokens the grammar asks about.
-/

namespace CppRefactor

/-- What a token or a node of the tree is. The kinds up to `whileKw` are those of tokens; `error`
is both a token that no pattern matches and a node that holds skipped tokens. -/
inductive Kind
  | whitespace | lineComment | blockComment | preproc
  | ident | intNumber | floatNumber | charLit | stringLit
  | lBrace | rBrace | lBracket | rBracket | lParen | rParen | semicolon | colon | colonColon
  | comma | dot | ellipsis | arrow | question | eq | eqEq | bangEq | lt | gt | ltEq | gtEq | shl
  | plus | minus | star | slash | percent | amp | ampAmp | pipe | pipePipe | caret | tilde
  | bang | plusPlus | minusMinus | compoundAssign
  | autoKw | boolKw | breakKw | caseKw | catchKw | charKw | char8TKw | char16TKw | char32TKw
  | classKw | constKw | constexprKw | continueKw | decltypeKw | defaultKw | deleteKw | doKw
  | doubleKw | elseKw | enumKw | explicitKw | externKw | falseKw | floatKw | forKw | friendKw
  | gotoKw | ifKw | inlineKw | intKw | longKw | mutableKw | namespaceKw | newKw | noexceptKw
  | nullptrKw | operatorKw | privateKw | protectedKw | publicKw | registerKw | returnKw
  | shortKw | signedKw | sizeofKw | staticKw | staticAssertKw | structKw | switchKw | templateKw
  | thisKw | throwKw | trueKw | tryKw | typedefKw | typenameKw | unionKw | unsignedKw | usingKw
  | virtualKw | voidKw | volatileKw | wcharTKw | whileKw
  | sourceFile | namespaceDef | namespaceAlias | declList | linkageSpec | usingDirective
  | usingDecl | aliasDecl | templateDecl | templateParamList | templateParam | templateArgList
  | staticAssert | macroCall | emptyDecl | simpleDecl | functionDef | declSpecifiers
  | elaboratedType | classSpec | baseClause | baseSpec | memberList | accessSpec | enumSpec
  | enumBase | enumeratorList | enumerator | initDeclarator | declarator | nestedDeclarator
  | ptrOp | arraySuffix | paramList | param | trailingReturn | initializer | ctorInit | memInit
  | qualifiedName | compoundStmt | exprStmt | switchStmt | caseLabel | defaultLabel | ifStmt
  | forStmt | whileStmt | doStmt | returnStmt | breakStmt | continueStmt | gotoStmt | tryStmt
  | catchClause | condition | expr | literal | nameRef | argList | parenExpr | bracketExpr
  | bracedInit | error
  deriving DecidableEq, Repr, Inhabited

namespace Kind

/-- The name a kind is reported by. -/
def name : Kind → String
  | .whitespace => "WHITESPACE"
  | .lineComment => "LINE_COMMENT"
  | .blockComment => "BLOCK_COMMENT"
  | .preproc => "PREPROC"
  | .ident => "IDENT"
  | .intNumber => "INT_NUMBER"
  | .floatNumber => "FLOAT_NUMBER"
  | .charLit => "CHAR_LIT"
  | .stringLit => "STRING_LIT"
  | .lBrace => "L_BRACE"
  | .rBrace => "R_BRACE"
  | .lBracket => "L_BRACKET"
  | .rBracket => "R_BRACKET"
  | .lParen => "L_PAREN"
  | .rParen => "R_PAREN"
  | .semicolon => "SEMICOLON"
  | .colon => "COLON"
  | .colonColon => "COLON_COLON"
  | .comma => "COMMA"
  | .dot => "DOT"
  | .ellipsis => "ELLIPSIS"
  | .arrow => "ARROW"
  | .question => "QUESTION"
  | .eq => "EQ"
  | .eqEq => "EQ_EQ"
  | .bangEq => "BANG_EQ"
  | .lt => "LT"
  | .gt => "GT"
  | .ltEq => "LT_EQ"
  | .gtEq => "GT_EQ"
  | .shl => "SHL"
  | .plus => "PLUS"
  | .minus => "MINUS"
  | .star => "STAR"
  | .slash => "SLASH"
  | .percent => "PERCENT"
  | .amp => "AMP"
  | .ampAmp => "AMP_AMP"
  | .pipe => "PIPE"
  | .pipePipe => "PIPE_PIPE"
  | .caret => "CARET"
  | .tilde => "TILDE"
  | .bang => "BANG"
  | .plusPlus => "PLUS_PLUS"
  | .minusMinus => "MINUS_MINUS"
  | .compoundAssign => "COMPOUND_ASSIGN"
  | .autoKw => "AUTO_KW"
  | .boolKw => "BOOL_KW"
  | .breakKw => "BREAK_KW"
  | .caseKw => "CASE_KW"
  | .catchKw => "CATCH_KW"
  | .charKw => "CHAR_KW"
  | .char8TKw => "CHAR8_T_KW"
  | .char16TKw => "CHAR16_T_KW"
  | .char32TKw => "CHAR32_T_KW"
  | .classKw => "CLASS_KW"
  | .constKw => "CONST_KW"
  | .constexprKw => "CONSTEXPR_KW"
  | .continueKw => "CONTINUE_KW"
  | .decltypeKw => "DECLTYPE_KW"
  | .defaultKw => "DEFAULT_KW"
  | .deleteKw => "DELETE_KW"
  | .doKw => "DO_KW"
  | .doubleKw => "DOUBLE_KW"
  | .elseKw => "ELSE_KW"
  | .enumKw => "ENUM_KW"
  | .explicitKw => "EXPLICIT_KW"
  | .externKw => "EXTERN_KW"
  | .falseKw => "FALSE_KW"
  | .floatKw => "FLOAT_KW"
  | .forKw => "FOR_KW"
  | .friendKw => "FRIEND_KW"
  | .gotoKw => "GOTO_KW"
  | .ifKw => "IF_KW"
  | .inlineKw => "INLINE_KW"
  | .intKw => "INT_KW"
  | .longKw => "LONG_KW"
  | .mutableKw => "MUTABLE_KW"
  | .namespaceKw => "NAMESPACE_KW"
  | .newKw => "NEW_KW"
  | .noexceptKw => "NOEXCEPT_KW"
  | .nullptrKw => "NULLPTR_KW"
  | .operatorKw => "OPERATOR_KW"
  | .privateKw => "PRIVATE_KW"
  | .protectedKw => "PROTECTED_KW"
  | .publicKw => "PUBLIC_KW"
  | .registerKw => "REGISTER_KW"
  | .returnKw => "RETURN_KW"
  | .shortKw => "SHORT_KW"
  | .signedKw => "SIGNED_KW"
  | .sizeofKw => "SIZEOF_KW"
  | .staticKw => "STATIC_KW"
  | .staticAssertKw => "STATIC_ASSERT_KW"
  | .structKw => "STRUCT_KW"
  | .switchKw => "SWITCH_KW"
  | .templateKw => "TEMPLATE_KW"
  | .thisKw => "THIS_KW"
  | .throwKw => "THROW_KW"
  | .trueKw => "TRUE_KW"
  | .tryKw => "TRY_KW"
  | .typedefKw => "TYPEDEF_KW"
  | .typenameKw => "TYPENAME_KW"
  | .unionKw => "UNION_KW"
  | .unsignedKw => "UNSIGNED_KW"
  | .usingKw => "USING_KW"
  | .virtualKw => "VIRTUAL_KW"
  | .voidKw => "VOID_KW"
  | .volatileKw => "VOLATILE_KW"
  | .wcharTKw => "WCHAR_T_KW"
  | .whileKw => "WHILE_KW"
  | .sourceFile => "SOURCE_FILE"
  | .namespaceDef => "NAMESPACE_DEF"
  | .namespaceAlias => "NAMESPACE_ALIAS"
  | .declList => "DECL_LIST"
  | .linkageSpec => "LINKAGE_SPEC"
  | .usingDirective => "USING_DIRECTIVE"
  | .usingDecl => "USING_DECL"
  | .aliasDecl => "ALIAS_DECL"
  | .templateDecl => "TEMPLATE_DECL"
  | .templateParamList => "TEMPLATE_PARAM_LIST"
  | .templateParam => "TEMPLATE_PARAM"
  | .templateArgList => "TEMPLATE_ARG_LIST"
  | .staticAssert => "STATIC_ASSERT"
  | .macroCall => "MACRO_CALL"
  | .emptyDecl => "EMPTY_DECL"
  | .simpleDecl => "SIMPLE_DECL"
  | .functionDef => "FUNCTION_DEF"
  | .declSpecifiers => "DECL_SPECIFIERS"
  | .elaboratedType => "ELABORATED_TYPE"
  | .classSpec => "CLASS_SPEC"
  | .baseClause => "BASE_CLAUSE"
  | .baseSpec => "BASE_SPEC"
  | .memberList => "MEMBER_LIST"
  | .accessSpec => "ACCESS_SPEC"
  | .enumSpec => "ENUM_SPEC"
  | .enumBase => "ENUM_BASE"
  | .enumeratorList => "ENUMERATOR_LIST"
  | .enumerator => "ENUMERATOR"
  | .initDeclarator => "INIT_DECLARATOR"
  | .declarator => "DECLARATOR"
  | .nestedDeclarator => "NESTED_DECLARATOR"
  | .ptrOp => "PTR_OP"
  | .arraySuffix => "ARRAY_SUFFIX"
  | .paramList => "PARAM_LIST"
  | .param => "PARAM"
  | .trailingReturn => "TRAILING_RETURN"
  | .initializer => "INITIALIZER"
  | .ctorInit => "CTOR_INIT"
  | .memInit => "MEM_INIT"
  | .qualifiedName => "QUALIFIED_NAME"
  | .compoundStmt => "COMPOUND_STMT"
  | .exprStmt => "EXPR_STMT"
  | .switchStmt => "SWITCH_STMT"
  | .caseLabel => "CASE_LABEL"
  | .defaultLabel => "DEFAULT_LABEL"
  | .ifStmt => "IF_STMT"
  | .forStmt => "FOR_STMT"
  | .whileStmt => "WHILE_STMT"
  | .doStmt => "DO_STMT"
  | .returnStmt => "RETURN_STMT"
  | .breakStmt => "BREAK_STMT"
  | .continueStmt => "CONTINUE_STMT"
  | .gotoStmt => "GOTO_STMT"
  | .tryStmt => "TRY_STMT"
  | .catchClause => "CATCH_CLAUSE"
  | .condition => "CONDITION"
  | .expr => "EXPR"
  | .literal => "LITERAL"
  | .nameRef => "NAME_REF"
  | .argList => "ARG_LIST"
  | .parenExpr => "PAREN_EXPR"
  | .bracketExpr => "BRACKET_EXPR"
  | .bracedInit => "BRACED_INIT"
  | .error => "ERROR"

/-- White space, comments and preprocessor lines: the tokens the grammar does not see. -/
def isTrivia : Kind → Bool
  | .whitespace | .lineComment | .blockComment | .preproc => true
  | _ => false

def isKeyword : Kind → Bool
  | .autoKw | .boolKw | .breakKw | .caseKw | .catchKw | .charKw | .char8TKw | .char16TKw
  | .char32TKw | .classKw | .constKw | .constexprKw | .continueKw | .decltypeKw | .defaultKw
  | .deleteKw | .doKw | .doubleKw | .elseKw | .enumKw | .explicitKw | .externKw | .falseKw
  | .floatKw | .forKw | .friendKw | .gotoKw | .ifKw | .inlineKw | .intKw | .longKw | .mutableKw
  | .namespaceKw | .newKw | .noexceptKw | .nullptrKw | .operatorKw | .privateKw | .protectedKw
  | .publicKw | .registerKw | .returnKw | .shortKw | .signedKw | .sizeofKw | .staticKw
  | .staticAssertKw | .structKw | .switchKw | .templateKw | .thisKw | .throwKw | .trueKw
  | .tryKw | .typedefKw | .typenameKw | .unionKw | .unsignedKw | .usingKw | .virtualKw | .voidKw
  | .volatileKw | .wcharTKw | .whileKw => true
  | _ => false

/-- Numbers, characters and strings. -/
def isLiteral : Kind → Bool
  | .intNumber | .floatNumber | .charLit | .stringLit => true
  | _ => false

/-- Identifiers, keywords and literals: two of them in a row need a space between them. -/
def isWord (k : Kind) : Bool :=
  k == .ident || k.isKeyword || k.isLiteral

/-- Keywords that name a built-in type or a part of one. -/
def isBuiltinType : Kind → Bool
  | .autoKw | .boolKw | .charKw | .char8TKw | .char16TKw | .char32TKw | .doubleKw | .floatKw
  | .intKw | .longKw | .shortKw | .signedKw | .unsignedKw | .voidKw | .wcharTKw => true
  | _ => false

/-- Keywords that qualify a declaration without naming a type. -/
def isDeclModifier : Kind → Bool
  | .constKw | .volatileKw | .staticKw | .externKw | .inlineKw | .virtualKw | .explicitKw
  | .friendKw | .constexprKw | .mutableKw | .registerKw | .typedefKw | .typenameKw => true
  | _ => false

/-- The keyword an identifier spells. -/
def keyword? : String → Option Kind
  | "auto" => some .autoKw
  | "bool" => some .boolKw
  | "break" => some .breakKw
  | "case" => some .caseKw
  | "catch" => some .catchKw
  | "char" => some .charKw
  | "char8_t" => some .char8TKw
  | "char16_t" => some .char16TKw
  | "char32_t" => some .char32TKw
  | "class" => some .classKw
  | "const" => some .constKw
  | "constexpr" => some .constexprKw
  | "continue" => some .continueKw
  | "decltype" => some .decltypeKw
  | "default" => some .defaultKw
  | "delete" => some .deleteKw
  | "do" => some .doKw
  | "double" => some .doubleKw
  | "else" => some .elseKw
  | "enum" => some .enumKw
  | "explicit" => some .explicitKw
  | "extern" => some .externKw
  | "false" => some .falseKw
  | "float" => some .floatKw
  | "for" => some .forKw
  | "friend" => some .friendKw
  | "goto" => some .gotoKw
  | "if" => some .ifKw
  | "inline" => some .inlineKw
  | "int" => some .intKw
  | "long" => some .longKw
  | "mutable" => some .mutableKw
  | "namespace" => some .namespaceKw
  | "new" => some .newKw
  | "noexcept" => some .noexceptKw
  | "nullptr" => some .nullptrKw
  | "operator" => some .operatorKw
  | "private" => some .privateKw
  | "protected" => some .protectedKw
  | "public" => some .publicKw
  | "register" => some .registerKw
  | "return" => some .returnKw
  | "short" => some .shortKw
  | "signed" => some .signedKw
  | "sizeof" => some .sizeofKw
  | "static" => some .staticKw
  | "static_assert" => some .staticAssertKw
  | "struct" => some .structKw
  | "switch" => some .switchKw
  | "template" => some .templateKw
  | "this" => some .thisKw
  | "throw" => some .throwKw
  | "true" => some .trueKw
  | "try" => some .tryKw
  | "typedef" => some .typedefKw
  | "typename" => some .typenameKw
  | "union" => some .unionKw
  | "unsigned" => some .unsignedKw
  | "using" => some .usingKw
  | "virtual" => some .virtualKw
  | "void" => some .voidKw
  | "volatile" => some .volatileKw
  | "wchar_t" => some .wcharTKw
  | "while" => some .whileKw
  | _ => none

end Kind

end CppRefactor
