import FlatNet.Expr.Parser
import FlatNet.Problem

/-!
# Tokens of netlist text

A token has a kind, the text that it is quoted by, and the place where it begins.  A faulty piece
of text gives no token but a fault; a `Lexeme` is one or the other.
-/

set_option autoImplicit false

namespace FlatNet

/-- The kinds of tokens. -/
inductive TokenKind where
  /-- The name of an element, a node, a model or a sub-circuit. -/
  | identifier
  /-- A text in double quotes, or the title. -/
  | quotedString
  /-- A command, with its leading point. -/
  | command
  /-- A parameter with its value. -/
  | paramDef (name : String) (value : Expr)
  /-- A literal of digits. -/
  | integer
  /-- A literal with a point. -/
  | float
  /-- A literal with a power of ten. -/
  | scientific
  /-- A literal with a magnitude suffix; its text is the exponent form. -/
  | scaled
  /-- An expression in braces; its text is free of magnitude suffixes. -/
  | expression (value : Expr)
  /-- A word with the characters of a path. -/
  | fileName
  /-- The mark of a continuation line. -/
  | plus
  /-- A comment. -/
  | comment
  /-- The end of a line. -/
  | newline

/-- A token. -/
structure Token where
  kind : TokenKind
  text : String
  line : Nat
  column : Nat

namespace TokenKind

/-- The kind of a numeric literal. -/
def isNumeric : TokenKind → Bool
  | integer | float | scientific | scaled => true
  | _ => false

end TokenKind

namespace Token

/-- The number of a numeric literal. -/
def number? (t : Token) : Option Binary64 :=
  if t.kind.isNumeric then Binary64.ofLiteral? t.text.toList else none

/-- The value of a numeric literal or an expression in braces. -/
def value? (t : Token) : Option Expr :=
  match t.kind with
  | .expression value => some value
  | _ => t.number?.map .num

/-- The token can name a node. -/
def isNodeName (t : Token) : Bool :=
  match t.kind with
  | .identifier | .integer => true
  | _ => false

/-- The token is an identifier. -/
def isIdentifier (t : Token) : Bool :=
  match t.kind with
  | .identifier => true
  | _ => false

/-- The token is a command. -/
def isCommand (t : Token) : Bool :=
  match t.kind with
  | .command => true
  | _ => false

/-- The token defines a parameter. -/
def isParamDef (t : Token) : Bool :=
  match t.kind with
  | .paramDef _ _ => true
  | _ => false

/-- The token can name a library file. -/
def isLibraryName (t : Token) : Bool :=
  match t.kind with
  | .fileName | .identifier | .quotedString => true
  | _ => false

end Token

/-- A faulty piece of text. -/
structure LexFault where
  problem : Problem
  line : Nat
  column : Nat
  deriving DecidableEq

/-- What a piece of text gives: a token or a fault. -/
inductive Lexeme where
  | token (token : Token)
  | fault (fault : LexFault)

namespace Lexeme

/-- The token, if it is one. -/
def token? : Lexeme → Option Token
  | token t => some t
  | fault _ => none

/-- The fault, if it is one. -/
def fault? : Lexeme → Option LexFault
  | token _ => none
  | fault f => some f

end Lexeme

end FlatNet
