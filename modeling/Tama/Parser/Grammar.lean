import Tama.Parser.Lexeme
import Tama.Tree

/-!
# The grammar

```
program     ::= statement*
statement   ::= 'def' name '(' [name (',' name)*] ')' block
              | 'if' '(' expression ')' block
              | name '=' expression ';'
              | expression ';'
block       ::= '{' statement* '}'
expression  ::= operand ('+' operand)*
operand     ::= integer | 'true' | 'false' | 'null' | name '(' [expression (',' expression)*] ')'
              | name | '(' expression ')'
```

Alternatives are tried in order and repetitions read as much as they can. Expressions and
statements refer to themselves; each takes the depth of nesting that is left for it, and the rules
between take the parsers of what stands inside them.
-/

set_option autoImplicit false

namespace Tama.Parser

/-! ## Expressions -/

/-- Reads a truth value. -/
def boolean : Parser Tree :=
  orElse (do keyword .true; return .bool true) (do keyword .false; return .bool false)

/-- Reads the arguments of a call, parentheses included. -/
def callArguments (expression : Parser Tree) : Parser (List Tree) := do
  symbol '('
  let args ← orEmpty (separatedBy (symbol ',') expression)
  symbol ')'
  return args

/-- Reads a call. -/
def call (expression : Parser Tree) : Parser Tree := do
  let f ← name
  let args ← callArguments expression
  return .call f args

/-- Reads an expression in parentheses. -/
def parenthesized (expression : Parser Tree) : Parser Tree := do
  openOperand
  let e ← expression
  symbol ')'
  return e

/-- Reads an operand, given how the expressions inside it are read. -/
def operand (expression : Parser Tree) : Parser Tree :=
  orElse (do return .int (← integer)) <|
  orElse boolean <|
  orElse (do keyword .null; return .null) <|
  orElse (call expression) <|
  orElse (do return .var (← name)) <|
  parenthesized expression

/-- Reads operands with `+` between them, nested to the left. -/
def addition (operand : Parser Tree) : Parser Tree := do
  let first ← operand
  let rest ← many do
    symbol '+'
    operand
  return Tree.sum first rest

/-- Reads an expression that nests at most so deep. -/
def expressionAt : Nat → Parser Tree
  | 0 => halt .tooDeep
  | depth + 1 => addition (operand (expressionAt depth))

/-! ## Statements -/

/-- Reads a block, given how the statements inside it are read. -/
def block (statement : Parser Tree) : Parser (List Tree) := do
  symbol '{'
  let body ← many statement
  symbol '}'
  return body

/-- Reads a function definition. -/
def functionDefinition (statement : Parser Tree) : Parser Tree := do
  keyword .define
  let f ← name
  symbol '('
  let params ← orEmpty (separatedBy (symbol ',') name)
  symbol ')'
  let body ← block statement
  return .definition f params body

/-- Reads a conditional. -/
def conditional (expression statement : Parser Tree) : Parser Tree := do
  keyword .cond
  symbol '('
  let condition ← expression
  symbol ')'
  let body ← block statement
  return .conditional condition body

/-- Reads an assignment. -/
def assignment (expression : Parser Tree) : Parser Tree := do
  let x ← name
  symbol '='
  let e ← expression
  symbol ';'
  return .assignment x e

/-- Reads an expression that stands as a statement. -/
def expressionStatement (expression : Parser Tree) : Parser Tree := do
  let e ← expression
  symbol ';'
  return e

/-- Reads a statement whose blocks nest at most so deep. -/
def statementAt (expression : Parser Tree) : Nat → Parser Tree
  | 0 => halt .tooDeep
  | depth + 1 =>
    orElse (functionDefinition (statementAt expression depth)) <|
    orElse (conditional expression (statementAt expression depth)) <|
    orElse (assignment expression) (expressionStatement expression)

/-! ## Whole texts -/

/-- Reads a program up to the end of the text. Its expressions, and its statements, nest at most
so deep. -/
def program (nesting : Nat) : Parser (List Tree) := do
  let body ← many (statementAt (expressionAt nesting) nesting)
  ending
  return body

/-- Reads an expression up to the end of the text. It nests at most so deep. -/
def wholeExpression (nesting : Nat) : Parser Tree := do
  let e ← expressionAt nesting
  ending
  return e

/-- Reads a text whatever its nesting is: no text nests deeper than it is long. -/
def unlimited {α : Type} (p : Nat → Parser α) : Parser α := fun text =>
  p (text.length + 1) text

end Tama.Parser
