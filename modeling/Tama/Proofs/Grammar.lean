import Tama.Parser.Lexeme
import Tama.Tree

/-!
# The grammar as a relation

What a program is, said without a parser. A text is a sequence of lexemes with gaps and comments
before them and at its end (`Lexes`); the rules of the grammar then say which sequences of lexemes
are operands, expressions and statements, and which trees they stand for. A rule knows neither
order nor preference: where two of them apply, both do.

Main definition: `Derives text trees`.
-/

set_option autoImplicit false

namespace Tama.Grammar

/-! ## Lexemes -/

/-- A word or symbol of a program. A literal is told by its digits, of which it may have more than
can be read. -/
inductive Lexeme where
  | integer (digits : List Char)
  | keyword (k : Keyword)
  | name (x : String)
  | symbol (c : Char)
  deriving DecidableEq, Repr

/-- The characters that are a symbol each. -/
def symbols : List Char :=
  ['+', '=', '(', ')', '{', '}', ',', ';']

/-- No character of a class stands at the start of a text. -/
def NotNext (p : Char → Bool) (text : List Char) : Prop :=
  ∀ c ∈ text.head?, p c = false

/-- A comment, without the line feed that ends it. -/
inductive Comment : List Char → Prop
  | hash {body : List Char} : '\n' ∉ body → Comment ('#' :: body)
  | slashes {body : List Char} : '\n' ∉ body → Comment ('/' :: '/' :: body)

/-- `Skips text rest`: `rest` is left of `text` after some gaps and comments. A comment reaches to
the end of its line. -/
inductive Skips : List Char → List Char → Prop
  | refl (text : List Char) : Skips text text
  | gap {c : Char} {text rest : List Char} : Blank.isGap c = true → Skips text rest →
      Skips (c :: text) rest
  | comment {body text rest : List Char} : Comment body → NotNext (· ≠ '\n') text →
      Skips text rest → Skips (body ++ text) rest

/-- `Spells text w rest`: the lexeme `w` stands at the start of `text`, and `rest` follows it. A
literal and a word are as long as they can be; a keyword is not followed by a character that would
make it part of a longer word; a name is a word that is no keyword. -/
inductive Spells : List Char → Lexeme → List Char → Prop
  | integer {digits rest : List Char} : digits ≠ [] → (∀ c ∈ digits, Digit.isDigit c = true) →
      NotNext Digit.isDigit rest → Spells (digits ++ rest) (.integer digits) rest
  | keyword (k : Keyword) {rest : List Char} : NotNext Word.joinsKeyword rest →
      Spells (k.spelling ++ rest) (.keyword k) rest
  | name {c : Char} {word rest : List Char} : Word.isStart c = true →
      (∀ d ∈ word, Word.isPart d = true) → NotNext Word.isPart rest →
      Keyword.ofWord? (c :: word) = none →
      Spells (c :: word ++ rest) (.name (String.ofList (c :: word))) rest
  | symbol {c : Char} {rest : List Char} : c ∈ symbols → Spells (c :: rest) (.symbol c) rest

/-- The lexemes of a text. -/
inductive Lexes : List Char → List Lexeme → Prop
  | nil {text : List Char} : Skips text [] → Lexes text []
  | cons {text start rest : List Char} {w : Lexeme} {ws : List Lexeme} : Skips text start →
      Spells start w rest → Lexes rest ws → Lexes text (w :: ws)

/-! ## Repetition -/

/-- Any number of items, one after the other. -/
inductive Star {α : Type} (G : List Lexeme → α → Prop) : List Lexeme → List α → Prop
  | nil : Star G [] []
  | cons {ws vs : List Lexeme} {a : α} {as : List α} : G ws a → Star G vs as →
      Star G (ws ++ vs) (a :: as)

/-- One item or more, with commas between them. -/
inductive Separated {α : Type} (G : List Lexeme → α → Prop) : List Lexeme → List α → Prop
  | one {ws : List Lexeme} {a : α} : G ws a → Separated G ws [a]
  | cons {ws vs : List Lexeme} {a : α} {as : List α} : G ws a → Separated G vs as →
      Separated G (ws ++ .symbol ',' :: vs) (a :: as)

/-- Any number of items, with commas between them. -/
inductive Listed {α : Type} (G : List Lexeme → α → Prop) : List Lexeme → List α → Prop
  | none : Listed G [] []
  | some {ws : List Lexeme} {as : List α} : Separated G ws as → Listed G ws as

/-- Operands with `+` between them; the sum of all but the last is the left operand of the last
addition. -/
inductive Sum (G : List Lexeme → Tree → Prop) : List Lexeme → Tree → Prop
  | operand {ws : List Lexeme} {t : Tree} : G ws t → Sum G ws t
  | add {ws vs : List Lexeme} {l r : Tree} : Sum G ws l → G vs r →
      Sum G (ws ++ .symbol '+' :: vs) (.add l r)

/-! ## Rules -/

/-- The operands of an addition. Parentheses leave no node. -/
inductive Operand : List Lexeme → Tree → Prop
  | integer (digits : List Char) : Operand [.integer digits] (.int (Digit.number digits))
  | true : Operand [.keyword .true] (.bool true)
  | false : Operand [.keyword .false] (.bool false)
  | null : Operand [.keyword .null] .null
  | call (f : String) {ws : List Lexeme} {args : List Tree} : Listed (Sum Operand) ws args →
      Operand (.name f :: .symbol '(' :: (ws ++ [.symbol ')'])) (.call f args)
  | var (x : String) : Operand [.name x] (.var x)
  | parenthesized {ws : List Lexeme} {t : Tree} : Sum Operand ws t →
      Operand (.symbol '(' :: (ws ++ [.symbol ')'])) t

/-- The expressions. -/
abbrev Expression : List Lexeme → Tree → Prop :=
  Sum Operand

/-- A parameter of a function. -/
inductive Parameter : List Lexeme → String → Prop
  | name (x : String) : Parameter [.name x] x

/-- The statements. -/
inductive Statement : List Lexeme → Tree → Prop
  | definition (f : String) {ps bs : List Lexeme} {params : List String} {body : List Tree} :
      Listed Parameter ps params → Star Statement bs body →
      Statement (.keyword .define :: .name f :: .symbol '(' ::
        (ps ++ .symbol ')' :: .symbol '{' :: (bs ++ [.symbol '}']))) (.definition f params body)
  | conditional {cs bs : List Lexeme} {condition : Tree} {body : List Tree} :
      Expression cs condition → Star Statement bs body →
      Statement (.keyword .cond :: .symbol '(' ::
        (cs ++ .symbol ')' :: .symbol '{' :: (bs ++ [.symbol '}']))) (.conditional condition body)
  | assignment (x : String) {es : List Lexeme} {e : Tree} : Expression es e →
      Statement (.name x :: .symbol '=' :: (es ++ [.symbol ';'])) (.assignment x e)
  | expression {es : List Lexeme} {e : Tree} : Expression es e →
      Statement (es ++ [.symbol ';']) e

/-! ## Programs -/

/-- A literal has no more digits than can be read. -/
def Lexeme.Readable : Lexeme → Prop
  | integer digits => digits.length ≤ Decimal.maxDigits
  | _ => True

/-- The lexemes of a text, all of which can be read. -/
structure Lexed (text : List Char) (ws : List Lexeme) : Prop where
  lexes : Lexes text ws
  readable : ∀ w ∈ ws, w.Readable

/-- A text is a program that stands for these trees. -/
def Derives (text : List Char) (trees : List Tree) : Prop :=
  ∃ ws, Lexed text ws ∧ Star Statement ws trees

end Tama.Grammar
