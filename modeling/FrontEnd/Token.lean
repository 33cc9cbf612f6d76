/-
**Tokens.**

A token has a kind, a payload and a position.  Operators, delimiters and reserved words are known
by their kind alone; literals and identifiers carry what they stand for.  Nothing ties a payload to
a kind, so reading a token as a literal or a name checks both.

Main definitions:

* `FrontEnd.TokenKind`, `FrontEnd.TokenKind.spelling` — the kinds and how they are written;
* `FrontEnd.TokenKind.precedence` — how tightly an operator binds;
* `FrontEnd.TokenKind.ofWord?` — the reserved words;
* `FrontEnd.Token`, `FrontEnd.Token.describe` — a token and its written form;
* `FrontEnd.Token.identifier`, `FrontEnd.Token.integer`, `FrontEnd.Token.character`,
  `FrontEnd.Token.string` — reading the payload.

Main results:

* `FrontEnd.TokenKind.ofWord?_spelling`, `FrontEnd.TokenKind.spelling_of_ofWord?` — a reserved word
  is the spelling of its kind.
-/

import FrontEnd.Error

set_option relaxedAutoImplicit false
set_option autoImplicit false

namespace FrontEnd

/-! ### Kinds -/

/-- The kinds of tokens. -/
inductive TokenKind where
  | integer
  | character
  | string
  | identifier
  | add
  | subtract
  | multiply
  | divide
  | assign
  | addAssign
  | subtractAssign
  | increment
  | decrement
  | equal
  | notEqual
  | less
  | lessOrEqual
  | greater
  | greaterOrEqual
  | and
  | or
  | not
  | leftParenthesis
  | rightParenthesis
  | leftBrace
  | rightBrace
  | leftBracket
  | rightBracket
  | comma
  | period
  | semicolon
  | varWord
  | typeWord
  | anyTypeWord
  | funcWord
  | ifWord
  | elseWord
  | returnWord
  | forWord
  | whileWord
  | trueWord
  | falseWord
  deriving DecidableEq, Repr

namespace TokenKind

/-- How a kind is written; literals and identifiers, which have no spelling of their own, are
described in angle brackets. -/
def spelling : TokenKind → String
  | integer => "<integer>"
  | character => "<character>"
  | string => "<string>"
  | identifier => "<identifier>"
  | add => "+"
  | subtract => "-"
  | multiply => "*"
  | divide => "/"
  | assign => "="
  | addAssign => "+="
  | subtractAssign => "-="
  | increment => "++"
  | decrement => "--"
  | equal => "=="
  | notEqual => "!="
  | less => "<"
  | lessOrEqual => "<="
  | greater => ">"
  | greaterOrEqual => ">="
  | and => "&&"
  | or => "||"
  | not => "!"
  | leftParenthesis => "("
  | rightParenthesis => ")"
  | leftBrace => "\x7b"
  | rightBrace => "\x7d"
  | leftBracket => "["
  | rightBracket => "]"
  | comma => ","
  | period => "."
  | semicolon => ";"
  | varWord => "var"
  | typeWord => "type"
  | anyTypeWord => "anytype"
  | funcWord => "func"
  | ifWord => "if"
  | elseWord => "else"
  | returnWord => "return"
  | forWord => "for"
  | whileWord => "while"
  | trueWord => "true"
  | falseWord => "false"

/-- The reserved words. -/
def words : List TokenKind :=
  [varWord, typeWord, anyTypeWord, funcWord, ifWord, elseWord, returnWord, forWord, whileWord,
    trueWord, falseWord]

/-- The kind of a reserved word. -/
def ofWord? (word : String) : Option TokenKind := words.find? (·.spelling == word)

/-- A reserved word is the spelling of its kind. -/
theorem spelling_of_ofWord? {word : String} {kind : TokenKind} (h : ofWord? word = some kind) :
    kind.spelling = word := by
  simpa using List.find?_some h

/-- The spelling of a reserved word is read as that word. -/
theorem ofWord?_spelling {kind : TokenKind} (h : kind ∈ words) :
    ofWord? kind.spelling = some kind := by
  simp only [words, List.mem_cons, List.not_mem_nil, or_false] at h
  rcases h with rfl | rfl | rfl | rfl | rfl | rfl | rfl | rfl | rfl | rfl | rfl <;> decide

/-- What is checked of the characters of some spellings holds of them. -/
theorem forall_mem_spelling {kind : TokenKind} {kinds : List TokenKind} {p : Char → Bool}
    (h : (kinds.all fun kind => kind.spelling.toList.all p) = true) (hkind : kind ∈ kinds) :
    ∀ d ∈ kind.spelling.toList, p d := fun d hd =>
  List.all_eq_true.1 (List.all_eq_true.1 h kind hkind) d hd

theorem isLower_of_mem_words {kind : TokenKind} (hkind : kind ∈ words) :
    ∀ d ∈ kind.spelling.toList, d.isLower := by
  have hall : (words.all fun kind => kind.spelling.toList.all Char.isLower) = true := by
    decide +kernel
  exact forall_mem_spelling hall hkind

/-- How tightly an operator binds, the higher the tighter; 0 for what is no operator. -/
def precedence : TokenKind → Nat
  | multiply | divide | not => 5
  | add | subtract => 4
  | equal | notEqual | less | lessOrEqual | greater | greaterOrEqual => 3
  | and => 2
  | or => 1
  | _ => 0

end TokenKind

/-! ### Tokens -/

/-- What a token stands for beyond its kind. -/
inductive Payload where
  | none
  | integer (value : Int)
  | character (byte : UInt8)
  | string (text : String)
  | name (text : String)
  deriving DecidableEq, Repr

/-- A token at its place in the text. -/
structure Token where
  /-- The kind of the token. -/
  kind : TokenKind
  /-- What it stands for. -/
  payload : Payload
  /-- Where it starts. -/
  position : Position
  deriving DecidableEq, Repr

namespace Token

/-- The written form of a token. -/
def describe (t : Token) : String :=
  match t.payload with
  | .name text => text
  | .integer value => toString value
  | .character byte => s!"'{Char.ofNat byte.toNat}'"
  | .string text => s!"\"{text}\""
  | .none => t.kind.spelling

def isOneOf (t : Token) (kinds : List TokenKind) : Bool := kinds.contains t.kind

/-- The refusal to read a token as something of the expected kind. -/
def wrongPayload (t : Token) (expected : TokenKind) : Error :=
  (Cause.wrongPayload expected.spelling t.describe).at t.position

/-- The name that an identifier stands for. -/
def identifier (t : Token) : Except Error String :=
  match t.kind, t.payload with
  | .identifier, .name text => .ok text
  | _, _ => .error (t.wrongPayload .identifier)

def integer (t : Token) : Except Error Int :=
  match t.kind, t.payload with
  | .integer, .integer value => .ok value
  | _, _ => .error (t.wrongPayload .integer)

def character (t : Token) : Except Error UInt8 :=
  match t.kind, t.payload with
  | .character, .character byte => .ok byte
  | _, _ => .error (t.wrongPayload .character)

def string (t : Token) : Except Error String :=
  match t.kind, t.payload with
  | .string, .string text => .ok text
  | _, _ => .error (t.wrongPayload .string)

end Token

end FrontEnd
