import Agenda.Filter.Error

/-! # Tokens of a query

    A query is cut into words, strings, numbers, operators and punctuation; blanks only
    separate.  A token knows its span.  Cutting stops at the first error, with the tokens
    before it kept, so a reader that stumbles over one of those reports that instead. -/

namespace Agenda.Filter

/-- What a token is. -/
inductive Lexeme where
  | word (w : Text)
  | string (value : Text)
  | number (raw : Text)
  | op (o : Operator)
  | openParen
  | closeParen
  | openBracket
  | closeBracket
  | comma
  | finish

/-- A token: what it is, its text, and its span. -/
structure Token where
  lexeme : Lexeme
  text   : Text
  start  : Nat
  stop   : Nat

namespace Token

/-- Is the token this word, whatever its case?  `w` is in small letters. -/
def isWord (w : Text) (token : Token) : Bool :=
  match token.lexeme with
  | .word v => Text.lower v == w
  | _ => false

/-- The end of a text of length `n`, as a token. -/
def atEnd (n : Nat) : Token := { lexeme := .finish, text := [], start := n, stop := n }

/-! ## Section 1: Classes of characters -/

/-- Characters of a word after its first. -/
def isWordChar (c : Char) : Bool := Text.isAlphanumeric c || "_:.-".toList.contains c

/-- Characters of a number after its first. -/
def isNumberChar (c : Char) : Bool := Text.isDigit c || c == '.'

/-- Characters of a day or a moment after its year. -/
def isTimeChar (c : Char) : Bool := Text.isAlphanumeric c || "-:T".toList.contains c

/-- Is a run of number characters a numeral: digits of a positional system, with at most one
    point among them? -/
def isNumeral (t : Text) : Bool :=
  let digits := t.filter (· != '.')
  digits.all Text.isDecimal && !digits.isEmpty && t.length ≤ digits.length + 1

/-! ## Section 2: One token -/

/-- The token that a single character of punctuation is. -/
def punctuation? (c : Char) : Option Lexeme :=
  match c with
  | '(' => some .openParen
  | ')' => some .closeParen
  | '[' => some .openBracket
  | ']' => some .closeBracket
  | ',' => some .comma
  | _ => none

/-- The operator that begins with `c`, when `next` comes after it. -/
def operator? (c : Char) (next : Option Char) : Option Operator :=
  match c, next with
  | '=', some '~' => some .glob
  | '=', _ => some .eq
  | '!', some '=' => some .ne
  | '!', some '~' => some .notGlob
  | '<', some '=' => some .lte
  | '<', _ => some .lt
  | '>', some '=' => some .gte
  | '>', _ => some .gt
  | _, _ => none

/-- Does an operator begin with `c`? -/
def beginsOperator (c : Char) : Bool := "=!<>".toList.contains c

/-- Is `c` a quotation mark? -/
def isQuote (c : Char) : Bool := c == '\'' || c == '"'

/-- What stands before the closing `quote`, and how many characters are read, the quote
    included.  A backslash takes the next character as it is. -/
def unquote? (quote : Char) : Text → Option (Text × Nat)
  | [] => none
  | '\\' :: c :: rest => (unquote? quote rest).map fun r => (c :: r.1, r.2 + 2)
  | c :: rest =>
    if c = quote then some ([], 1) else (unquote? quote rest).map fun r => (c :: r.1, r.2 + 1)

/-- Does a day go on here, with a hyphen and a digit? -/
def continuesDay (t : Text) : Bool :=
  match t with
  | '-' :: d :: _ => Text.isDigit d
  | _ => false

/-- The number, day or moment that begins with `c`, and how many characters of `rest` it
    takes. -/
def scanNumber (c : Char) (rest : Text) (pos : Nat) : Except QueryError (Lexeme × Nat) :=
  let run := rest.takeWhile isNumberChar
  let after := rest.dropWhile isNumberChar
  -- `2024-01-15` begins as a number does; the run stops at its first hyphen
  if c != '-' && continuesDay after then
    let more := after.takeWhile isTimeChar
    .ok (.string (c :: run ++ more), run.length + more.length)
  else if isNumeral (if c = '-' then run else c :: run) then .ok (.number (c :: run), run.length)
  else .error ⟨.invalidNumber (c :: run), pos, pos + 1 + run.length⟩

/-- The token that begins with `c` at `pos`, and how many characters of `rest` it takes.
    `c` is no blank. -/
def scan (c : Char) (rest : Text) (pos : Nat) : Except QueryError (Lexeme × Nat) :=
  match punctuation? c with
  | some l => .ok (l, 0)
  | none =>
    if beginsOperator c then
      match operator? c rest.head? with
      | some o => .ok (.op o, o.symbol.length - 1)
      | none => .error ⟨.loneBang, pos, pos + 1⟩
    else if isQuote c then
      match unquote? c rest with
      | some (value, n) => .ok (.string value, n)
      | none => .error ⟨.unterminatedString, pos, pos + 1 + rest.length⟩
    else if Text.isDigit c || c == '-' then scanNumber c rest pos
    else if Text.isAlphanumeric c || c == '_' then
      let more := rest.takeWhile isWordChar
      .ok (.word (c :: more), more.length)
    else .error ⟨.unexpectedCharacter c, pos, pos + 1⟩

end Token

/-! ## Section 3: All tokens -/

/-- A text cut into tokens, up to its end or to an error. -/
structure Lexing where
  tokens : List Token
  error  : Option QueryError

/-- Cut a text that stands at `pos` into tokens. -/
def lexFrom (pos : Nat) : Text → Lexing
  | [] => { tokens := [], error := none }
  | c :: rest =>
    if Text.isBlank c then lexFrom (pos + 1) rest
    else match Token.scan c rest pos with
      | .error e => { tokens := [], error := some e }
      | .ok (lexeme, more) =>
        let token : Token :=
          { lexeme := lexeme, text := c :: rest.take more, start := pos, stop := pos + 1 + more }
        let l := lexFrom (pos + 1 + more) (rest.drop more)
        { l with tokens := token :: l.tokens }
termination_by t => t.length
decreasing_by all_goals simp [List.length_drop]; try omega

/-- Cut a text into tokens. -/
def lex (t : Text) : Lexing := lexFrom 0 t

end Agenda.Filter
