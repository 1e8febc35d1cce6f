import Agenda.Filter.Field
import Agenda.Filter.Literal
import Agenda.Tree.Basic

/-! # Completion at the cursor

    A query that is being typed is seldom complete, so completion does not read it: it cuts the
    text before the cursor into pieces, passing over what it does not know, and looks at the
    last few of them.  Pieces are kept latest first. -/

namespace Agenda.Filter

/-- What the word under the cursor is. -/
inductive CompletionKind where
  | fieldName
  | fieldValue (field : Field)
  | arrayValue (field : Field)
  | keyword
  | nothing
  deriving DecidableEq

/-- What is completed: the word typed so far and where it begins. -/
structure CompletionContext where
  kind        : CompletionKind
  partialWord : Text
  start       : Nat
  deriving DecidableEq

namespace Completion

/-! ## Section 1: Pieces -/

/-- The kinds of pieces. -/
inductive PieceKind where
  | ident
  /-- A word that ends at the cursor. -/
  | partialIdent
  | string
  | number
  | op
  | openBracket
  | closeBracket
  | openParen
  | closeParen
  | comma
  deriving DecidableEq

/-- A piece of the text before the cursor. -/
structure Piece where
  kind  : PieceKind
  text  : Text
  start : Nat
  deriving DecidableEq

namespace Piece

/-- Is the piece a word? -/
def isIdent (p : Piece) : Bool := p.kind == .ident || p.kind == .partialIdent

/-- Is the piece a parenthesis? -/
def isParen (p : Piece) : Bool := p.kind == .openParen || p.kind == .closeParen

/-- Is the piece one of these words, which are in capitals? -/
def isWord (words : List Text) (p : Piece) : Bool :=
  p.isIdent && words.contains (Text.upper p.text)

/-- The field that a piece names. -/
def field? (p : Piece) : Option Field := if p.isIdent then Field.find? p.text else none

end Piece

/-- The kind of a piece that is one character of punctuation. -/
def punctuation? (c : Char) : Option PieceKind :=
  match c with
  | '(' => some .openParen
  | ')' => some .closeParen
  | '[' => some .openBracket
  | ']' => some .closeBracket
  | ',' => some .comma
  | _ => none

/-- Characters of a word. -/
def isWordChar (c : Char) : Bool := Text.isAlphanumeric c || c == '_'

/-- Characters of a number, a day or a moment after the first. -/
def isNumberChar (c : Char) : Bool := Text.isDigit c || "-:.T".toList.contains c

/-- The piece that begins with `c` at `pos`, which is no blank, and how many characters of
    `rest` it takes.  There is no piece for a character that means nothing, and `none` for a
    string that is not closed. -/
def pieceAt? (c : Char) (rest : Text) (pos : Nat) : Option (Option Piece × Nat) :=
  match punctuation? c with
  | some kind => some (some ⟨kind, [c], pos⟩, 0)
  | none =>
    if "=!<>".toList.contains c then
      let more := (rest.take 1).takeWhile "=~".toList.contains
      some (some ⟨.op, c :: more, pos⟩, more.length)
    else if c = '\'' ∨ c = '"' then
      let body := rest.takeWhile (· ≠ c)
      if body.length < rest.length then some (some ⟨.string, body, pos⟩, body.length + 1)
      else none
    else if Text.isDigit c || c == '-' then
      let more := rest.takeWhile isNumberChar
      some (some ⟨.number, c :: more, pos⟩, more.length)
    else if isWordChar c then
      let more := rest.takeWhile isWordChar
      -- a word that reaches the cursor is still being typed
      let kind := if more.length = rest.length then .partialIdent else .ident
      some (some ⟨kind, c :: more, pos⟩, more.length)
    else some (none, 0)

/-- Cut a text that stands at `pos` into pieces and put them on those before it. -/
def scanFrom (before : List Piece) (pos : Nat) : Text → List Piece
  | [] => before
  | c :: rest =>
    if Text.isBlank c then scanFrom before (pos + 1) rest
    else match pieceAt? c rest pos with
      | none => before
      | some (piece, more) =>
        scanFrom (piece.toList ++ before) (pos + 1 + more) (rest.drop more)
termination_by t => t.length
decreasing_by all_goals simp [List.length_drop]; try omega

/-- The pieces of a text, latest first. -/
def scan (t : Text) : List Piece := scanFrom [] 0 t

/-- Is a quotation open at the end of the text?  `quote` is the one that is open at its
    start. -/
def quoteOpen (quote : Option Char) : Text → Bool
  | [] => quote.isSome
  | c :: rest =>
    match quote with
    | none => quoteOpen (if c = '\'' ∨ c = '"' then some c else none) rest
    | some q => quoteOpen (if c = q then none else some q) rest

/-! ## Section 2: Looking back -/

/-- The pieces before the innermost bracket that is open; `closed` brackets are to be passed
    first. -/
def beforeOpenBracket? (closed : Nat) : List Piece → Option (List Piece)
  | [] => none
  | p :: rest =>
    match p.kind, closed with
    | .closeBracket, _ => beforeOpenBracket? (closed + 1) rest
    | .openBracket, 0 => some rest
    | .openBracket, closed + 1 => beforeOpenBracket? closed rest
    | _, _ => beforeOpenBracket? closed rest

/-- The pieces without parentheses. -/
def meaningful (pieces : List Piece) : List Piece := pieces.filter (!·.isParen)

/-- The field whose list is open at the end. -/
def arrayField? (pieces : List Piece) : Option Field := do
  let before ← beforeOpenBracket? 0 pieces
  match meaningful before with
  | last :: second :: rest =>
    if last.isWord ["IN".toList] then
      match rest with
      | third :: _ => if second.isWord ["NOT".toList] then third.field? else second.field?
      | [] => second.field?
    else none
  | _ => none

/-- The field before the operator that the pieces end in. -/
def fieldBeforeOperator? : List Piece → Option Field
  | last :: second :: rest =>
    if last.kind = .op ∨ last.isWord ["IS".toList, "IN".toList] then
      match rest with
      | third :: _ =>
        if last.isWord ["IN".toList] && second.isWord ["NOT".toList] then third.field?
        else second.field?
      | [] => second.field?
    else if last.isWord ["NOT".toList] && second.isWord ["IS".toList] then
      rest.head?.bind Piece.field?
    else none
  | _ => none

/-- Can an operand begin after the pieces? -/
def atFieldPosition : List Piece → Bool
  | [] => true
  | last :: _ =>
    last.kind == .openParen ||
      last.isWord ["AND".toList, "OR".toList, "NOT".toList, "BY".toList]

/-- Words of the language that are no values at the end of a condition. -/
def reserved : List Text :=
  ["AND".toList, "OR".toList, "NOT".toList, "ORDER".toList, "BY".toList, "IS".toList,
   "IN".toList]

/-- Is the piece a value at the end of a condition? -/
def isValue (p : Piece) : Bool :=
  (p.kind == .string || p.kind == .number || p.kind == .ident) && !p.isWord reserved

/-- Do the pieces end in a complete condition? -/
def afterCondition (pieces : List Piece) : Bool :=
  match meaningful pieces with
  | [] => false
  | last :: rest =>
    if last.kind = .closeBracket then (beforeOpenBracket? 0 (last :: rest)).isNone
    else match rest with
      | operator :: subject :: more =>
        isValue last &&
          (operator.kind == .op ||
            operator.isWord ["IS".toList, "IN".toList, "NOT".toList]) &&
          (subject.field?.isSome ||
            (subject.isWord ["IS".toList] && (more.head?.bind Piece.field?).isSome))
      | _ => false

/-! ## Section 3: The context -/

/-- Do the pieces end in `ORDER` or in `ORDER BY`? -/
def endsInOrder : List Piece → Bool
  | last :: rest =>
    last.isWord ["ORDER".toList] ||
      (last.isWord ["BY".toList] && (rest.head?.map (·.isWord ["ORDER".toList])).getD false)
  | [] => false

/-- The context of a word that ends at the cursor, after the pieces `prior`. -/
def wordContext (word : Piece) (prior : List Piece) : CompletionContext :=
  let upper := Text.upper word.text
  let kind : CompletionKind :=
    if endsInOrder (meaningful prior) then .fieldName
    else match arrayField? prior with
      | some field => .arrayValue field
      | none =>
        match fieldBeforeOperator? (meaningful prior) with
        | some field =>
          if ["IS".toList, "IN".toList, "NOT".toList].contains upper then other upper
          else .fieldValue field
        | none => other upper
  ⟨kind, word.text, word.start⟩
where
  other (upper : Text) : CompletionKind :=
    if atFieldPosition prior then
      if ["AND".toList, "OR".toList, "NOT".toList].contains upper ||
          "ORD".toList.isPrefixOf upper then .keyword
      else .fieldName
    else if afterCondition prior then .keyword
    else .fieldName

/-- The context between words, after pieces that are not empty. -/
def gapContext (before : Text) (pieces : List Piece) (cursor : Nat) : CompletionContext :=
  let boundary := before.getLast?.any fun c => Text.isBlank c || "([,".toList.contains c
  let kind : CompletionKind :=
    if boundary then
      match arrayField? pieces with
      | some field => .arrayValue field
      | none =>
        match fieldBeforeOperator? (meaningful pieces) with
        | some field => .fieldValue field
        | none => if afterCondition pieces then .keyword else .fieldName
    else match pieces with
      | [] => .fieldName
      | last :: _ =>
        if last.kind = .string ∨ last.kind = .number ∨ last.kind = .ident ∨
            last.kind = .closeBracket then
          if afterCondition pieces then .keyword else .nothing
        else if last.kind = .op then
          match fieldBeforeOperator? (meaningful pieces) with
          | some field => .fieldValue field
          | none => .nothing
        else .nothing
  ⟨kind, [], cursor⟩

/-- The cursor brought into the text; the end of the text, if there is none. -/
def clampCursor (t : Text) (cursor : Option Int) : Nat :=
  match cursor with
  | none => t.length
  | some c => min c.toNat t.length

/-- What the word under the cursor is. -/
def context (t : Text) (cursor : Option Int) : CompletionContext :=
  let c := clampCursor t cursor
  let before := t.take c
  if quoteOpen none before then ⟨.nothing, [], c⟩
  else match scan before with
    | [] => ⟨.fieldName, [], c⟩
    | last :: prior =>
      if last.kind = .partialIdent then wordContext last prior
      else gapContext before (last :: prior) c

/-! ## Section 4: Suggestions -/

end Completion

/-- A suggestion: what is shown, what is put into the text, and from where on. -/
structure Suggestion where
  label : Text
  value : Text
  start : Nat
  deriving DecidableEq

namespace Completion

/-- The connectives that are offered. -/
def keywords : List Text := ["AND".toList, "OR".toList, "NOT".toList, "ORDER BY".toList]

/-- The names that begin with a word, whatever the case of either. -/
def startingWith (names : List Text) (word : Text) : List Text :=
  names.filter fun name => (Text.lower word).isPrefixOf (Text.lower name)

/-- The suggestions for a context: names of tags and projects are put in as strings. -/
def suggestFor (context : CompletionContext) (tags projects : List Text) : List Suggestion :=
  let offer (names : List Text) (value : Text → Text) : List Suggestion :=
    (startingWith names context.partialWord).map fun name =>
      { label := name, value := value name, start := context.start }
  let values (field : Field) : List Suggestion :=
    match field with
    | .status => offer Status.offered id
    | .tags => offer tags Literal.renderText
    | .project => offer projects Literal.renderText
    | _ => []
  match context.kind with
  | .fieldName => offer (Field.every.map Field.name) id
  | .keyword => offer keywords id
  | .fieldValue field => values field
  | .arrayValue field => values field
  | .nothing => []

/-- The suggestions at the cursor. -/
def suggest (t : Text) (cursor : Option Int) (tags projects : List Text) : List Suggestion :=
  suggestFor (context t cursor) tags projects

/-- The tags of a tree, each once, in ascending order. -/
def tagsOf (tree : Tree) : List Text :=
  (TagSet.ofList (tree.tasks.flatMap (·.tags.toList))).toList

/-- The titles of the projects that are not archived. -/
def projectsOf (tree : Tree) : List Text :=
  (tree.projects.filter (!·.archived)).map Project.title

/-- The suggestions at the cursor, with the names that a tree has. -/
def suggestIn (tree : Tree) (t : Text) (cursor : Option Int) : List Suggestion :=
  suggest t cursor (tagsOf tree) (projectsOf tree)

end Completion

end Agenda.Filter
