import Backlog.Text.Letter

namespace Backlog.Import.Script

open Backlog.Text

/-!
# Words, marks and strings of JavaScript and TypeScript sources

Only as much of the languages as it takes to find imports: text inside of comments, regular
expressions, templates and tags is passed over, and what a template or a tag embeds is not.

Whether a slash divides or begins a regular expression, and whether a `<` compares or begins a tag,
hangs on what stands before: after an operand it is an operator.

* `Token` — a word, a string, a mark or a bracket;
* `tokens` — the tokens of a source.
-/

/-- What a token is. -/
inductive Piece where
  /-- A name, a keyword or a number, and the line that it is on. -/
  | word (text : List Char) (row : Nat)
  /-- A string, as it is written between its quotes. -/
  | text (letters : List Letter)
  | mark (text : String)
  /-- An opening bracket, or the quote that begins a template. -/
  | opening (bracket : Char)
  /-- The end of what the last opening bracket began. -/
  | closing
  /-- A regular expression or a tag. -/
  | other
  deriving DecidableEq, Repr

/-- A token. -/
structure Token where
  /-- Whether there is a comment right before it. -/
  commented : Bool
  piece : Piece
  deriving DecidableEq, Repr

/-- What a character can be inside of. -/
inductive Frame where
  /-- A pair of brackets; `operand` tells whether an operand ends with it. -/
  | bracket (operand : Bool)
  /-- The text of a template. -/
  | template
  /-- A tag, with the number of angle brackets that are open in it. -/
  | tag (closing : Bool) (angles : Nat)
  /-- What is between two tags. -/
  | content
  deriving DecidableEq, Repr

/-- What is being read. -/
inductive Lexeme where
  | nothing
  /-- A word, in reverse. -/
  | word (text : List Char)
  /-- A string with its quote, in reverse. -/
  | text (quote : Char) (letters : List Letter)
  /-- A string inside of a tag. -/
  | attribute (quote : Char)
  /-- A regular expression, or a class of characters in it. -/
  | pattern (inClass : Bool)
  | lineComment
  | blockComment
  deriving DecidableEq, Repr

/-- What the characters so far say about those that follow. -/
structure State where
  /-- What encloses the next character, innermost first. -/
  frames : List Frame
  lexeme : Lexeme
  /-- The line, counted from zero. -/
  row : Nat
  /-- How many characters to pass over. -/
  skip : Nat
  /-- An operand ends here. -/
  operand : Bool
  /-- A statement begins here. -/
  statement : Bool
  /-- A parenthesis here would belong to a condition or a loop. -/
  control : Bool
  /-- The last token is the dot before a property. -/
  dotted : Bool
  /-- There is a line end after the last token. -/
  fresh : Bool
  /-- There is a comment after the last token. -/
  commented : Bool
  /-- The last character in a tag that is not blank. -/
  last : Char
  deriving Repr

/-- The state at the start of a source. -/
def State.start : State :=
  ⟨[], .nothing, 0, 0, false, true, false, false, false, false, ' '⟩

/-! ### Characters -/

/-- Whether a character is space between tokens. -/
def isBlank (c : Char) : Bool :=
  c = ' ' || ('\t' ≤ c && c ≤ '\r') || c = '\u00A0' || c = '\u1680' ||
    ('\u2000' ≤ c && c ≤ '\u200B') || c = '\u2028' || c = '\u2029' || c = '\u202F' ||
    c = '\u205F' || c = '\u2060' || c = '\u3000' || c = '\uFEFF'

/-- Whether a character can be part of a word. An escape in a word makes it another word. -/
def isWordChar (c : Char) : Bool :=
  c.isAlphanum || c = '_' || c = '$' || c = '#' || c = '\\' || ('\x7f' < c && !isBlank c)

/-- Whether a character ends a comment that goes to the end of the line. -/
def endsLine (c : Char) : Bool := c = '\n' || c = '\r' || c = '\u2028' || c = '\u2029'

/-- Whether some letters begin with a text. -/
def beginWith (text : List Char) (letters : List Letter) : Bool :=
  match text, letters with
  | [], _ => true
  | _ :: _, [] => false
  | c :: text, l :: letters => l.look = c && beginWith text letters

/-- Whether a text occurs among some letters. -/
def occurs (text : List Char) : List Letter → Bool
  | [] => text.isEmpty
  | l :: letters => beginWith text (l :: letters) || occurs text letters

/-- Whether a character can be part of the name of a tag. -/
def isTagChar (c : Char) : Bool := isWordChar c || c = '-' || c = '.' || c = ':'

/-- Some letters without the blanks in front. -/
def skipBlanks (letters : List Letter) : List Letter := letters.dropWhile (fun l => isBlank l.look)

/-- Whether a tag begins with a `<` before some letters, where an operand is due. The parameters
    of a generic function look alike: they have a comma, a bound or a default, or no tag that
    closes. -/
def opensTag (letters : List Letter) : Bool :=
  let letters := skipBlanks letters
  let name := (letters.takeWhile (fun l => isTagChar l.look)).map Letter.look
  let after := skipBlanks (letters.dropWhile (fun l => isTagChar l.look))
  let closes := occurs ('<' :: '/' :: name) after
  match (after.head?).map Letter.look with
  | none => false
  | some c =>
    if name.isEmpty then c = '>' && closes
    else if (name.headD ' ').isDigit || c = ',' || c = '=' || beginWith "extends ".toList after then
      false
    -- `<T>` that nothing closes is taken for the parameters of a function.
    else if c = '>' then closes
    else closes || occurs ['/', '>'] after

/-! ### Tokens -/

/-- The words after which an operand is due. -/
def operatorWords : List String :=
  ["return", "typeof", "case", "do", "else", "in", "instanceof", "new", "void", "delete", "throw",
    "yield", "await", "of", "default", "function", "extends"]

/-- The words after which a statement is due. -/
def statementWords : List String := ["do", "else", "try", "finally"]

/-- The words before the parentheses of a condition or a loop. -/
def controlWords : List String := ["if", "while", "for", "with"]

/-- The state after a token, where nothing special is due. -/
def State.pass (s : State) (operand : Bool) : State :=
  { s with
    lexeme := .nothing
    operand := operand
    statement := false
    control := false
    dotted := false
    fresh := false
    commented := false }

/-- Ends a word. -/
def State.endWord (s : State) (reversed : List Char) : Token × State :=
  let word := String.ofList reversed.reverse
  let plain := !s.dotted
  (⟨s.commented, .word reversed.reverse s.row⟩,
    -- Behind a dot a keyword is the name of a property.
    { s.pass (!(plain && operatorWords.contains word)) with
      statement := plain && statementWords.contains word
      control := plain && (controlWords.contains word || (word = "await" && s.control)) })

/-- A mark, after which an operand may be due. -/
def State.mark (s : State) (text : String) (operand : Bool) : List Token × State :=
  ([⟨s.commented, .mark text⟩], { s.pass operand with skip := text.length - 1 })

/-- An opening bracket. -/
def State.enter (s : State) (bracket : Char) (frame : Frame) (skip : Nat) : List Token × State :=
  ([⟨s.commented, .opening bracket⟩],
    { s.pass false with frames := frame :: s.frames, skip := skip })

/-- A closing bracket; one that closes nothing is passed over. -/
def State.leave (s : State) : List Token × State :=
  match s.frames with
  | .bracket operand :: outer =>
    ([⟨s.commented, .closing⟩],
      { s.pass operand with frames := outer, statement := !operand })
  -- Behind a block or a condition a statement begins, behind an operand none does.
  | _ => ([], s)

/-- A brace: it begins a block or, where an operand is due, an object. -/
def State.enterBrace (s : State) : List Token × State :=
  let isObject := !s.operand && !s.statement
  let (out, s') := s.enter '{' (.bracket isObject) 0
  (out, { s' with statement := !isObject })

/-- A slash outside of comments. -/
def State.slash (s : State) : List Token × State :=
  if s.operand then s.mark "/" false
  else ([⟨s.commented, .other⟩], { s.pass true with lexeme := .pattern false })

/-- A dot. -/
def State.dot (s : State) (rest : List Letter) : List Token × State :=
  if beginWith ['.', '.'] rest then s.mark "..." false
  else
    let (out, s') := s.mark "." false
    (out, { s' with dotted := true })

/-- A question mark: with a dot it leads to a property, unless a number follows. -/
def State.question (s : State) (rest : List Letter) : List Token × State :=
  match rest with
  | .char '.' :: after =>
    -- `a?.5:b` is a choice between numbers.
    if ((after.head?).map Letter.look).any Char.isDigit then s.mark "?" false
    else
      let (out, s') := s.mark "?." false
      (out, { s' with dotted := true })
  | _ => s.mark "?" false

/-- Begins a comment. -/
def State.comment (s : State) (lexeme : Lexeme) (skip : Nat) : List Token × State :=
  ([], { s with lexeme := lexeme, commented := true, skip := skip })

/-- Enters a tag. -/
def State.enterTag (s : State) (rest : List Letter) : State :=
  let closing := ((skipBlanks rest).head?).map Letter.look = some '/'
  { s with frames := .tag closing 0 :: s.frames, last := '<' }

/-- A character of the code, where no word goes on. `markup` tells whether the language has tags. -/
def codeStep (markup : Bool) (s : State) (letter : Letter) (rest : List Letter) :
    List Token × State :=
  let c := letter.look
  if isBlank c then ([], { s with fresh := s.fresh || c = '\n' })
  else if isWordChar c then ([], { s with lexeme := .word [c] })
  else match c with
    | '"' => ([], { s with lexeme := .text c [] })
    | '\'' => ([], { s with lexeme := .text c [] })
    | '`' => s.enter '`' .template 0
    | '(' => s.enter c (.bracket (!s.control)) 0
    | '[' => s.enter c (.bracket true) 0
    | '{' => s.enterBrace
    | ')' => s.leave
    | ']' => s.leave
    | '}' => s.leave
    | '/' =>
      if beginWith ['/'] rest then s.comment .lineComment 1
      else if beginWith ['*'] rest then s.comment .blockComment 1
      else s.slash
    | '<' =>
      if s.operand then s.mark "<" false
      else if beginWith ['!', '-', '-'] rest then s.comment .lineComment 3
      else if markup && opensTag rest then
        ([⟨s.commented, .other⟩], (s.pass true).enterTag rest)
      else s.mark "<" false
    | '-' =>
      if beginWith ['-'] rest then
        -- `-->` where no operand ends begins a comment.
        if !s.operand && beginWith ['-', '>'] rest then s.comment .lineComment 2
        else s.mark "--" s.operand
      else s.mark "-" false
    | '+' => if beginWith ['+'] rest then s.mark "++" s.operand else s.mark "+" false
    | '.' => s.dot rest
    | '?' => s.question rest
    | '=' =>
      if beginWith ['>'] rest then
        let (out, s') := s.mark "=>" false
        (out, { s' with statement := true })
      else s.mark "=" false
    | ';' =>
      let (out, s') := s.mark ";" false
      (out, { s' with statement := true })
    -- Right behind an operand, on its line, `!` belongs to it.
    | '!' => s.mark "!" (s.operand && !s.fresh)
    | '&' => s.mark (if beginWith ['&'] rest then "&&" else "&") false
    | '|' => s.mark (if beginWith ['|'] rest then "||" else "|") false
    | _ => s.mark c.toString false

/-- A character of the text of a template. -/
def templateStep (s : State) (outer : List Frame) (c : Char) (rest : List Letter) :
    List Token × State :=
  match c with
  | '\\' => ([], { s with skip := 1 })
  | '`' => ([⟨false, .closing⟩], { s.pass true with frames := outer })
  | '$' => if beginWith ['{'] rest then s.enter '{' (.bracket false) 1 else ([], s)
  | _ => ([], s)

/-- The end of a tag. A tag that closes ends what is between the tags as well. -/
def State.endTag (s : State) (outer : List Frame) (closing : Bool) : State :=
  if closing then
    match outer with
    -- The frame between the tags goes along with the tag that closes.
    | .content :: outer => { s with frames := outer, operand := true }
    | _ => { s with frames := outer, operand := true }
  else if s.last = '/' then { s with frames := outer, operand := true }
  else { s with frames := .content :: outer }

/-- A character of a tag. -/
def tagStep (s : State) (outer : List Frame) (closing : Bool) (angles : Nat) (c : Char)
    (rest : List Letter) : List Token × State :=
  let s' := if isBlank c then s else { s with last := c }
  match c with
  | '"' => ([], { s' with lexeme := .attribute c })
  | '\'' => ([], { s' with lexeme := .attribute c })
  | '{' => s'.enter '{' (.bracket false) 0
  | '<' =>
    -- A tag as the value of an attribute.
    if s.last = '=' then ([], s.enterTag rest)
    else ([], { s' with frames := .tag closing (angles + 1) :: outer })
  | '>' =>
    if angles = 0 then ([], s.endTag outer closing)
    -- The `>` of an arrow inside of a tag closes nothing.
    else if s.last = '=' then ([], s')
    else ([], { s' with frames := .tag closing (angles - 1) :: outer })
  | '/' =>
    if beginWith ['/'] rest then s.comment .lineComment 1
    else if beginWith ['*'] rest then s.comment .blockComment 1
    else ([], s')
  | _ => ([], s')

/-- A character between tags. -/
def contentStep (s : State) (c : Char) (rest : List Letter) : List Token × State :=
  match c with
  | '<' => ([], s.enterTag rest)
  | '{' => s.enter '{' (.bracket false) 0
  | _ => ([], s)

/-- A character where nothing goes on. -/
def openStep (markup : Bool) (s : State) (letter : Letter) (rest : List Letter) :
    List Token × State :=
  match s.frames with
  | .template :: outer => templateStep s outer letter.look rest
  | .tag closing angles :: outer => tagStep s outer closing angles letter.look rest
  | .content :: _ => contentStep s letter.look rest
  | _ => codeStep markup s letter rest

/-- Whether a word goes on with a character: a number may have one dot. -/
def goesOn (reversed : List Char) (c : Char) : Bool :=
  isWordChar c ||
    (c = '.' && reversed.getLast?.any Char.isDigit && reversed.all (fun d => d.isDigit || d = '_'))

/-- A character, whose line end is not counted yet. -/
def lexemeStep (markup : Bool) (s : State) (letter : Letter) (rest : List Letter) :
    List Token × State :=
  let c := letter.look
  match s.lexeme with
  | .nothing => openStep markup s letter rest
  | .word reversed =>
    if goesOn reversed c then ([], { s with lexeme := .word (c :: reversed) })
    else
      let (token, ended) := s.endWord reversed
      let (out, s') := openStep markup ended letter rest
      (token :: out, s')
  | .text quote reversed =>
    if c = '\\' then
      match rest with
      | hidden :: _ =>
        -- Escapes stay in the text as they are written.
        ([], { s with lexeme := .text quote (hidden :: letter :: reversed), skip := 1 })
      | [] => ([], s)
    else if c = quote then ([⟨s.commented, .text reversed.reverse⟩], s.pass true)
    else ([], { s with lexeme := .text quote (letter :: reversed) })
  | .attribute quote => ([], if c = quote then { s with lexeme := .nothing } else s)
  | .pattern inClass =>
    match c with
    | '\\' => ([], { s with skip := 1 })
    | '[' => ([], { s with lexeme := .pattern true })
    | ']' => ([], { s with lexeme := .pattern false })
    | '/' => ([], if inClass then s else { s with lexeme := .nothing })
    | _ => ([], s)
  | .lineComment => ([], if endsLine c then { s with lexeme := .nothing, fresh := true } else s)
  | .blockComment =>
    ([], if c = '*' && beginWith ['/'] rest then { s with lexeme := .nothing, skip := 1 } else s)

/-- A character. -/
def step (markup : Bool) (s : State) (letter : Letter) (rest : List Letter) : List Token × State :=
  let (out, s') :=
    if s.skip = 0 then lexemeStep markup s letter rest else ([], { s with skip := s.skip - 1 })
  -- Line ends count wherever they are, in comments and strings too.
  (out, if letter.look = '\n' then { s' with row := s'.row + 1 } else s')

/-- The tokens of some letters from a state on. -/
def tokensFrom (markup : Bool) (s : State) : List Letter → List Token
  | [] =>
    match s.lexeme with
    | .word reversed => [(s.endWord reversed).1]
    | _ => []
  | letter :: rest =>
    let (out, next) := step markup s letter rest
    out ++ tokensFrom markup next rest

/-- The tokens of a source. A first line that names an interpreter is a comment. -/
def tokens (markup : Bool) (source : List Letter) : List Token :=
  let start := if beginWith ['#', '!'] source then (State.start.comment .lineComment 0).2 else .start
  tokensFrom markup start source

end Backlog.Import.Script
