import CodeAtlas.Text.Word

set_option autoImplicit false

/-! # Comments and literals

A source text is read from left to right as a sequence of tokens: comments, string literals,
regular-expression literals and single characters. Two views of the tokens are used. In the *code*
comments are blanked; in the *outline* the contents of literals are blanked as well. Blanking puts
a space for every character but a line feed, so both views keep every position and every line.

Literals and comments need not be closed: a quoted string ends with its line, a template string
and a block comment end with the text.
-/

namespace CodeAtlas

structure CommentStyle where
  lineMark : Text := ['/', '/']
  blockOpen : Text := ['/', '*']
  blockClose : Text := ['*', '/']
  quotes : List Char := ['"', '\'', '\x60']
  regexLiterals : Bool := false

namespace CommentStyle

/-- Line and block comments, three kinds of quotes. -/
def cFamily : CommentStyle := {}

/-- The same, with regular-expression literals. -/
def script : CommentStyle := { regexLiterals := true }

end CommentStyle

/-- A piece of a source text. -/
inductive Token where
  /-- A character that starts nothing else. -/
  | plain (c : Char)
  | comment (t : Text)
  | quoted (t : Text)
  /-- A regular-expression literal: what opens it, its body, and what closes it. -/
  | regex (lead body tail : Text)

def blankOut (t : Text) : Text := t.map fun c => if c == '\n' then c else ' '

namespace Token

/-! ## Views -/

def source : Token → Text
  | plain c => [c]
  | comment t => t
  | quoted t => t
  | regex lead body tail => lead ++ body ++ tail

/-- Does a quoted text end with its own opening quote, not escaped by an odd number of
backslashes? -/
def isClosed (q : Char) (t : Text) : Bool :=
  t.getLast? == some q &&
    ((q :: t.dropLast).reverse.takeWhile (· == '\\')).length % 2 == 0

/-- A quoted text with its contents blanked; the closing quote stays if there is one. -/
def blankQuoted : Text → Text
  | [] => []
  | q :: t => if isClosed q t then q :: blankOut t.dropLast ++ [q] else q :: blankOut t

def code : Token → Text
  | comment t => blankOut t
  | token => token.source

def outline : Token → Text
  | plain c => [c]
  | comment t => blankOut t
  | quoted t => blankQuoted t
  | regex lead body tail => lead ++ blankOut body ++ tail

end Token

namespace CommentStyle

/-! ## Quoted strings -/

/-- What follows the opening quote `q` and belongs to the string. A backslash takes the next
character with it. A template spans lines; any other string ends before a line feed. -/
def quotedRest (q : Char) (template : Bool) : Text → Text
  | [] => []
  | '\\' :: d :: rest =>
    if template || d != '\n' then '\\' :: d :: quotedRest q template rest
    else if q == '\\' then ['\\'] else []
  | c :: rest =>
    if c == q then [c]
    else if c == '\\' || (c == '\n' && !template) then []
    else c :: quotedRest q template rest

/-- The string that starts here, if a quote stands here. A backquote opens a template. -/
def quoted? (style : CommentStyle) : Text → Option Token
  | [] => none
  | q :: rest =>
    if style.quotes.contains q then some (.quoted (q :: quotedRest q (q == '\x60') rest)) else none

/-! ## Regular-expression literals -/

/-- May an operand start after these characters, nearest first? It may at the start of a line, after
an operator or an opening bracket, and after the word `return`. -/
def operandExpected (before : Text) : Bool :=
  match before with
  | [] => true
  | c :: _ =>
    c == '\n' || "=(,:[!&|?\x7b\x7d;+-*%~^>".toList.contains c ||
      ("nruter".toList.isPrefixOf before && !(before.drop 6).head?.any Text.isWord)

/-- The body up to the slash that closes it; none if the line or the text ends first. A slash
inside square brackets does not close it. -/
def regexBody? : Bool → Text → Option Text
  | _, [] => none
  | inClass, '\\' :: d :: rest =>
    if d == '\n' then none else (regexBody? inClass rest).map fun t => '\\' :: d :: t
  | inClass, c :: rest =>
    if c == '\n' || c == '\\' then none
    else if inClass then (regexBody? (c != ']') rest).map (c :: ·)
    else if c == '/' then some []
    else (regexBody? (c == '[') rest).map (c :: ·)

/-- The regular-expression literal that starts here, spaces and tabs before it included. Its body is
not empty and does not start like a comment. -/
def regex? (before rest : Text) : Option Token :=
  if operandExpected before then
    let space := rest.takeWhile fun c => c == ' ' || c == '\t'
    match rest.drop space.length with
    | '/' :: inner =>
      match regexBody? false inner with
      | some body =>
        if body == [] || body.head? == some '*' then none
        else
          let flags := (inner.drop (body.length + 1)).takeWhile Text.isAsciiLetter
          some (.regex (space ++ ['/']) body ('/' :: flags))
      | none => none
    | _ => none
  else none

/-! ## Comments -/

/-- The block comment that starts here, up to its first closing mark or to the end of the text. It
takes at least one character. -/
def block? (style : CommentStyle) (rest : Text) : Option Token :=
  if style.blockOpen.isPrefixOf rest then
    let inner := rest.drop style.blockOpen.length
    let length := match Text.find? style.blockClose inner with
      | some j => style.blockOpen.length + j + style.blockClose.length
      | none => rest.length
    some (.comment (rest.take (max 1 length)))
  else none

def line? (style : CommentStyle) (rest : Text) : Option Token :=
  if style.lineMark.isPrefixOf rest then
    let t := style.lineMark ++ (rest.drop style.lineMark.length).takeWhile (· != '\n')
    if t.isEmpty then none else some (.comment t)
  else none

/-! ## Tokens -/

/-- The literal or comment that starts here: a string first, then a regular expression, then a
block comment, then a line comment. -/
def lexeme? (style : CommentStyle) (before rest : Text) : Option Token :=
  (quoted? style rest).or <|
    (if style.regexLiterals then regex? before rest else none).or <|
      (block? style rest).or (line? style rest)

/-- The tokens from here on, after passing over `skip` characters that belong to the token
before. -/
def tokensFrom (style : CommentStyle) : Nat → Text → Text → List Token
  | _, _, [] => []
  | skip + 1, before, c :: rest => tokensFrom style skip (c :: before) rest
  | 0, before, c :: rest =>
    match lexeme? style before (c :: rest) with
    | some token => token :: tokensFrom style (token.source.length - 1) (c :: before) rest
    | none => .plain c :: tokensFrom style 0 (c :: before) rest

def tokens (style : CommentStyle) (source : Text) : List Token := tokensFrom style 0 [] source

def code (style : CommentStyle) (source : Text) : Text := (style.tokens source).flatMap Token.code

def outline (style : CommentStyle) (source : Text) : Text :=
  (style.tokens source).flatMap Token.outline

end CommentStyle

end CodeAtlas
