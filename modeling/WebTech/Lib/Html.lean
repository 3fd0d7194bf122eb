/-
# `WebTech.Lib.Html` — the tokens of an HTML text

The tokenizer of HTML reads one character at a time.  Its states are those of
the standard, with three runs of them taken together: a text, a comment and a
doctype are collected and cut at their end.  Errors of the standard's list do
not stop it, so every text has tokens.

    step st c        the tokens emitted at a character, and the next state
    run st s         the tokens of the rest of a text
    tokenize s       the tokens of a text, its line ends normalised

After a start tag such as `script` the tree builder has the tokenizer read the
content in another way; that content is one token here (`Token.rest`).
Character 0 is left out of a text, as the tree builder leaves it out.
-/
import WebTech.Lib.CharRef

namespace Html

inductive Token where
  | char (c : Char)
  | startTag (name : List Char) (attrs : List (List Char × List Char)) (selfClosing : Bool)
  | endTag (name : List Char)
  | comment (data : List Char)
  | doctype (data : List Char)
  /-- What follows a start tag that is not followed by markup. -/
  | rest (s : List Char)
  deriving DecidableEq, Repr

/-- A tag that is being read. -/
structure Tag where
  isEnd : Bool
  name : List Char
  attrs : List (List Char × List Char)
  deriving DecidableEq, Repr

inductive State where
  | data (text : List Char)
  | tagOpen
  | endTagOpen
  | tagName (t : Tag)
  | beforeAttrName (t : Tag)
  | attrName (t : Tag) (n : List Char)
  | afterAttrName (t : Tag) (n : List Char)
  | beforeAttrValue (t : Tag) (n : List Char)
  | attrValueDouble (t : Tag) (n v : List Char)
  | attrValueSingle (t : Tag) (n v : List Char)
  | attrValueUnquoted (t : Tag) (n v : List Char)
  | afterAttrValue (t : Tag)
  | selfClosing (t : Tag)
  /-- After `<!`. -/
  | markup (s : List Char)
  | comment (s : List Char)
  | bogusComment (s : List Char)
  | doctype (s : List Char)
  /-- After a start tag that is not followed by markup. -/
  | raw (s : List Char)
  deriving DecidableEq, Repr

def isSpace (c : Char) : Bool := c = '\t' || c = '\n' || c = '\x0c' || c = ' '

def isAlpha (c : Char) : Bool := c.isAlpha

/-- Character 0 in a name or a value. -/
def replaceNull (c : Char) : Char := if c = '\x00' then '\ufffd' else c

def nameChar (c : Char) : Char := (replaceNull c).toLower

/-- The elements whose content is no markup. -/
def rawNames : List String :=
  ["title", "textarea", "style", "xmp", "iframe", "noembed", "noframes", "noscript", "script",
    "plaintext"]

section Tokenizer
variable (E : Entities)

/-- The characters of a run of text. -/
def textOf (s : List Char) : List Char := (decode E false s).filter fun c => c ≠ '\x00'

/-- An attribute's value. -/
def valueOf (v : List Char) : List Char := (decode E true v).map replaceNull

/-- An attribute; of two with one name the first is kept. -/
def Tag.add (t : Tag) (n v : List Char) : Tag :=
  if t.attrs.any fun a => a.1 = n then t else { t with attrs := t.attrs ++ [(n, valueOf E v)] }

/-- The end of a tag. -/
def emit (t : Tag) (selfClosing : Bool) : List Token × State :=
  if t.isEnd then ([.endTag t.name], .data [])
  else ([.startTag t.name t.attrs selfClosing],
    if t.name ∈ rawNames.map String.toList then .raw [] else .data [])

def dataStep (text : List Char) (c : Char) : List Token × State :=
  if c = '<' then ((textOf E text).map .char, .tagOpen) else ([], .data (text ++ [c]))

def tagNameStep (t : Tag) (c : Char) : List Token × State :=
  if isSpace c then ([], .beforeAttrName t)
  else if c = '/' then ([], .selfClosing t)
  else if c = '>' then emit t false
  else ([], .tagName { t with name := t.name ++ [nameChar c] })

def beforeAttrNameStep (t : Tag) (c : Char) : List Token × State :=
  if isSpace c then ([], .beforeAttrName t)
  else if c = '/' then ([], .selfClosing t)
  else if c = '>' then emit t false
  else ([], .attrName t [nameChar c])

def afterAttrNameStep (t : Tag) (n : List Char) (c : Char) : List Token × State :=
  if isSpace c then ([], .afterAttrName t n)
  else if c = '/' then ([], .selfClosing (t.add E n []))
  else if c = '=' then ([], .beforeAttrValue t n)
  else if c = '>' then emit (t.add E n []) false
  else ([], .attrName (t.add E n []) [nameChar c])

def attrNameStep (t : Tag) (n : List Char) (c : Char) : List Token × State :=
  if isSpace c || c = '/' || c = '>' then afterAttrNameStep E t n c
  else if c = '=' then ([], .beforeAttrValue t n)
  else ([], .attrName t (n ++ [nameChar c]))

def beforeAttrValueStep (t : Tag) (n : List Char) (c : Char) : List Token × State :=
  if isSpace c then ([], .beforeAttrValue t n)
  else if c = '"' then ([], .attrValueDouble t n [])
  else if c = '\'' then ([], .attrValueSingle t n [])
  else if c = '>' then emit (t.add E n []) false
  else ([], .attrValueUnquoted t n [c])

def unquotedStep (t : Tag) (n v : List Char) (c : Char) : List Token × State :=
  if isSpace c then ([], .beforeAttrName (t.add E n v))
  else if c = '>' then emit (t.add E n v) false
  else ([], .attrValueUnquoted t n (v ++ [c]))

def afterAttrValueStep (t : Tag) (c : Char) : List Token × State :=
  if isSpace c then ([], .beforeAttrName t)
  else if c = '/' then ([], .selfClosing t)
  else if c = '>' then emit t false
  else beforeAttrNameStep t c

def selfClosingStep (t : Tag) (c : Char) : List Token × State :=
  if c = '>' then emit t true else beforeAttrNameStep t c

def bogusCommentStep (s : List Char) (c : Char) : List Token × State :=
  if c = '>' then ([.comment s], .data []) else ([], .bogusComment (s ++ [replaceNull c]))

def tagOpenStep (c : Char) : List Token × State :=
  if c = '!' then ([], .markup [])
  else if c = '/' then ([], .endTagOpen)
  else if isAlpha c then ([], .tagName ⟨false, [nameChar c], []⟩)
  else if c = '?' then ([], .bogusComment ['?'])
  else (.char '<' :: (dataStep E [] c).1, (dataStep E [] c).2)

def endTagOpenStep (c : Char) : List Token × State :=
  if isAlpha c then ([], .tagName ⟨true, [nameChar c], []⟩)
  else if c = '>' then ([], .data [])
  else ([], .bogusComment [replaceNull c])

/-- `<!--` opens a comment, `<!DOCTYPE` a doctype; all else is a bogus comment. -/
def markupStep (s : List Char) (c : Char) : List Token × State :=
  let s' := s ++ [c]
  if s' = "--".toList then ([], .comment [])
  else if s'.map Char.toLower = "doctype".toList then ([], .doctype [])
  else if s'.isPrefixOf "--".toList || (s'.map Char.toLower).isPrefixOf "doctype".toList then
    ([], .markup s')
  else bogusCommentStep s c

/-- `-->`, `--!>`, and right at the start `>` and `->` end a comment. -/
def endsComment (s : List Char) : Bool :=
  s = [] || s = ['-'] || "--".toList.isSuffixOf s || "--!".toList.isSuffixOf s

/-- What is in a comment, without the dashes of its end. -/
def commentData (s : List Char) : List Char :=
  if "--!".toList.isSuffixOf s then s.take (s.length - 3)
  else if "--".toList.isSuffixOf s then s.take (s.length - 2)
  else if ['-'].isSuffixOf s then s.take (s.length - 1)
  else s

def commentStep (s : List Char) (c : Char) : List Token × State :=
  if c = '>' && endsComment s then ([.comment (commentData s)], .data [])
  else ([], .comment (s ++ [replaceNull c]))

def doctypeStep (s : List Char) (c : Char) : List Token × State :=
  if c = '>' then ([.doctype s], .data []) else ([], .doctype (s ++ [c]))

/-- **One character.** -/
def step : State → Char → List Token × State
  | .data text, c => dataStep E text c
  | .tagOpen, c => tagOpenStep E c
  | .endTagOpen, c => endTagOpenStep c
  | .tagName t, c => tagNameStep t c
  | .beforeAttrName t, c => beforeAttrNameStep t c
  | .attrName t n, c => attrNameStep E t n c
  | .afterAttrName t n, c => afterAttrNameStep E t n c
  | .beforeAttrValue t n, c => beforeAttrValueStep E t n c
  | .attrValueDouble t n v, c =>
      if c = '"' then ([], .afterAttrValue (t.add E n v)) else ([], .attrValueDouble t n (v ++ [c]))
  | .attrValueSingle t n v, c =>
      if c = '\'' then ([], .afterAttrValue (t.add E n v)) else ([], .attrValueSingle t n (v ++ [c]))
  | .attrValueUnquoted t n v, c => unquotedStep E t n v c
  | .afterAttrValue t, c => afterAttrValueStep t c
  | .selfClosing t, c => selfClosingStep t c
  | .markup s, c => markupStep s c
  | .comment s, c => commentStep s c
  | .bogusComment s, c => bogusCommentStep s c
  | .doctype s, c => doctypeStep s c
  | .raw s, c => ([], .raw (s ++ [c]))

/-- **The end of the text**: a tag that is not finished is dropped. -/
def eof : State → List Token
  | .data text => (textOf E text).map .char
  | .tagOpen => [.char '<']
  | .endTagOpen => [.char '<', .char '/']
  | .markup s => [.comment s]
  | .comment s => [.comment (commentData s)]
  | .bogusComment s => [.comment s]
  | .doctype s => [.doctype s]
  | .raw s => [.rest s]
  | _ => []

def run : State → List Char → List Token
  | st, [] => eof E st
  | st, c :: s => (step E st c).1 ++ run (step E st c).2 s

end Tokenizer

/-- Line ends become line feeds. -/
def normalize : List Char → List Char
  | '\r' :: '\n' :: s => '\n' :: normalize s
  | '\r' :: s => '\n' :: normalize s
  | c :: s => c :: normalize s
  | [] => []

/-- **The tokens of a text.** -/
def tokenize (E : Entities) (s : List Char) : List Token := run E (.data []) (normalize s)

end Html
