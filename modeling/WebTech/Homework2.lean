/-
# `WebTech.Homework2` — Homework2.html: the catalogue viewer

`validate` fetches an XML document synchronously and writes its `PLANT` elements
into a new window as a table.  What the request brings is its argument: whether
`open` and `send` throw, the status, and the document, if there is one.

    open throws                            the exception escapes
    status 404                             alert, false
    no document                            a TypeError escapes
    the root is parsererror                alert, false
    no PLANT                               a window is opened; alert, false
    otherwise                              a window is opened and written to; true

An exception of `send` is caught, alerted, and changes nothing else.  The test
`xmlDoc != null` comes after `xmlDoc.documentElement`, so its other branch is
never reached.
-/
import WebTech.Basic
import WebTech.Lib.Dom

namespace WebTech.Homework2

open Dom

/-! ## The table -/

/-- `e[0].childNodes[0].nodeValue`, as text; `none` where a TypeError is thrown
on the way. -/
def firstValue (e : List Node) : Option Text :=
  match e with
  | [] => none
  | c :: _ => c.childNodes.head?.map fun n => n.nodeValue.getD "null".toList

/-- A cell of text. -/
def textCell (plant : Node) (k : String) : Text :=
  (firstValue (plant.elementsByTagName k)).getD "NA".toList

/-- `val`. -/
def val (image : Text) : Text :=
  "this.src = '".toList ++ "http://www-scf.usc.edu/~csci571/2014Spring/hw4/".toList ++ image
    ++ "';".toList

def img (image : Text) : Text :=
  "<img src='".toList ++ image ++ "' width='160' height='160' onerror =\"".toList ++ val image
    ++ "\" >".toList

def imageCell (plant : Node) : Text :=
  match firstValue (plant.elementsByTagName "IMAGE") with
  | some image => img image
  | none => "NA".toList

/-- The columns of text. -/
def textColumns : List String := ["COMMON", "BOTANICAL", "ZONE", "LIGHT", "PRICE"]

/-- A row: the cells of text and the picture. -/
def row (plant : Node) : Text :=
  "<tr>".toList
    ++ textColumns.flatMap (fun k => "<td><span>".toList ++ textCell plant k ++ "</span></td>".toList)
    ++ "<td><span>".toList ++ imageCell plant ++ "</span></td></tr>".toList

/-- `str`. -/
def str (plants : List Node) : Text :=
  "<html>".toList ++ "<body>".toList ++ "<center>".toList ++ "<table border='1'>".toList
    ++ "<tr><th>COMMON</th><th>BOTANICAL</th><th>ZONE</th><th>LIGHT</th><th>PRICE</th><th>IMAGE</th>".toList
    ++ plants.flatMap row
    ++ "</table>".toList ++ "</center>".toList ++ "</body>".toList ++ "</html>".toList

/-! ## validate -/

/-- What the synchronous request brings. -/
structure Request where
  openThrows : Bool
  sendThrows : Bool
  status : Nat
  responseXML : Option Document
  deriving Repr

/-- What the user sees: the alerts, the number of windows opened, and what is
written into one. -/
structure Effects where
  alerts : List Text
  windows : Nat
  written : List Text
  deriving DecidableEq, Repr

inductive Thrown where
  | syntaxError
  | typeError
  deriving DecidableEq, Repr

abbrev Script := ExceptT Thrown (StateM Effects)

def alert (message : String) : Script Unit :=
  modify fun e => { e with alerts := e.alerts ++ [message.toList] }

def openWindow : Script Unit := modify fun e => { e with windows := e.windows + 1 }

def write (text : Text) : Script Unit := modify fun e => { e with written := e.written ++ [text] }

/-- The `PLANT` elements. -/
def plants (xmlDoc : Document) : List Node := xmlDoc.elementsByTagName "PLANT"

/-- `validate`; `none` is the `undefined` it returns for an empty URL. -/
def validate (url : Text) (r : Request) : Script (Option Bool) := do
  if url = [] then
    alert "URL must be filled out"
    return none
  if r.openThrows then
    throw .syntaxError
  if r.sendThrows then
    alert "File not found"
  if r.status = 404 then
    alert "File not found"
    return some false
  match r.responseXML with
  | none => throw .typeError
  | some xmlDoc =>
      if xmlDoc.name = "parsererror".toList then
        alert "Error in XML file"
        return some false
      openWindow
      if plants xmlDoc = [] then
        alert "No PLANT entry found"
        return some false
      write (str (plants xmlDoc))
      return some true

/-- How `validate` ends, and what it leaves behind. -/
def exec (url : Text) (r : Request) : Except Thrown (Option Bool) × Effects :=
  ((validate url r).run).run ⟨[], 0, []⟩

end WebTech.Homework2
