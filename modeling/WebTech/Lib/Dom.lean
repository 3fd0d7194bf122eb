/-
# `WebTech.Lib.Dom` — XML documents as node trees

The nodes a parser makes of a document, and the few accessors of the DOM that
walk them.

    descendants e              every node below `e`, in document order
    elementsByTagName e k      the elements of a name among them
    nodeValue, textContent     the text of one node, and of everything below it
-/
import Mathlib.Data.List.Basic

namespace Dom

inductive Node where
  | text (data : List Char)
  | cdata (data : List Char)
  | comment (data : List Char)
  | instruction (target data : List Char)
  | element (name : List Char) (children : List Node)
  deriving Repr

/-- A document is known by its root element. -/
structure Document where
  name : List Char
  children : List Node
  deriving Repr

namespace Node

def childNodes : Node → List Node
  | .element _ cs => cs
  | _ => []

/-- An element has no value. -/
def nodeValue : Node → Option (List Char)
  | .text s | .cdata s | .comment s | .instruction _ s => some s
  | .element _ _ => none

/-- A comment or an instruction: it has a value and is no text. -/
def isRemark : Node → Bool
  | .comment _ | .instruction _ _ => true
  | _ => false

mutual
/-- The node and everything below it. -/
def flatten : Node → List Node
  | .element n cs => .element n cs :: flattenAll cs
  | .text s => [.text s]
  | .cdata s => [.cdata s]
  | .comment s => [.comment s]
  | .instruction t s => [.instruction t s]

def flattenAll : List Node → List Node
  | [] => []
  | c :: cs => flatten c ++ flattenAll cs
end

mutual
/-- The text and the sections below a node. -/
def textContent : Node → List Char
  | .text s | .cdata s => s
  | .comment _ | .instruction _ _ => []
  | .element _ cs => textContents cs

def textContents : List Node → List Char
  | [] => []
  | c :: cs => textContent c ++ textContents cs
end

/-- An element of the name. -/
def isNamed (k : String) : Node → Bool
  | .element n _ => n = k.toList
  | _ => false

def descendants (e : Node) : List Node := flattenAll e.childNodes

def elementsByTagName (e : Node) (k : String) : List Node := e.descendants.filter (isNamed k)

end Node

/-- The root is found by its own name too. -/
def Document.elementsByTagName (d : Document) (k : String) : List Node :=
  (Node.flatten (.element d.name d.children)).filter (Node.isNamed k)

end Dom
