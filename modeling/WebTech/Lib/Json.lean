/-
# `WebTech.Lib.Json` — JSON texts, their grammar and a reader

A JSON value is kept as its text says it: a number as its literal, an object
as the members in the order they stand, duplicates included.  Looking a name
up takes the last member of that name, as `JSON.parse` does.

Three things are defined, and tied together:

    Val t v r        the grammar: `t` starts with a text of `v`, and `r` is left
    parseValue n t   the reader, with a bound on its recursion
    parse t          the reader on a whole text

The reader and the grammar are proved to be the same thing in
`WebTech.Lib.JsonText`.
-/
import WebTech.Lib.Chars
import Mathlib.Tactic.Common

namespace Rfc8259

/-- A JSON value. -/
inductive Json where
  | null
  | bool (b : Bool)
  | num (lit : List Char)
  | str (s : List Char)
  | arr (vs : List Json)
  | obj (ms : List (List Char × Json))
  deriving Repr, Inhabited

/-! ## Lexical structure -/

/-- The four whitespace characters of the grammar. -/
def isWs (c : Char) : Bool := c = ' ' || c = '\t' || c = '\n' || c = '\r'

/-- What is left of a text after its leading whitespace. -/
def skipWs (t : List Char) : List Char := t.dropWhile isWs

/-- The characters a number is written with. -/
def isNumChar (c : Char) : Bool :=
  c.isDigit || c = '-' || c = '+' || c = '.' || c = 'e' || c = 'E'

/-- `exp` without its letter: an optional sign and at least one digit. -/
def isExpInt : List Char → Bool
  | '+' :: r => r ≠ [] && r.all Char.isDigit
  | '-' :: r => r ≠ [] && r.all Char.isDigit
  | r => r ≠ [] && r.all Char.isDigit

/-- An optional `exp`. -/
def isExp : List Char → Bool
  | [] => true
  | c :: r => (c = 'e' || c = 'E') && isExpInt r

/-- An optional `frac`, then an optional `exp`. -/
def isFrac : List Char → Bool
  | '.' :: c :: r => c.isDigit && isExp (r.dropWhile Char.isDigit)
  | r => isExp r

/-- `int`: a zero alone, or digits that do not start with one. -/
def isInt : List Char → Bool
  | [] => false
  | c :: r =>
      if c = '0' then isFrac r
      else c.isDigit && isFrac (r.dropWhile Char.isDigit)

/-- `number = [ minus ] int [ frac ] [ exp ]`. -/
def isNumber : List Char → Bool
  | '-' :: r => isInt r
  | r => isInt r

/-- The longest run of number characters, when it is a number. -/
def parseNumber (t : List Char) : Option (List Char × List Char) :=
  if isNumber (t.takeWhile isNumChar) then
    some (t.takeWhile isNumChar, t.dropWhile isNumChar)
  else none

/-- The value of a hexadecimal digit. -/
def hexVal (c : Char) : Option Nat :=
  if '0' ≤ c ∧ c ≤ '9' then some (c.toNat - 48)
  else if 'a' ≤ c ∧ c ≤ 'f' then some (c.toNat - 87)
  else if 'A' ≤ c ∧ c ≤ 'F' then some (c.toNat - 55)
  else none

/-- Four hexadecimal digits. -/
def hex4 (a b c d : Char) : Option Nat := do
  return ((← hexVal a) * 16 + (← hexVal b)) * 256 + (← hexVal c) * 16 + (← hexVal d)

/-- The character a two-character escape stands for. -/
def escape (e : Char) : Option Char :=
  if e = '"' then some '"'
  else if e = '\\' then some '\\'
  else if e = '/' then some '/'
  else if e = 'b' then some '\x08'
  else if e = 'f' then some '\x0c'
  else if e = 'n' then some '\n'
  else if e = 'r' then some '\r'
  else if e = 't' then some '\t'
  else none

/-- The rest of a string after its opening quotation mark: the code points of
its characters and escapes, a `\u` escape giving one UTF-16 unit. -/
def parseUnits : List Char → Option (List Nat × List Char)
  | [] => none
  | c :: r =>
      if c = '"' then some ([], r)
      else if c = '\\' then
        match r with
        | 'u' :: h₁ :: h₂ :: h₃ :: h₄ :: r' =>
            match hex4 h₁ h₂ h₃ h₄, parseUnits r' with
            | some u, some (us, r'') => some (u :: us, r'')
            | _, _ => none
        | e :: r' =>
            match escape e, parseUnits r' with
            | some x, some (us, r'') => some (x.toNat :: us, r'')
            | _, _ => none
        | [] => none
      else if c.toNat < 0x20 then none
      else
        match parseUnits r with
        | some (us, r') => some (c.toNat :: us, r')
        | none => none

/-- One code point; half of a surrogate pair on its own is no character and
becomes U+FFFD. -/
def unitChar (u : Nat) : Char :=
  if u.isValidChar then Char.ofNat u else '\ufffd'

def isHigh (u : Nat) : Bool := 0xd800 ≤ u && u < 0xdc00
def isLow (u : Nat) : Bool := 0xdc00 ≤ u && u < 0xe000

/-- Surrogate pairs are one character. -/
def fuse : List Nat → List Char
  | [] => []
  | [u] => [unitChar u]
  | u :: u' :: us =>
      if isHigh u && isLow u' then
        unitChar (0x10000 + (u - 0xd800) * 0x400 + (u' - 0xdc00)) :: fuse us
      else unitChar u :: fuse (u' :: us)

/-- The rest of a string after its opening quotation mark. -/
def parseString (t : List Char) : Option (List Char × List Char) :=
  (parseUnits t).map fun p => (fuse p.1, p.2)

/-! ## The grammar

`Val t v r`: the text `t` starts, after whitespace, with a text of `v`, and
`r` is what follows it. -/

/-- The characters of a string, up to and including its closing quotation
mark, and the code points they stand for. -/
inductive Body : List Char → List Nat → List Char → Prop
  | close {r : List Char} : Body ('"' :: r) [] r
  | char {c : Char} {t r : List Char} {us : List Nat} :
      c ≠ '"' → c ≠ '\\' → 0x20 ≤ c.toNat → Body t us r → Body (c :: t) (c.toNat :: us) r
  | escape {e x : Char} {t r : List Char} {us : List Nat} :
      escape e = some x → Body t us r → Body ('\\' :: e :: t) (x.toNat :: us) r
  | hex {h₁ h₂ h₃ h₄ : Char} {u : Nat} {t r : List Char} {us : List Nat} :
      hex4 h₁ h₂ h₃ h₄ = some u → Body t us r →
      Body ('\\' :: 'u' :: h₁ :: h₂ :: h₃ :: h₄ :: t) (u :: us) r

mutual
inductive Val : List Char → Json → List Char → Prop
  | null {t r : List Char} :
      skipWs t = 'n' :: 'u' :: 'l' :: 'l' :: r → Val t .null r
  | true {t r : List Char} :
      skipWs t = 't' :: 'r' :: 'u' :: 'e' :: r → Val t (.bool true) r
  | false {t r : List Char} :
      skipWs t = 'f' :: 'a' :: 'l' :: 's' :: 'e' :: r → Val t (.bool false) r
  | str {t r r' : List Char} {us : List Nat} :
      skipWs t = '"' :: r → Body r us r' → Val t (.str (fuse us)) r'
  | num {t r lit : List Char} :
      parseNumber (skipWs t) = some (lit, r) → Val t (.num lit) r
  | arrNil {t r r' : List Char} :
      skipWs t = '[' :: r → skipWs r = ']' :: r' → Val t (.arr []) r'
  | arr {t r r' : List Char} {vs : List Json} :
      skipWs t = '[' :: r → Elems r vs r' → Val t (.arr vs) r'
  | objNil {t r r' : List Char} :
      skipWs t = '{' :: r → skipWs r = '}' :: r' → Val t (.obj []) r'
  | obj {t r r' : List Char} {ms : List (List Char × Json)} :
      skipWs t = '{' :: r → Members r ms r' → Val t (.obj ms) r'

/-- The elements of a non-empty array, up to its closing bracket. -/
inductive Elems : List Char → List Json → List Char → Prop
  | last {t r r' : List Char} {v : Json} :
      Val t v r → skipWs r = ']' :: r' → Elems t [v] r'
  | cons {t r r' r'' : List Char} {v : Json} {vs : List Json} :
      Val t v r → skipWs r = ',' :: r' → Elems r' vs r'' → Elems t (v :: vs) r''

/-- The members of a non-empty object, up to its closing brace. -/
inductive Members : List Char → List (List Char × Json) → List Char → Prop
  | last {t r r₁ r₂ r₃ r₄ : List Char} {us : List Nat} {v : Json} :
      skipWs t = '"' :: r → Body r us r₁ → skipWs r₁ = ':' :: r₂ →
      Val r₂ v r₃ → skipWs r₃ = '}' :: r₄ → Members t [(fuse us, v)] r₄
  | cons {t r r₁ r₂ r₃ r₄ r₅ : List Char} {us : List Nat} {v : Json}
      {ms : List (List Char × Json)} :
      skipWs t = '"' :: r → Body r us r₁ → skipWs r₁ = ':' :: r₂ →
      Val r₂ v r₃ → skipWs r₃ = ',' :: r₄ → Members r₄ ms r₅ →
      Members t ((fuse us, v) :: ms) r₅
end

/-! ## The reader -/

mutual
/-- One value, with at most `n` nested calls. -/
def parseValue : Nat → List Char → Option (Json × List Char)
  | 0, _ => none
  | n + 1, t =>
      match skipWs t with
      | '"' :: r => (parseString r).map fun p => (.str p.1, p.2)
      | '[' :: r =>
          match skipWs r with
          | ']' :: r' => some (.arr [], r')
          | _ => (parseElems n r).map fun p => (.arr p.1, p.2)
      | '{' :: r =>
          match skipWs r with
          | '}' :: r' => some (.obj [], r')
          | _ => (parseMembers n r).map fun p => (.obj p.1, p.2)
      | 'n' :: 'u' :: 'l' :: 'l' :: r => some (.null, r)
      | 't' :: 'r' :: 'u' :: 'e' :: r => some (.bool true, r)
      | 'f' :: 'a' :: 'l' :: 's' :: 'e' :: r => some (.bool false, r)
      | r => (parseNumber r).map fun p => (.num p.1, p.2)

/-- The elements of a non-empty array. -/
def parseElems : Nat → List Char → Option (List Json × List Char)
  | 0, _ => none
  | n + 1, t =>
      match parseValue n t with
      | none => none
      | some (v, r) =>
          match skipWs r with
          | ']' :: r' => some ([v], r')
          | ',' :: r' => (parseElems n r').map fun p => (v :: p.1, p.2)
          | _ => none

/-- The members of a non-empty object. -/
def parseMembers : Nat → List Char → Option (List (List Char × Json) × List Char)
  | 0, _ => none
  | n + 1, t =>
      match skipWs t with
      | '"' :: r =>
          match parseString r with
          | none => none
          | some (k, r₁) =>
              match skipWs r₁ with
              | ':' :: r₂ =>
                  match parseValue n r₂ with
                  | none => none
                  | some (v, r₃) =>
                      match skipWs r₃ with
                      | '}' :: r₄ => some ([(k, v)], r₄)
                      | ',' :: r₄ => (parseMembers n r₄).map fun p => ((k, v) :: p.1, p.2)
                      | _ => none
              | _ => none
      | _ => none
end

/-- A whole text: one value, and nothing but whitespace after it. -/
def parse (t : List Char) : Option Json :=
  match parseValue (t.length + 1) t with
  | some (v, r) => if skipWs r = [] then some v else none
  | none => none

/-! ## Writing -/

/-- A hexadecimal digit. -/
def hexDigit (n : Nat) : Char := if n < 10 then Char.ofNat (48 + n) else Char.ofNat (87 + n)

/-- One character of a string, escaped where the grammar asks for it. -/
def printChar (c : Char) : List Char :=
  if c = '"' then ['\\', '"']
  else if c = '\\' then ['\\', '\\']
  else if c.toNat < 0x20 then
    ['\\', 'u', '0', '0', hexDigit (c.toNat / 16), hexDigit (c.toNat % 16)]
  else [c]

def printString (s : List Char) : List Char := '"' :: s.flatMap printChar ++ ['"']

mutual
/-- A text of `v`, without whitespace. -/
def print : Json → List Char
  | .null => ['n', 'u', 'l', 'l']
  | .bool true => ['t', 'r', 'u', 'e']
  | .bool false => ['f', 'a', 'l', 's', 'e']
  | .num lit => lit
  | .str s => printString s
  | .arr vs => '[' :: printElems vs
  | .obj ms => '{' :: printMembers ms

/-- The elements and the closing bracket. -/
def printElems : List Json → List Char
  | [] => [']']
  | [v] => print v ++ [']']
  | v :: vs => print v ++ ',' :: printElems vs

/-- The members and the closing brace. -/
def printMembers : List (List Char × Json) → List Char
  | [] => ['}']
  | [(k, v)] => printString k ++ ':' :: print v ++ ['}']
  | (k, v) :: ms => printString k ++ ':' :: print v ++ ',' :: printMembers ms
end

/-! ## Reading a value -/

/-- The value of the last member named `k`. -/
def lookup (k : List Char) (ms : List (List Char × Json)) : Option Json :=
  (ms.reverse.find? fun m => m.1 = k).map Prod.snd

end Rfc8259
