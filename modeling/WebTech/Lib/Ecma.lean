/-
# `WebTech.Lib.Ecma` — ECMAScript values that come from JSON, and scripts that use them

A script's values here are `undefined` and what `JSON.parse` makes of a text.
The operations that can throw a TypeError return `none` for it: reading a
property of `undefined` or `null`, and turning into a string an object whose
own member `toString` hides the inherited function.

    getProp, getIndex     v.k, v[i]
    toText                '' + v
    looseEqZero           v == '0.00'
    lessThan              i < v
    concat                a sum of literals and values, as text

A `Script` is a computation over a state that a thrown TypeError does not undo.
A number is compared and written as a `Floating` keeps it.
-/
import WebTech.Lib.JsonText
import WebTech.Lib.Floating

namespace Ecma

open Rfc8259

/-- A value: `undefined`, or a JSON value. -/
abbrev Value := Option Json

inductive TypeError where
  | typeError
  deriving DecidableEq, Repr

/-! ## Properties -/

/-- The UTF-16 units of a string. -/
def utf16 (s : List Char) : List Nat :=
  s.flatMap fun c =>
    if c.toNat < 0x10000 then [c.toNat]
    else [0xd800 + (c.toNat - 0x10000) / 0x400, 0xdc00 + (c.toNat - 0x10000) % 0x400]

/-- A number a script counts with. -/
def number (n : Nat) : Json := .num (Decimals.natText n)

/-- `v.k`, for a name `k` that only objects, and `length` that also arrays and
strings have. -/
def getProp (v : Value) (k : String) : Option Value :=
  match v with
  | none => none
  | some .null => none
  | some (.obj ms) => some (lookup k.toList ms)
  | some (.arr vs) => some (if k = "length" then some (number vs.length) else none)
  | some (.str s) => some (if k = "length" then some (number (utf16 s).length) else none)
  | some (.bool _) => some none
  | some (.num _) => some none

/-- `v[i]`. -/
def getIndex (v : Value) (i : Nat) : Option Value :=
  match v with
  | none => none
  | some .null => none
  | some (.obj ms) => some (lookup (Decimals.natText i) ms)
  | some (.arr vs) => some vs[i]?
  | some (.str s) => some ((utf16 s)[i]?.map fun u => .str [unitChar u])
  | some (.bool _) => some none
  | some (.num _) => some none

/-- `v.k₁.k₂…`. -/
def getPath (v : Value) : List String → Option Value
  | [] => some v
  | k :: ks => (getProp v k).bind fun w => getPath w ks

theorem getPath_append (v : Value) (ks ks' : List String) :
    getPath v (ks ++ ks') = (getPath v ks).bind fun w => getPath w ks' := by
  induction ks generalizing v with
  | nil => rfl
  | cons k ks ih =>
      rw [List.cons_append, getPath, getPath]
      cases getProp v k with
      | none => rfl
      | some w => exact ih w

/-! ## Conversions -/

section Conversions
variable [Floating]

/-- `Number::toString` of the number a literal stands for. -/
def numText (lit : List Char) : List Char :=
  match Decimals.scan lit with
  | some (d, _) => Floating.print d
  | none => "NaN".toList

mutual
/-- `'' + v`. -/
def jsonText : Json → Option (List Char)
  | .null => some "null".toList
  | .bool true => some "true".toList
  | .bool false => some "false".toList
  | .num lit => some (numText lit)
  | .str s => some s
  | .arr vs => joinText vs
  | .obj ms => if (lookup "toString".toList ms).isSome then none else some "[object Object]".toList

/-- `vs.join()`, in which `null` is empty. -/
def joinText : List Json → Option (List Char)
  | [] => some []
  | [.null] => some []
  | [v] => jsonText v
  | .null :: vs => do return ',' :: (← joinText vs)
  | v :: vs => do return (← jsonText v) ++ ',' :: (← joinText vs)
end

/-- `'' + v`. -/
def toText : Value → Option (List Char)
  | none => some "undefined".toList
  | some v => jsonText v

/-- No array and no object. -/
def isLeaf : Value → Bool
  | some (.arr _) | some (.obj _) => false
  | _ => true

theorem toText_isSome {v : Value} (h : isLeaf v = true) : (toText v).isSome := by
  cases v with
  | none => rfl
  | some v =>
      cases v with
      | null => rfl
      | bool b => cases b <;> rfl
      | num lit => rfl
      | str s => rfl
      | arr vs => exact nomatch h
      | obj ms => exact nomatch h

/-- `v == '0.00'`: a number is compared as a number, and both zeros are written
`0`; everything else is compared as a string. -/
def looseEqZero : Value → Option Bool
  | none => some false
  | some .null => some false
  | some (.bool b) => some !b
  | some (.num lit) => some (numText lit = ['0'])
  | some (.str s) => some (s = "0.00".toList)
  | some (.arr vs) => (joinText vs).map fun s => s = "0.00".toList
  | some (.obj ms) => (jsonText (.obj ms)).map fun s => s = "0.00".toList

/-- Whitespace and line terminators, which `StringToNumber` trims. -/
def isSpace (c : Char) : Bool :=
  Decimals.isSpace c || c = '\u00a0' || c = '\ufeff' || c = '\u1680'
    || ('\u2000' ≤ c && c ≤ '\u200a') || c = '\u2028' || c = '\u2029' || c = '\u202f'
    || c = '\u205f' || c = '\u3000'

/-- The value of a digit in a base up to sixteen. -/
def baseDigit (base : Nat) (c : Char) : Option Nat := (hexVal c).filter (· < base)

/-- The value of a text of digits in a base. -/
def baseValue (base : Nat) (t : List Char) : Option Nat :=
  if t = [] then none
  else t.foldlM (fun n c => (baseDigit base c).map fun d => base * n + d) 0

/-- `i < s` for a string: `StringToNumber`, then the comparison. -/
def lessThanText (i : Nat) (s : List Char) : Bool :=
  let t := (s.dropWhile isSpace).rdropWhile isSpace
  match t with
  | [] => false
  | '0' :: 'x' :: r | '0' :: 'X' :: r => (baseValue 16 r).any fun n => i < n
  | '0' :: 'o' :: r | '0' :: 'O' :: r => (baseValue 8 r).any fun n => i < n
  | '0' :: 'b' :: r | '0' :: 'B' :: r => (baseValue 2 r).any fun n => i < n
  | t =>
      if t = "Infinity".toList ∨ t = "+Infinity".toList then true
      else
        match Decimals.scan t with
        | some (d, []) => below i d
        | _ => false

/-- `i < n` for the number a literal stands for. -/
def lessThanNumber (i : Nat) (lit : List Char) : Bool :=
  match Decimals.scan lit with
  | some (d, _) => below i d
  | none => false

/-- `i < v`. -/
def lessThan (i : Nat) : Value → Option Bool
  | none => some false
  | some .null => some false
  | some (.bool b) => some (i < b.toNat)
  | some (.num lit) => some (lessThanNumber i lit)
  | some (.str s) => some (lessThanText i s)
  | some (.arr vs) => (joinText vs).map (lessThanText i)
  | some (.obj ms) => (jsonText (.obj ms)).map (lessThanText i)

/-- Counting up to a number ends at that number. -/
theorem lessThan_number (i n : Nat) : lessThan i (some (number n)) = some (decide (i < n)) := by
  show some (lessThanNumber i (Decimals.natText n)) = _
  rw [lessThanNumber, Decimals.scan_natText]
  refine congrArg some (decide_eq_decide.mpr ?_)
  exact Int.ofNat_lt

/-- An operand of a string concatenation. -/
inductive Operand where
  | lit (s : String)
  | val (v : Value)

def Operand.text : Operand → Option (List Char)
  | .lit s => some s.toList
  | .val v => toText v

/-- `a + b + …`, one of the first two being a string. -/
def concat : List Operand → Option (List Char)
  | [] => some []
  | o :: os => do return (← o.text) ++ (← concat os)

theorem concat_cons {o : Operand} {os : List Operand} {t : List Char} :
    concat (o :: os) = some t ↔
      ∃ u v, o.text = some u ∧ concat os = some v ∧ t = u ++ v := by
  rw [concat]
  cases o.text with
  | none => exact ⟨nofun, nofun⟩
  | some u =>
      cases concat os with
      | none => exact ⟨nofun, nofun⟩
      | some v =>
          constructor
          · rintro ⟨⟩
            exact ⟨u, v, rfl, rfl, rfl⟩
          · rintro ⟨_, _, ⟨⟩, ⟨⟩, rfl⟩
            rfl

theorem concat_append : ∀ {os os' : List Operand} {t : List Char}, concat (os ++ os') = some t →
    ∃ u v, concat os = some u ∧ concat os' = some v ∧ t = u ++ v
  | [], _, t, h => ⟨[], t, rfl, h, rfl⟩
  | o :: os, os', t, h => by
      obtain ⟨s, r, ho, hr, rfl⟩ := concat_cons.mp h
      obtain ⟨u, v, hu, hv, rfl⟩ := concat_append hr
      exact ⟨s ++ u, v, concat_cons.mpr ⟨s, u, ho, hu, rfl⟩, hv, (List.append_assoc s u v).symm⟩

/-- Every operand has a text. -/
def HasText (os : List Operand) : Prop := ∀ o ∈ os, o.text.isSome

theorem HasText.nil : HasText [] := nofun

theorem HasText.cons {o : Operand} {os : List Operand} (ho : o.text.isSome) (hos : HasText os) :
    HasText (o :: os) :=
  List.forall_mem_cons.mpr ⟨ho, hos⟩

theorem HasText.append {os os' : List Operand} (h : HasText os) (h' : HasText os') :
    HasText (os ++ os') :=
  List.forall_mem_append.mpr ⟨h, h'⟩

theorem concat_isSome : ∀ {os : List Operand}, HasText os → (concat os).isSome
  | [], _ => rfl
  | o :: os, h => by
      obtain ⟨u, hu⟩ := Option.isSome_iff_exists.mp (h o List.mem_cons_self)
      obtain ⟨v, hv⟩ := Option.isSome_iff_exists.mp
        (concat_isSome fun o' ho' => h o' (List.mem_cons_of_mem o ho'))
      rw [concat_cons.mpr ⟨u, v, hu, hv, rfl⟩]
      rfl

theorem concat_append_texts {os os' : List Operand} {u v : List Char} (hu : concat os = some u)
    (hv : concat os' = some v) : concat (os ++ os') = some (u ++ v) := by
  induction os generalizing u with
  | nil =>
      cases hu
      exact hv
  | cons o os ih =>
      obtain ⟨s, r, ho, hr, rfl⟩ := concat_cons.mp hu
      exact concat_cons.mpr ⟨s, r ++ v, ho, ih hr, List.append_assoc s r v⟩

/-- A sum without a text has an operand without one. -/
theorem hasText_of_concat : ∀ {os : List Operand} {t : List Char}, concat os = some t → HasText os
  | [], _, _ => HasText.nil
  | o :: os, t, h => by
      obtain ⟨u, v, hu, hv, -⟩ := concat_cons.mp h
      refine HasText.cons ?_ (hasText_of_concat hv)
      rw [hu]
      rfl

/-- A sum of operands with known texts. -/
theorem concat_texts {os : List Operand} {ts : List (List Char)}
    (h : List.Forall₂ (fun o t => o.text = some t) os ts) : concat os = some ts.flatten := by
  induction h with
  | nil => rfl
  | @cons o t os ts ho _ ih => exact concat_cons.mpr ⟨t, ts.flatten, ho, ih, rfl⟩

end Conversions

/-! ## Scripts -/

/-- A script over the state `σ`; what it did before a TypeError stays done. -/
abbrev Script (σ : Type) := ExceptT TypeError (StateM σ)

namespace Script
variable {σ α β : Type}

/-- How a script ends, and the state it leaves. -/
def exec (x : Script σ α) (s : σ) : Except TypeError α × σ := x.run.run s

/-- An operation that throws a TypeError where it has no value. -/
def ofOption : Option α → Script σ α
  | some a => pure a
  | none => throw .typeError

@[simp] theorem exec_pure (a : α) (s : σ) : exec (pure a : Script σ α) s = (.ok a, s) := rfl

@[simp] theorem exec_modify (f : σ → σ) (s : σ) :
    exec (modify f : Script σ Unit) s = (.ok ⟨⟩, f s) := rfl

@[simp] theorem exec_some (a : α) (s : σ) : exec (ofOption (some a)) s = (.ok a, s) := rfl

@[simp] theorem exec_none (s : σ) :
    exec (ofOption none : Script σ α) s = (.error .typeError, s) := rfl

theorem exec_bind_ok {x : Script σ α} {s s' : σ} {a : α} (h : exec x s = (.ok a, s'))
    (f : α → Script σ β) : exec (x >>= f) s = exec (f a) s' := by
  show exec (ExceptT.mk (x.run >>= ExceptT.bindCont f)) s = _
  show (ExceptT.bindCont f (x.run.run s).1).run (x.run.run s).2 = _
  rw [show x.run.run s = (.ok a, s') from h]
  rfl

theorem exec_bind_error {x : Script σ α} {s s' : σ} {e : TypeError}
    (h : exec x s = (.error e, s')) (f : α → Script σ β) : exec (x >>= f) s = (.error e, s') := by
  show exec (ExceptT.mk (x.run >>= ExceptT.bindCont f)) s = _
  show (ExceptT.bindCont f (x.run.run s).1).run (x.run.run s).2 = _
  rw [show x.run.run s = (.error e, s') from h]
  rfl

@[simp] theorem exec_get_bind (f : σ → Script σ β) (s : σ) :
    exec (get >>= f) s = exec (f s) s :=
  exec_bind_ok (show exec get s = (.ok s, s) from rfl) f

@[simp] theorem exec_modify_bind (g : σ → σ) (f : PUnit → Script σ β) (s : σ) :
    exec (modify g >>= f) s = exec (f ⟨⟩) (g s) :=
  exec_bind_ok (exec_modify g s) f

@[simp] theorem exec_some_bind (a : α) (f : α → Script σ β) (s : σ) :
    exec (ofOption (some a) >>= f) s = exec (f a) s :=
  exec_bind_ok (exec_some a s) f

@[simp] theorem exec_none_bind (f : α → Script σ β) (s : σ) :
    exec (ofOption none >>= f) s = (.error .typeError, s) :=
  exec_bind_error (exec_none s) f

end Script

end Ecma
