import EntityRules.Trouble
import EntityRules.Number.Reading

/-! Comparisons of values. -/

namespace EntityRules.Value

/-- A value among the numbers: whole or double. -/
inductive Numeral where
  | whole (n : Int)
  | double (x : Float)

def numeral? : Value → Option Numeral
  | .bool b => some (.whole (if b then 1 else 0))
  | .int n => some (.whole n)
  | .float x => some (.double x)
  | .unset => some (.whole 0)
  | _ => none

def Numeral.same : Numeral → Numeral → Bool
  | .whole m, .whole n => m = n
  | .whole m, .double x | .double x, .whole m => Binary64.compareInt m x = some .eq
  | .double x, .double y => x == y

def Numeral.less : Numeral → Numeral → Bool
  | .whole m, .whole n => m < n
  | .whole m, .double x => Binary64.compareInt m x = some .lt
  | .double x, .whole m => Binary64.compareInt m x = some .gt
  | .double x, .double y => x < y

/-- Whether two values without parts are equal. -/
def sameLeaf (a b : Value) : Bool :=
  match a.numeral?, b.numeral? with
  | some m, some n => m.same n
  | _, _ =>
    match a.plain, b.plain with
    | .null, .null => true
    | .str s, .str t => s = t
    | .moment m, .moment n =>
      m.offset.isSome = n.offset.isSome && m.instant = n.instant
    | _, _ => false

mutual

/-- Whether two values are equal; objects are equal whatever the order of their members. -/
def same : Value → Value → Bool
  | .arr xs, .arr ys => sameItems xs ys
  | .obj ms, .obj ns => ms.length = ns.length && sameMembers ms ns
  | .record s ms, .record t ns => s = t && ms.length = ns.length && sameMembers ms ns
  | a, b => sameLeaf a b

def sameItems : List Value → List Value → Bool
  | [], [] => true
  | x :: xs, y :: ys => same x y && sameItems xs ys
  | _, _ => false

/-- Whether every member has an equal one of its name in a second object. -/
def sameMembers : Members Value → Members Value → Bool
  | [], _ => true
  | (name, v) :: rest, ns =>
    (match Members.get? ns name with
      | some w => same v w
      | none => false) && sameMembers rest ns

end

/-- The number that a value stands for in order comparisons; booleans stand for none. -/
def number? (v : Value) : Except Trouble (Option Float) :=
  match v.plain with
  | .float x => .ok (some x)
  | .int n =>
    match Binary64.ofInt? n with
    | some x => .ok (some x)
    | none => .error .numberTooLarge
  | .str s => .ok (Number.readAny? s)
  | _ => .ok none

/-- The numbers that two values stand for, if both stand for one. -/
def numbers? (a b : Value) : Except Trouble (Option (Float × Float)) := do
  let x ← a.number?
  let y ← b.number?
  return match x, y with
    | some x, some y => some (x, y)
    | _, _ => none

/-- Equality of values, a text that spells a number being equal to it. -/
def looselySame (a b : Value) : Except Trouble Bool :=
  if same a b then .ok true
  else (numbers? a b).map fun
    | some (x, y) => x == y
    | none => false

def ordered (test : Float → Float → Bool) (a b : Value) : Except Trouble Bool :=
  (numbers? a b).map fun
    | some (x, y) => test x y
    | none => false

/-- Whether one text is a part of another. -/
def isPart (part : List Char) : List Char → Bool
  | [] => part.isEmpty
  | c :: rest => part.isPrefixOf (c :: rest) || isPart part rest

/-- A value that can be looked up among the names of an object: no list and no object. -/
def key (v : Value) : Except Trouble Value :=
  match v with
  | .arr _ | .obj _ => .error (.notAKey v.typeName)
  | v => .ok v

/-- A document in the form that it shares with all documents that are the same key: a boolean, and a
double without a fraction, stand as whole numbers. -/
def keyForm (j : Json) : Except Trouble Json :=
  match j with
  | .bool b => .ok (.int (if b then 1 else 0))
  | .float x =>
    .ok (match Binary64.toInt? x with
      | some n => .int n
      | none => .float x)
  | .arr _ | .obj _ => .error (.notAKey j.typeName)
  | j => .ok j

/-- Whether a value is among the names of an object. -/
def isName (names : List String) (v : Value) : Bool :=
  match v.plain with
  | .str s => s ∈ names
  | _ => false

/-- Whether a container holds an item: a list by equality, an object by name, and anything else
when the text of the item is a part of its text. -/
def holds (container item : Value) : Except Trouble Bool :=
  match container with
  | .arr items => .ok (items.any (same · item))
  | .obj ms => (key item).map (isName (Members.names ms))
  | c => .ok (isPart item.text.toList c.text.toList)

/-- Whether a value is an item of a list; nothing is an item of something else. -/
def isItem? (v list : Value) : Option Bool :=
  match list with
  | .arr items => some (items.any fun item => same item.plain v.plain)
  | _ => none

/-- Applies a comparison. Null satisfies only the negations, the last one only for a list. -/
def compare (actual : Value) (op : Comparison) (expected : Value) : Except Trouble Bool :=
  match actual, op with
  | .null, .notEquals | .null, .notContains => .ok true
  | .null, .notIn => .ok (isItem? .null expected).isSome
  | .null, _ => .ok false
  | a, .equals => looselySame a expected
  | a, .notEquals => (looselySame a expected).map (!·)
  | a, .greaterThan => ordered (fun x y => decide (y < x)) a expected
  | a, .lessThan => ordered (fun x y => decide (x < y)) a expected
  | a, .greaterEqual => ordered (fun x y => decide (y ≤ x)) a expected
  | a, .lessEqual => ordered (fun x y => decide (x ≤ y)) a expected
  | a, .contains => holds a expected
  | a, .notContains => (holds a expected).map (!·)
  | a, .isIn => .ok ((isItem? a expected).getD false)
  | a, .notIn => .ok (((isItem? a expected).map (!·)).getD false)

end EntityRules.Value
