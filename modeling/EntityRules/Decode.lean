import EntityRules.Json
import EntityRules.Moment.Text
import EntityRules.Vocabulary

/-! Reading documents into the records of the engine. -/

namespace EntityRules

/-- What is wrong with a value. -/
inductive FaultKind where
  | missing
  | notText
  | notWhole
  | unreadableWhole
  | oversizedWhole
  | fractionalWhole
  | notFinite
  | notNumber
  | unreadableNumber
  | notBoolean
  | unreadableBoolean
  | notMoment
  | unreadableMoment
  | momentOutOfRange
  | unknownWord
  | notList
  | notMapping
  | notRecord
  /-- Conditions stand inside each other too deeply. -/
  | tooDeep
  | rejected
deriving DecidableEq, Repr

/-- One step of a path into a document. A name that is no text counts as a whole number or stands
as it is written in messages; a fault of a name itself is marked. -/
inductive PathStep where
  | member (name : String)
  | item (index : Nat)
  | numberedMember (n : Int)
  | nameItself
deriving DecidableEq, Repr

/-- What is wrong in a document, and where. -/
structure Fault where
  kind : FaultKind
  path : List PathStep
deriving DecidableEq, Repr

def Fault.under (step : PathStep) (f : Fault) : Fault := { f with path := step :: f.path }

/-- Why a document was not read: faults in it, or a number of a shape or size that cannot be
taken for a strength. -/
inductive Refusal where
  | faults (fs : List Fault)
  | shapeOfNumber
  | sizeOfNumber
deriving DecidableEq, Repr

/-- The result of reading a document. -/
inductive Decoded (α : Type) where
  | ok (value : α)
  | refused (why : Refusal)
deriving Repr

namespace Decoded

variable {α β : Type}

def fault (kind : FaultKind) : Decoded α := .refused (.faults [⟨kind, []⟩])

def map (f : α → β) : Decoded α → Decoded β
  | ok a => ok (f a)
  | refused r => refused r

/-- Reads two parts. Faults of both are reported together; a refusal that is not a fault is the
first one. -/
def apply (f : Decoded (α → β)) (a : Decoded α) : Decoded β :=
  match f, a with
  | ok f, ok a => ok (f a)
  | refused r, ok _ => refused r
  | ok _, refused r => refused r
  | refused (.faults fs), refused (.faults gs) => refused (.faults (fs ++ gs))
  | refused (.faults _), refused r => refused r
  | refused r, refused _ => refused r

instance : Functor Decoded where map := map

instance : Applicative Decoded where
  pure := ok
  seq f a := apply f (a ())

/-- A check of a record whose fields are fine. -/
def andThen (a : Decoded α) (f : α → Decoded β) : Decoded β :=
  match a with
  | ok a => f a
  | refused r => refused r

/-- Puts a step in front of the path of every fault. -/
def under (step : PathStep) : Decoded α → Decoded α
  | refused (.faults fs) => refused (.faults (fs.map (Fault.under step)))
  | a => a

def toOption : Decoded α → Option α
  | ok a => some a
  | refused _ => none

@[simp] theorem map_ok (f : α → β) (a : α) : f <$> (ok a) = ok (f a) := rfl
@[simp] theorem seq_ok (f : α → β) (a : α) : (ok f) <*> (ok a) = ok (f a) := rfl
@[simp] theorem under_ok (s : PathStep) (a : α) : (ok a).under s = ok a := rfl
@[simp] theorem andThen_ok (a : α) (f : α → Decoded β) : (ok a).andThen f = f a := rfl

end Decoded

namespace Decode

variable {α : Type}

def text : Json → Decoded String
  | .str s => .ok s
  | _ => .fault .notText

/-- The size from which on a fractional number no longer stands for a whole one. -/
def wholeLimit : Nat := Nat.pow 2 63

/-- A whole number: given as such, as a boolean, as a number without a fraction or as a text. -/
def whole : Json → Decoded Int
  | .int n => .ok n
  | .bool b => .ok (if b then 1 else 0)
  | .float x =>
    match Binary64.parts x with
    | .finite _ =>
      match Binary64.toInt? x with
      | some n => if n.natAbs < wholeLimit then .ok n else .fault .oversizedWhole
      | none => .fault .fractionalWhole
    | _ => .fault .notFinite
  | .str s =>
    if Number.isOverlong s then .fault .oversizedWhole
    else
      match Number.readWhole? s with
      | some n => .ok n
      | none => .fault .unreadableWhole
  | _ => .fault .notWhole

def number : Json → Decoded Float
  | .float x => .ok x
  | .int n =>
    match Binary64.ofInt? n with
    | some x => .ok x
    | none => .fault .notNumber
  | .bool b => .ok (if b then 1 else 0)
  | .str s =>
    match Number.readField? s with
    | some x => .ok x
    | none => .fault .unreadableNumber
  | _ => .fault .notNumber

/-- The texts that stand for booleans, in any case. -/
def booleanOf? (s : String) : Option Bool :=
  let s := String.ofList (s.toList.map Char.toLower)
  if s ∈ ["0", "off", "f", "false", "n", "no"] then some false
  else if s ∈ ["1", "on", "t", "true", "y", "yes"] then some true
  else none

/-- Whether a whole number fits into a signed word of 64 bits. -/
def fitsWord (n : Int) : Bool := -(wholeLimit : Int) ≤ n && n < wholeLimit

/-- A boolean: given as such, as zero or one, or as a text. -/
def boolean : Json → Decoded Bool
  | .bool b => .ok b
  | .int n =>
    if n = 0 then .ok false
    else if n = 1 then .ok true
    else if fitsWord n then .fault .unreadableBoolean
    else .fault .notBoolean
  | .float x =>
    match Binary64.toInt? x with
    | some n =>
      if n = 0 then .ok false
      else if n = 1 then .ok true
      else if n.natAbs < wholeLimit then .fault .unreadableBoolean
      else .fault .notBoolean
    | none => .fault .notBoolean
  | .str s =>
    match booleanOf? s with
    | some b => .ok b
    | none => .fault .unreadableBoolean
  | _ => .fault .notBoolean

def moment : Json → Decoded Moment
  | .str s =>
    match Moment.read s with
    | .ok m => .ok m
    | .error .unreadable => .fault .unreadableMoment
    | .error .outOfRange => .fault .momentOutOfRange
  | .int n =>
    match Moment.ofCount n with
    | .ok m => .ok m
    | .error _ => if (Binary64.ofInt? n).isSome then .fault .momentOutOfRange else .fault .notMoment
  | .float x =>
    match Moment.ofFractionalCount x with
    | .ok m => .ok m
    | .error _ => .fault .momentOutOfRange
  | _ => .fault .notMoment

/-- A word of a vocabulary, given by its name. -/
def word [Vocabulary α] : Json → Decoded α
  | .str s =>
    match Vocabulary.ofName? s with
    | some w => .ok w
    | none => .fault .unknownWord
  | _ => .fault .unknownWord

def optional (dec : Json → Decoded α) : Json → Decoded (Option α)
  | .null => .ok none
  | j => some <$> dec j

def itemsFrom (dec : Json → Decoded α) : Nat → List Json → Decoded (List α)
  | _, [] => .ok []
  | i, j :: rest => List.cons <$> (dec j).under (.item i) <*> itemsFrom dec (i + 1) rest

/-- Reads documents up to the first that cannot be read. -/
def each (dec : Json → Decoded α) : List Json → Decoded (List α)
  | [] => .ok []
  | j :: rest => (dec j).andThen fun a => (a :: ·) <$> each dec rest

def list (dec : Json → Decoded α) : Json → Decoded (List α)
  | .arr items => itemsFrom dec 0 items
  | _ => .fault .notList

def membersFrom (dec : Json → Decoded α) : Members Json → Decoded (Members α)
  | [] => .ok []
  | (name, j) :: rest =>
    List.cons <$> ((name, ·) <$> (dec j).under (.member name)) <*> membersFrom dec rest

def mapping (dec : Json → Decoded α) : Json → Decoded (Members α)
  | .obj ms => membersFrom dec ms
  | _ => .fault .notMapping

/-- Reads the members of an object as the fields of a record. -/
def record (dec : Members Json → Decoded α) : Json → Decoded α
  | .obj ms => dec ms
  | _ => .fault .notRecord

/-- The first of several names that an object has, with its value. A null counts as present. -/
def firstPresent (ms : Members Json) : List String → Option (String × Json)
  | [] => none
  | name :: rest =>
    match ms.get? name with
    | some j => some (name, j)
    | none => firstPresent ms rest

/-- A field with several names; one that is absent has a default. -/
def field (ms : Members Json) (names : List String) (dec : Json → Decoded α) (default : α) :
    Decoded α :=
  match firstPresent ms names with
  | some (name, j) => (dec j).under (.member name)
  | none => .ok default

/-- A field that has to be there. -/
def required (ms : Members Json) (names : List String) (dec : Json → Decoded α) : Decoded α :=
  match firstPresent ms names with
  | some (name, j) => (dec j).under (.member name)
  | none => .refused (.faults [⟨.missing, [.member (names.headD "")]⟩])

/-- The members that no field took its value from: for each field only the first of its names that
is present counts as taken. -/
def untaken (ms : Members Json) (fields : List (List String)) : Members Json :=
  let taken := fields.filterMap fun names => (firstPresent ms names).map (·.1)
  ms.filter fun m => m.1 ∉ taken

end Decode

end EntityRules
