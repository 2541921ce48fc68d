import EntityRules.Text.Digit

/-! Arguments of commands: every one is classified first, then they are given out in order. -/

namespace EntityRules.CommandLine

/-- What an option is for. -/
inductive OptionRole where
  | help
  /-- The option takes the next arguments, each of which has to be acceptable. -/
  | takes (count : Nat) (accepts : String → Bool)

/-- An option by its name, dashes included. -/
structure OptionRule where
  name : String
  role : OptionRole

/-- What a command takes: options, and arguments at a number of places. Two dashes make all
arguments behind them plain. -/
structure Grammar where
  places : Nat
  options : List OptionRule

/-- Why arguments are not read to their end. -/
inductive Stop where
  | help
  | misuse
deriving DecidableEq, Repr

/-- What stands at a place or is given to an option; two dashes that nothing guards stand for
nothing. -/
abbrev Argument := Option String

/-- What arguments give, in their order. -/
structure Arguments where
  places : List Argument := []
  options : List (String × List Argument) := []

/-- What is joined to an option within its argument. -/
inductive Joined where
  | nothing
  /-- A value behind an equals sign. -/
  | value (text : String)
  /-- Letters behind a short option. -/
  | letters (cs : List Char)

/-- What an argument is taken for. -/
inductive Role where
  | plain (text : String)
  | separator
  | option (rule : OptionRule) (joined : Joined)
  | unknown

/-- The exit code of a program that stops. -/
def Stop.code : Stop → Nat
  | help => 0
  | misuse => 2

/-- Two dashes. -/
def dashes : String := "--"

def isDecimalDigit (c : Char) : Bool := (Text.decimalValue? c).isSome

/-- A text without the line feed at its end, if it has one. -/
def withoutLineFeed (text : List Char) : List Char :=
  if text.getLast? = some '\n' then text.dropLast else text

/-- Whether a text is a number with a minus sign: digits, or a point with digits behind it. A line
feed may follow. -/
def isNegativeNumber (text : String) : Bool :=
  match withoutLineFeed text.toList with
  | '-' :: digits =>
    match digits.dropWhile isDecimalDigit with
    | [] => digits ≠ []
    | '.' :: places => places ≠ [] && places.all isDecimalDigit
    | _ => false
  | _ => false

/-- Cuts a text at its first equals sign. -/
def cutJoined (text : String) : String × Joined :=
  let cs := text.toList
  match cs.dropWhile (· ≠ '=') with
  | _ :: value => (String.ofList (cs.takeWhile (· ≠ '=')), .value (String.ofList value))
  | [] => (text, .nothing)

namespace Grammar

/-- The rule of an option by its whole name. -/
def rule? (g : Grammar) (name : String) : Option OptionRule := g.options.find? (·.name = name)

/-- The options that an argument with dashes can stand for. Of a name with two dashes the beginning
is enough; a name with a single dash and a letter has the rest of the argument joined to it. -/
def candidates (g : Grammar) (text : String) : List (OptionRule × Joined) :=
  match text.toList with
  | '-' :: '-' :: _ =>
    let (start, joined) := cutJoined text
    (g.options.filter fun r => start.toList.isPrefixOf r.name.toList).map (·, joined)
  | '-' :: c :: rest =>
    (g.options.filter fun r => r.name.toList = ['-', c]).map (·, .letters rest)
  | _ => []

/-- Tells what an argument with dashes that names no option is for. -/
def classifyStart (g : Grammar) (text : String) : Except Stop Role :=
  match g.candidates text with
  | [(rule, joined)] => .ok (.option rule joined)
  | _ :: _ :: _ => .error .misuse
  | [] => .ok (if isNegativeNumber text || text.toList.contains ' ' then .plain text else .unknown)

def classify (g : Grammar) (text : String) : Except Stop Role :=
  match text.toList with
  | '-' :: _ :: _ =>
    let (name, joined) := cutJoined text
    match g.rule? text, g.rule? name with
    | some rule, _ => .ok (.option rule .nothing)
    | none, some rule => .ok (.option rule joined)
    | none, none => g.classifyStart text
  | _ => .ok (.plain text)

def classifyAll (g : Grammar) : List String → Except Stop (List Role)
  | [] => .ok []
  | text :: rest =>
    if text = dashes then .ok (.separator :: rest.map .plain)
    else do return (← g.classify text) :: (← g.classifyAll rest)

end Grammar

/-- An option that still waits for arguments. -/
structure Waiting where
  rule : OptionRule
  /-- How many arguments are missing. -/
  missing : Nat
  accepts : String → Bool
  taken : List String

/-- How far the arguments were read. -/
structure Reading where
  /-- How many places have no argument yet. -/
  free : Nat
  waiting : Option Waiting := none
  /-- Whether the argument before went to a place. -/
  placed : Bool := false
  /-- Whether two dashes belong to the next argument. -/
  guarded : Bool := false
  /-- Whether there was an argument that nothing takes. -/
  stray : Bool := false
  done : Arguments := {}

namespace Reading

def addOption (s : Reading) (name : String) (values : List Argument) : Reading :=
  { s with done := { s.done with options := s.done.options ++ [(name, values)] } }

/-- Gives an argument to the option that waits for it. -/
def feed (s : Reading) (w : Waiting) (text : String) : Except Stop Reading :=
  let taken := w.taken ++ [text]
  if !w.accepts text then .error .misuse
  else if w.missing ≤ 1 then
    .ok ({ s with waiting := none }.addOption w.rule.name (taken.map some))
  else .ok { s with waiting := some { w with missing := w.missing - 1, taken } }

/-- Gives an argument to the next place. Two dashes stand for nothing unless other ones guard
them. -/
def place (s : Reading) (text : String) : Reading :=
  if s.free = 0 then { s with stray := true, placed := false }
  else
    let argument := if text = dashes && !s.guarded then none else some text
    { s with
      free := s.free - 1, placed := true, guarded := false
      done := { s.done with places := s.done.places ++ [argument] } }

/-- What becomes of characters that are joined to a short option for help: all of them have to be
short options too. -/
def stopAt (g : Grammar) (cs : List Char) : Stop :=
  if cs.all fun c => (g.rule? (String.ofList ['-', c])).isSome then .help else .misuse

/-- Takes an option. Two dashes as a joined value give it nothing. -/
def takeOption (g : Grammar) (s : Reading) (rule : OptionRule) (joined : Joined) :
    Except Stop Reading :=
  let s := { s with placed := false }
  match rule.role, joined with
  | .help, .nothing => .error .help
  | .help, .letters cs => .error (stopAt g cs)
  | .help, .value text =>
    .error (
      if text = "" || dashes.toList.isPrefixOf rule.name.toList then .misuse
      else stopAt g text.toList)
  | .takes 0 _, .nothing => .ok (s.addOption rule.name [])
  | .takes (n + 1) accepts, .nothing =>
    .ok { s with waiting := some { rule, missing := n + 1, accepts, taken := [] } }
  | .takes 1 accepts, .value text =>
    if text = dashes then .ok (s.addOption rule.name [none])
    else if accepts text then .ok (s.addOption rule.name [some text])
    else .error .misuse
  | .takes _ _, _ => .error .misuse

/-- Takes the next argument. An option that waits takes plain arguments only. -/
def step (g : Grammar) (s : Reading) (role : Role) : Except Stop Reading :=
  match s.waiting, role with
  | some w, .plain text => s.feed w text
  | some _, _ => .error .misuse
  | none, .plain text => .ok (s.place text)
  | none, .separator =>
    if s.placed then .ok { s with placed := false }
    else if s.free = 0 then .ok { s with stray := true }
    else .ok { s with guarded := true }
  | none, .option rule joined => takeOption g s rule joined
  | none, .unknown => .ok { s with placed := false, stray := true }

/-- Whether nothing is missing and nothing is left over. -/
def isComplete (s : Reading) : Bool := s.waiting.isNone && s.free = 0 && !s.stray

end Reading

/-- Cuts arguments at the first plain one, which names a command. Options before it take no
arguments; whether there was one that nothing takes comes with the cut. -/
def Grammar.cutCommand (g : Grammar) (stray : Bool) :
    List String → Except Stop (String × List String × Bool)
  | [] => .error .misuse
  | text :: rest => do
    if text = dashes then throw .misuse
    match ← g.classify text with
    | .plain name => return (name, rest, stray)
    | .option rule joined =>
      let s ← Reading.takeOption g { free := 0, stray } rule joined
      if s.waiting.isSome then throw .misuse
      g.cutCommand s.stray rest
    | .separator => throw .misuse
    | .unknown => g.cutCommand true rest

/-- Reads the arguments of a command. -/
def Grammar.read (g : Grammar) (arguments : List String) : Except Stop Arguments := do
  let s ← (← g.classifyAll arguments).foldlM (Reading.step g) { free := g.places }
  if s.isComplete then return s.done else throw .misuse

namespace Arguments

/-- What stands at a place. -/
def atPlace (a : Arguments) (i : Nat) : Argument := (a.places[i]?).join

def has (a : Arguments) (name : String) : Bool := a.options.any (·.1 = name)

/-- What all options of a name were given, in order. -/
def allOf (a : Arguments) (name : String) : List Argument :=
  a.options.flatMap fun o => if o.1 = name then o.2 else []

/-- What the last option of a name was given. -/
def lastOf? (a : Arguments) (name : String) : Option (List Argument) :=
  (a.options.reverse.find? (·.1 = name)).map (·.2)

end Arguments

end EntityRules.CommandLine
