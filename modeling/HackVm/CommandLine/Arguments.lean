import HackVm.Build.Source
import HackVm.Emitter
import HackVm.Text.Integer
import HackVm.Text.Quoted

/-!
# Command line arguments

* `Flag` : the options, with their spellings;
* `classify` : whether an argument is an option, with a value attached to it or not;
* `Request` : what the arguments ask for;
* `Refusal` : why they are refused, with its wording;
* `parse` : the arguments of a run.
-/

namespace HackVm.CommandLine

/-! ## Options -/

inductive Flag where
  | help
  | output
  | noBootstrap
  | annotate
  | stackBase
  | entry
  | block
  | verbose
deriving DecidableEq, Repr

namespace Flag

def all : List Flag :=
  [.help, .output, .noBootstrap, .annotate, .stackBase, .entry, .block, .verbose]

def spellings : Flag → List String
  | .help => ["-h", "--help"]
  | .output => ["-o", "--output"]
  | .noBootstrap => ["--no-bootstrap"]
  | .annotate => ["--annotate"]
  | .stackBase => ["--stack-base"]
  | .entry => ["--entry"]
  | .block => ["--buf"]
  | .verbose => ["-v", "--verbose"]

def takesValue : Flag → Bool
  | .output | .stackBase | .entry | .block => true
  | .help | .noBootstrap | .annotate | .verbose => false

/-- The option as it is shown in messages. -/
def shown (f : Flag) : String := "/".intercalate f.spellings

def ofSpelling? (s : String) : Option Flag := all.find? fun f => s ∈ f.spellings

def ofLetter? (c : Char) : Option Flag := ofSpelling? ("-" ++ c.toString)

/-- All spellings that start this way, with their options. -/
def abbreviated (start : List Char) : List (String × Flag) :=
  all.flatMap fun f => (f.spellings.filter fun s => start.isPrefixOf s.toList).map fun s => (s, f)

end Flag

inductive Refusal where
  | ambiguous (argument : String) (spellings : List String)
  /-- The option has no value. -/
  | noValue (flag : Flag)
  /-- The option takes no value, but has one. -/
  | unwantedValue (flag : Flag) (value : String)
  | notAnInteger (flag : Flag) (value : String)
  | noInput
  | unrecognized (arguments : List String)
deriving DecidableEq, Repr

def Refusal.message : Refusal → String
  | .ambiguous a ss => "ambiguous option: " ++ a ++ " could match " ++ ", ".intercalate ss
  | .noValue f => "argument " ++ f.shown ++ ": expected one argument"
  | .unwantedValue f v => "argument " ++ f.shown ++ ": ignored explicit argument " ++ Text.quote v
  | .notAnInteger f v => "argument " ++ f.shown ++ ": invalid int value: " ++ Text.quote v
  | .noInput => "the following arguments are required: input"
  | .unrecognized as => "unrecognized arguments: " ++ " ".intercalate as

/-! ## Classification -/

/-- What an option argument holds besides the option. -/
inductive Attached where
  | nothing
  /-- What follows the equals sign after a long option. -/
  | value (v : List Char)
  /-- What follows the letter of a short option, without an equals sign right behind it. -/
  | letters (cs : List Char)
deriving DecidableEq, Repr

inductive Role where
  | plain
  | option (flag : Flag) (attached : Attached)
  /-- Looks like an option, but is none. -/
  | unknown
  /-- The argument `--`, after which all arguments are plain. -/
  | marker
deriving DecidableEq, Repr

/-- A minus sign and a decimal number, perhaps with a newline at the end. -/
def isNegativeNumber (cs : List Char) : Bool :=
  let isDigit c := (Text.digit? c).isSome
  match cs with
  | '-' :: cs =>
    let cs := if cs.getLast? = some '\n' then cs.dropLast else cs
    let whole := cs.takeWhile isDigit
    match cs.dropWhile isDigit with
    | [] => !whole.isEmpty
    | '.' :: fraction => !fraction.isEmpty && fraction.all isDigit
    | _ => false
  | _ => false

/-- The role of an argument that is no spelling of an option: numbers and texts with a blank are
plain, although they start with a minus sign. -/
def classifyOther (cs : List Char) : Role :=
  if isNegativeNumber cs || cs.contains ' ' then .plain else .unknown

/-- What follows the first equals sign of a long option. -/
def attachedValue (cs : List Char) : Attached :=
  match cs.dropWhile (· != '=') with
  | _ :: v => .value v
  | [] => .nothing

/-- The role of an argument before the marker. Long options may be cut short, and a value may
follow an equals sign; after the letter of a short option a value or more letters may follow, also
behind an equals sign. -/
def classify (s : String) : Except Refusal Role :=
  let cs := s.toList
  let spelled := cs.takeWhile (· != '=')
  match cs with
  | [] => .ok .plain
  | c :: cs' =>
    if c != '-' then .ok .plain
    else match Flag.ofSpelling? s with
      | some f => .ok (.option f .nothing)
      | none => match cs' with
        | [] => .ok .plain
        | c' :: letters =>
          if c' = '-' then match Flag.ofSpelling? (String.ofList spelled) with
            | some f => .ok (.option f (attachedValue cs))
            | none => match Flag.abbreviated spelled with
              | [] => .ok (classifyOther cs)
              | [(_, f)] => .ok (.option f (attachedValue cs))
              | several => .error (.ambiguous s (several.map (·.1)))
          else match Flag.ofLetter? c', letters with
            | some f, '=' :: letters => .ok (.option f (.letters letters))
            | some f, letters => .ok (.option f (.letters letters))
            | none, _ => .ok (classifyOther cs)

/-- The argument after which all arguments are plain. -/
def marker : String := "--"

def classifyAll : List String → Except Refusal (List (String × Role))
  | [] => .ok []
  | s :: ss =>
    if s = marker then .ok ((s, .marker) :: ss.map fun s => (s, .plain))
    else do
      let role ← classify s
      return (s, role) :: (← classifyAll ss)

/-! ## Requests -/

structure Request where
  input : Option String := none
  output : Option String := none
  options : Options := {}
  /-- The size of the blocks in which sources are read. -/
  block : Option Int := some Build.defaultBlock
  verbose : Bool := false
deriving DecidableEq, Repr

inductive Outcome where
  | proceed (input : String) (request : Request)
  | help
  | refuse (refusal : Refusal)
deriving DecidableEq, Repr

/-- The options of one argument. -/
structure Taken where
  /-- The options in order, each with its value. -/
  flags : List (Flag × Option String) := []
  /-- A last option, whose value is the next argument. -/
  pending : Option Flag := none
deriving DecidableEq, Repr

def takeBare (f : Flag) : Taken :=
  if f.takesValue then { pending := some f } else { flags := [(f, none)] }

def takeValue (f : Flag) (v : List Char) : Except Refusal Taken :=
  if f.takesValue then .ok { flags := [(f, some (String.ofList v))] }
  else .error (.unwantedValue f (String.ofList v))

/-- The option with letters behind its own: its value, or else more options. -/
def takeLetters (f : Flag) : List Char → Except Refusal Taken
  | [] => takeValue f []
  | c :: cs =>
    if f.takesValue then takeValue f (c :: cs)
    else match Flag.ofLetter? c with
      | none => .error (.unwantedValue f (String.ofList (c :: cs)))
      | some g => do
        let t ← if cs = [] then .ok (takeBare g) else takeLetters g cs
        return { t with flags := (f, none) :: t.flags }

def take (f : Flag) (a : Attached) : Except Refusal Taken :=
  match a with
  | .nothing => .ok (takeBare f)
  | .value v => takeValue f v
  | .letters cs => takeLetters f cs

def integer (f : Flag) (v : String) : Except Refusal Int :=
  match Text.readInteger? v with
  | some n => .ok n
  | none => .error (.notAnInteger f v)

/-- The text of a value that holds nothing. -/
def emptyValue : String := "[]"

/-- The request with an option whose value holds nothing. -/
def Request.setEmpty (r : Request) : Flag → Request
  | .output => { r with output := none }
  | .stackBase => { r with options := { r.options with stackBase := .symbol emptyValue } }
  | .entry => { r with options := { r.options with entry := emptyValue } }
  | .block => { r with block := none }
  | _ => r

/-- The request with an option and its value; none when help is asked for. -/
def Request.setValue (r : Request) (f : Flag) (v : String) : Except Refusal (Option Request) :=
  match f with
  | .help => .ok none
  | .output => .ok (some { r with output := some v })
  | .noBootstrap => .ok (some { r with options := { r.options with bootstrap := false } })
  | .annotate => .ok (some { r with options := { r.options with annotate := true } })
  | .stackBase => (integer f v).map fun n =>
    some { r with options := { r.options with stackBase := .number n } }
  | .entry => .ok (some { r with options := { r.options with entry := v } })
  | .block => (integer f v).map fun n => some { r with block := some n }
  | .verbose => .ok (some { r with verbose := true })

/-- The request with one more option; none when help is asked for. The marker is no value, so an
option with nothing but the marker holds nothing. -/
def Request.set (r : Request) (f : Flag) (value : Option String) : Except Refusal (Option Request) :=
  if value = some marker then .ok (some (r.setEmpty f)) else r.setValue f (value.getD "")

/-- The request with more options, as far as no help is asked for. -/
def Request.setAll (r : Request) : List (Flag × Option String) → Except Refusal (Option Request)
  | [] => .ok (some r)
  | (f, v) :: fs => match r.set f v with
    | .ok (some r) => r.setAll fs
    | other => other

/-- The outcome when all arguments are done and `extras`, last first, have no meaning. -/
def conclude (r : Request) (extras : List String) : Outcome :=
  match r.input with
  | none => .refuse .noInput
  | some input => if extras.isEmpty then .proceed input r else .refuse (.unrecognized extras.reverse)

/-- Goes through the arguments. The first plain one is the input, and a marker next to it belongs to
it; other plain arguments and markers have no meaning. -/
def parseFrom (r : Request) (extras : List String) : List (String × Role) → Outcome
  | [] => conclude r extras
  | (s, .plain) :: rest =>
    if r.input.isSome then parseFrom r (s :: extras) rest
    else match rest with
      | (_, .marker) :: rest => parseFrom { r with input := some s } extras rest
      | rest => parseFrom { r with input := some s } extras rest
  | (s, .marker) :: rest =>
    if r.input.isSome then parseFrom r (s :: extras) rest
    else match rest with
      | (s, _) :: rest => parseFrom { r with input := some s } extras rest
      | [] => conclude r (s :: extras)
  | (s, .unknown) :: rest => parseFrom r (s :: extras) rest
  | (_, .option f a) :: rest => match take f a with
    | .error e => .refuse e
    | .ok t => match t.pending, rest with
      | none, rest => match r.setAll t.flags with
        | .error e => .refuse e
        | .ok none => .help
        | .ok (some r) => parseFrom r extras rest
      | some g, (v, .plain) :: rest => match r.setAll (t.flags ++ [(g, some v)]) with
        | .error e => .refuse e
        | .ok none => .help
        | .ok (some r) => parseFrom r extras rest
      | some g, _ => .refuse (.noValue g)

def parse (arguments : List String) : Outcome :=
  match classifyAll arguments with
  | .error e => .refuse e
  | .ok as => parseFrom {} [] as

end HackVm.CommandLine
