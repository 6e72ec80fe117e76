import LittleMan.Text.Digit
import LittleMan.Text.Quoted

/-! The options of the command line. Long options may be cut short where that leaves one meaning; a
value may follow an equals sign, and the letter of a short option. After `--` nothing is an option. -/

namespace LittleMan

inductive Flag where
  | help
  | lsp
  | stdio
  | lspDebug
  | listTemplates
  | template
  | noHints
  deriving DecidableEq, Repr

namespace Flag

def spellings : List (String × Flag) :=
  [("-h", help), ("--help", help), ("--lsp", lsp), ("--stdio", stdio), ("--lsp-debug", lspDebug),
    ("--list-templates", listTemplates), ("--template", template), ("-t", template),
    ("--no-hints", noHints)]

def takesValue : Flag → Bool
  | lspDebug | template => true
  | _ => false

def name (f : Flag) : String :=
  String.intercalate "/" ((spellings.filter fun s => s.2 = f).map (·.1))

def ofSpelling? (s : String) : Option Flag := spellings.lookup s

end Flag

structure Options where
  lsp : Bool := false
  stdio : Bool := false
  lspDebug : Option String := none
  listTemplates : Bool := false
  template : Option String := none
  noHints : Bool := false
  infiles : List String := []
  deriving DecidableEq, Repr

/-- What is written together with an option: nothing, what follows an equals sign after its name, or
what follows its letter, with or without an equals sign. -/
inductive Attached where
  | none
  | toName (value : String)
  | toLetter (rest : String)
  deriving DecidableEq, Repr

inductive Argument where
  | word (s : String)
  | separator
  | option (flag : Flag) (attached : Attached)
  | unknown (s : String)
  deriving DecidableEq, Repr

namespace Argument

def isOption : Argument → Bool
  | option .. | unknown _ => true
  | _ => false

def text : Argument → String
  | word s | unknown s => s
  | separator => "--"
  | option f .. => f.name

def splitEquals (s : List Char) : List Char × Option (List Char) :=
  match s.dropWhile (· != '=') with
  | [] => (s, none)
  | _ :: value => (s.takeWhile (· != '='), some value)

/-- A minus sign and a decimal number, which is no option. A line feed may follow. -/
def isNegativeNumber (s : List Char) : Bool :=
  match s with
  | '-' :: rest =>
    let rest := if rest.getLast? = some '\n' then rest.dropLast else rest
    let fraction := rest.dropWhile fun c : Char => isDecimalDigit c
    match fraction with
    | [] => !rest.isEmpty
    | '.' :: digits => !digits.isEmpty && digits.all fun c : Char => isDecimalDigit c
    | _ => false
  | _ => false

/-- The spellings that an argument may be short for, with what is attached to it. -/
def candidates (s : List Char) : List (String × Flag × Attached) :=
  match s with
  | '-' :: '-' :: _ =>
    let (name, value) := splitEquals s
    let attached := match value with
      | some v => Attached.toName (String.ofList v)
      | none => .none
    Flag.spellings.filterMap fun (spelling, flag) =>
      if name.isPrefixOf spelling.toList then some (spelling, flag, attached) else none
  | '-' :: c :: rest =>
    Flag.spellings.filterMap fun (spelling, flag) =>
      if spelling.toList = ['-', c] then some (spelling, flag, .toLetter (String.ofList rest))
      else none
  | _ => []

/-- The option that an argument is exactly, or is before its first equals sign. -/
def exactly? (cs : List Char) : Option Argument :=
  match Flag.ofSpelling? (String.ofList cs), splitEquals cs with
  | some flag, _ => some (option flag .none)
  | none, (name, some value) =>
    let attached := if name.length = 2 then Attached.toLetter else Attached.toName
    (Flag.ofSpelling? (String.ofList name)).map (option · (attached (String.ofList value)))
  | none, (_, none) => none

/-- What an argument before `--` is, or why it cannot be told. -/
def classify (s : String) : Except String Argument :=
  let cs := s.toList
  if cs.head? ≠ some '-' ∨ cs.length = 1 then .ok (word s)
  else
    match exactly? cs with
    | some a => .ok a
    | none =>
      match candidates cs with
      | [(_, flag, attached)] => .ok (option flag attached)
      | [] => .ok (if isNegativeNumber cs || cs.contains ' ' then word s else unknown s)
      | many =>
        .error ("ambiguous option: " ++ s ++ " could match " ++
          String.intercalate ", " (many.map (·.1)))

def classifyAll : List String → Except String (List Argument)
  | [] => .ok []
  | s :: rest =>
    if s = "--" then .ok (separator :: rest.map word)
    else do
      let a ← classify s
      let as ← classifyAll rest
      return a :: as

end Argument

inductive Reading where
  | options (o : Options)
  | help
  | refused (message : Text)
  deriving DecidableEq, Repr

namespace Options

def set (o : Options) : Flag → String → Options
  | .help, _ => o
  | .lsp, _ => { o with lsp := true }
  | .stdio, _ => { o with stdio := true }
  | .lspDebug, v => { o with lspDebug := some v }
  | .listTemplates, _ => { o with listTemplates := true }
  | .template, v => { o with template := some v }
  | .noHints, _ => { o with noHints := true }

inductive Step where
  /-- It is set to a value, and the rest of the arguments is still to be read. -/
  | set (flag : Flag) (value : String) (rest : List Argument)
  | help
  | refused (message : Text)
  deriving DecidableEq, Repr

def argumentError (flag : Flag) (message : Text) : Step :=
  .refused ("argument " ++ flag.name ++ ": " ++ message)

def ignoredValue (flag : Flag) (value : String) : Step :=
  argumentError flag ("ignored explicit argument " ++ quoted (Text.toList value))

/-- An option without a value attached takes the next argument for its value, if it needs one. -/
def alone (flag : Flag) (rest : List Argument) : Step :=
  if flag.takesValue then
    match rest with
    | .word v :: rest => .set flag v rest
    | _ => argumentError flag "expected one argument"
  else if flag = .help then .help
  else .set flag "" rest

/-- The letters after `-h` are options of their own. Help is given once all of them are understood. -/
def letters (rest : List Argument) : List Char → Step
  | [] => ignoredValue .help ""
  | c :: more =>
    match Flag.ofSpelling? (String.ofList ['-', c]), more with
    | none, _ => ignoredValue .help (String.ofList (c :: more))
    | some .help, [] => .help
    | some .help, _ => letters rest more
    | some flag, [] =>
      match alone flag rest with
      | .refused m => .refused m
      | _ => .help
    | some _, _ => .help

/-- What an option comes to with what is attached to it. A value `--` counts as none. -/
def step (flag : Flag) (attached : Attached) (rest : List Argument) : Step :=
  match attached, flag.takesValue with
  | .none, _ => alone flag rest
  | .toName v, true | .toLetter v, true => .set flag (if v = "--" then "" else v) rest
  | .toName v, false => ignoredValue flag v
  | .toLetter v, false => letters rest v.toList

/-- Words up to the next option. Only the first `--` is dropped from them. -/
def words (run : List Argument) : List String := (run.map (·.text)).erase "--"

/-- Reads classified arguments. The files are the first words that stand together; others, and options
that do not exist, are left over. -/
def read (fuel : Nat) (o : Options) (files : Option (List String)) (extras : List String)
    (args : List Argument) : Reading :=
  match fuel with
  | 0 => .refused ""
  | fuel + 1 =>
    match args with
    | [] =>
      if extras.isEmpty then .options { o with infiles := files.getD [] }
      else .refused ("unrecognized arguments: " ++ String.intercalate " " extras)
    | .unknown s :: rest => read fuel o files (extras ++ [s]) rest
    | .option flag attached :: rest =>
      match step flag attached rest with
      | .help => .help
      | .refused m => .refused m
      | .set flag v rest => read fuel (o.set flag v) files extras rest
    | _ =>
      let run := args.takeWhile (!·.isOption)
      let rest := args.dropWhile (!·.isOption)
      match files with
      | none => read fuel o (some (words run)) extras rest
      | some _ => read fuel o files (extras ++ run.map (·.text)) rest

/-- What a command line comes to. Every step uses up an argument. -/
def ofArguments (argv : List String) : Reading :=
  match Argument.classifyAll argv with
  | .error message => .refused message
  | .ok args => read (args.length + 1) {} none [] args

end Options

end LittleMan
