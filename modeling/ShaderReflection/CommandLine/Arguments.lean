import ShaderReflection.Text.Digit
import ShaderReflection.Text.Quoted

/-!
# Arguments

The options of the command line, how they are read, and what is said about wrong usage. Long
options may be shortened as long as they stay unique, a value may be joined to its option, and
behind `--` nothing is an option.
-/

namespace ShaderReflection.CommandLine

open ShaderReflection.Text

/-! ## Options -/

/-- The options. Only the output directory takes a value. -/
inductive Flag where
  | help | outputDirectory | standardOutput | dumpTree | version
deriving DecidableEq, Repr

namespace Flag

def spellings : Flag → List String
  | help => ["-h", "--help"]
  | outputDirectory => ["-o", "--output-dir"]
  | standardOutput => ["--stdout"]
  | dumpTree => ["--dump-tree"]
  | version => ["--version"]

def all : List Flag := [help, outputDirectory, standardOutput, dumpTree, version]

def table : List (String × Flag) :=
  all.flatMap fun flag => flag.spellings.map fun spelling => (spelling, flag)

def ofSpelling? (text : String) : Option Flag := table.lookup text

def title (flag : Flag) : String := "/".intercalate flag.spellings

end Flag

/-- Why arguments cannot be used. -/
inductive UsageError where
  | ambiguous (argument : String) (candidates : List String)
  | ignoredValue (flag : Flag) (value : String)
  | missingValue (flag : Flag)
  | unrecognized (arguments : List String)
deriving DecidableEq, Repr

def UsageError.message : UsageError → String
  | ambiguous argument candidates =>
      let listed := ", ".intercalate candidates
      s!"ambiguous option: {argument} could match {listed}"
  | ignoredValue flag value =>
      let title := flag.title
      let quoted := Quoted.ofString value
      s!"argument {title}: ignored explicit argument {quoted}"
  | missingValue flag =>
      let title := flag.title
      s!"argument {title}: expected one argument"
  | unrecognized arguments =>
      let listed := " ".intercalate arguments
      s!"unrecognized arguments: {listed}"

/-! ## Single arguments -/

/-- A value in the same argument as its option: assigned to a long option by an equals sign, or
joined to a short option, with or without an equals sign between them. -/
inductive Attached where
  | assigned (value : String)
  | joined (value : String)
deriving DecidableEq, Repr

def Attached.behind (option value : List Char) : Attached :=
  match option with
  | '-' :: '-' :: _ => .assigned (String.ofList value)
  | _ => .joined (String.ofList value)

/-- What an argument in front of `--` is. -/
inductive Argument where
  | plain (text : String)
  | option (flag : Flag) (attached : Option Attached)
  | unknown (text : String)
deriving DecidableEq, Repr

/-- The text in front of the first equals sign, and the text behind it if there is one. -/
def splitValue (text : List Char) : List Char × Option (List Char) :=
  let front := text.takeWhile (· != '=')
  match text.drop front.length with
  | [] => (front, none)
  | _ :: value => (front, some value)

/-- A hyphen with digits, possibly with a point among or before them; a line feed may end it. -/
def isNegativeNumber (text : List Char) : Bool :=
  let isDigit := fun char => (decimalValue? char).isSome
  let isEnd := fun rest => rest == [] || rest == ['\n']
  match text with
  | '-' :: rest =>
      let whole := rest.takeWhile isDigit
      match rest.drop whole.length with
      | '.' :: fraction =>
          let places := fraction.takeWhile isDigit
          !places.isEmpty && isEnd (fraction.drop places.length)
      | final => !whole.isEmpty && isEnd final
  | _ => false

def longOptions (front : List Char) : List (String × Flag) :=
  Flag.table.filter fun entry => front.isPrefixOf entry.1.toList

/-- What an argument is that begins with a hyphen and is no option in full. -/
def classifyPartial (text : List Char) : Except UsageError Argument :=
  let spelling := String.ofList text
  let other : Argument :=
    if isNegativeNumber text || text.contains ' ' then .plain spelling else .unknown spelling
  match text with
  | '-' :: '-' :: _ =>
      let (front, value) := splitValue text
      match longOptions front with
      | [] => .ok other
      | [(_, flag)] => .ok (.option flag (value.map (Attached.behind front)))
      | candidates => .error (.ambiguous spelling (candidates.map Prod.fst))
  | _ =>
      match Flag.ofSpelling? (String.ofList (text.take 2)) with
      | some flag => .ok (.option flag (some (.joined (String.ofList (text.drop 2)))))
      | none => .ok other

/-- What an argument in front of `--` is. -/
def classify (argument : String) : Except UsageError Argument :=
  match argument.toList with
  | '-' :: rest =>
      match Flag.ofSpelling? argument with
      | some flag => .ok (.option flag none)
      | none =>
          if rest.isEmpty then .ok (.plain argument)
          else
            let (front, value) := splitValue ('-' :: rest)
            match Flag.ofSpelling? (String.ofList front), value with
            | some flag, some text => .ok (.option flag (some (Attached.behind front text)))
            | _, _ => classifyPartial ('-' :: rest)
  | _ => .ok (.plain argument)

/-! ## All arguments -/

/-- What the command line asks for in a run. -/
structure Options where
  input : Option String
  outputDirectory : Option String
  standardOutput : Bool
  dumpTree : Bool
deriving DecidableEq, Repr

/-- What the command line asks for. -/
inductive Request where
  | help
  | version
  | run (options : Options)
deriving DecidableEq, Repr

/-- The arguments read so far: what they ask for, those that are left over, and whether the last
one was the input. -/
structure Reading where
  options : Options
  extras : List String
  inputIsLast : Bool

/-- Short options behind `-h` in one argument. All of them lead to the help text, unless the output
directory lacks its value. What is not a short option would be a value, which `-h` does not take. -/
def readCluster (followed : Bool) : List Char → Except UsageError Request
  | [] => .ok .help
  | 'h' :: rest => readCluster followed rest
  | ['o'] => if followed then .ok .help else .error (.missingValue .outputDirectory)
  | 'o' :: _ => .ok .help
  | rest => .error (.ignoredValue .help (String.ofList rest))

/-- The output directory that an attached value gives. Two hyphens give none: they only mark where
options end. -/
def attachedDirectory (value : String) : Option String :=
  if value = "--" then none else some value

def startsPlain : List Argument → Bool
  | .plain _ :: _ => true
  | _ => false

/-- Read classified arguments one after the other. The help text and the version end the reading
at once. -/
def readAll : List Argument → Reading → Except UsageError (Request ⊕ Reading)
  | [], reading => .ok (.inr reading)
  | .plain text :: rest, reading =>
      match reading.options.input with
      | none =>
          readAll rest
            { reading with options := { reading.options with input := some text },
                           inputIsLast := true }
      | some _ =>
          readAll rest { reading with extras := reading.extras ++ [text], inputIsLast := false }
  | .unknown text :: rest, reading =>
      readAll rest { reading with extras := reading.extras ++ [text], inputIsLast := false }
  | .option .help none :: _, _ => .ok (.inl .help)
  | .option .help (some (.assigned value)) :: _, _ => .error (.ignoredValue .help value)
  | .option .help (some (.joined value)) :: rest, _ =>
      if value = "" then .error (.ignoredValue .help value)
      else (readCluster (startsPlain rest) value.toList).map .inl
  | .option .outputDirectory none :: .plain value :: rest, reading =>
      readAll rest
        { reading with options := { reading.options with outputDirectory := some value },
                       inputIsLast := false }
  | .option .outputDirectory none :: _, _ => .error (.missingValue .outputDirectory)
  | .option .outputDirectory (some (.assigned value)) :: rest, reading
  | .option .outputDirectory (some (.joined value)) :: rest, reading =>
      let outputDirectory := attachedDirectory value
      readAll rest
        { reading with options := { reading.options with outputDirectory },
                       inputIsLast := false }
  | .option .standardOutput none :: rest, reading =>
      readAll rest
        { reading with options := { reading.options with standardOutput := true },
                       inputIsLast := false }
  | .option .dumpTree none :: rest, reading =>
      readAll rest
        { reading with options := { reading.options with dumpTree := true },
                       inputIsLast := false }
  | .option .version none :: _, _ => .ok (.inl .version)
  | .option flag (some (.assigned value)) :: _, _
  | .option flag (some (.joined value)) :: _, _ => .error (.ignoredValue flag value)

/-- Take in what stands behind `--`. The mark itself is left over if the input has been given
before and other arguments stand between. -/
def takeRest (reading : Reading) (rest : List String) : Reading :=
  match reading.options.input, rest with
  | none, [] => reading
  | none, text :: extras =>
      { reading with options := { reading.options with input := some text },
                     extras := reading.extras ++ extras }
  | some _, _ =>
      if reading.inputIsLast then { reading with extras := reading.extras ++ rest }
      else { reading with extras := reading.extras ++ "--" :: rest }

def readArguments (arguments : List String) : Except UsageError Request := do
  let front := arguments.takeWhile (· != "--")
  let classified ← front.mapM classify
  match ← readAll classified ⟨⟨none, none, false, false⟩, [], false⟩ with
  | .inl request => return request
  | .inr reading =>
      let final :=
        match arguments.drop front.length with
        | [] => reading
        | _ :: rest => takeRest reading rest
      if final.extras.isEmpty then return .run final.options
      else throw (.unrecognized final.extras)

/-! ## Texts -/

def usage : String :=
  "usage: wgslr [-h] [-o OUTPUT_DIR] [--stdout] [--dump-tree] [--version] [input]\n"

def help : String := usage ++ "
WGSL reflection: extracts structs, entry points and bindings as JSON

positional arguments:
  input                 Input .wgsl file

options:
  -h, --help            show this help message and exit
  -o OUTPUT_DIR, --output-dir OUTPUT_DIR
                        Output directory (default: same as input file)
  --stdout              Print the reflection JSON instead of writing a file
  --dump-tree           Dump the syntax tree and exit
  --version             show program's version number and exit
"

def version : String := "wgslr 0.1.0\n"

end ShaderReflection.CommandLine
