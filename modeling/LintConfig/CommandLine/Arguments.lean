import LintConfig.Schema

/-!
# Command line arguments

A command line names a command and then, in any order, the options and operands of the command.
An option is long or short; its value follows it, either after an equals sign or as the next
argument.  After `--` every argument is an operand.
-/

namespace LintConfig.CommandLine

/-- The files that a configuration is inspected with. -/
structure Setup where
  config : String := ".eslintrc.json"
  plugins : List String := []
  options : Option String := none
deriving DecidableEq, Repr

/-- What the program is asked to do. -/
inductive Command where
  /-- Writes one schema to a file. -/
  | schema (kind : Schema.Kind) (output : String)
  /-- Writes every schema into a directory. -/
  | schemaAll (directory : String)
  /-- Prints the configuration of a path. -/
  | printConfig (setup : Setup) (path : String)
  /-- Checks a configuration. -/
  | validate (setup : Setup)
deriving DecidableEq, Repr

/-- Why a command line asks for no command. -/
inductive Stop where
  /-- It cannot be understood. -/
  | usage
  | help
  | version
deriving DecidableEq, Repr

/-! ### Options and operands -/

/-- An option; every option takes a value. -/
structure OptionForm where
  long : String
  short : Option Char
  /-- Whether the option may be given more than once. -/
  repeatable : Bool

/-- The options and operands that a command takes. -/
structure Form where
  options : List OptionForm
  /-- For each operand, which texts it may be. -/
  operands : List (String → Bool)

/-- What was given for a command. -/
structure Given where
  /-- The values of options, under their long names, in order. -/
  values : List (String × String) := []
  operands : List String := []
deriving Repr

namespace Given

/-- The values of an option, in order. -/
def all (g : Given) (long : String) : List String :=
  (g.values.filter fun v => v.1 == long).map Prod.snd

/-- The value of an option that is given once at most. -/
def value? (g : Given) (long : String) : Option String := (g.all long).head?

end Given

/-- Whether an argument is an option by its form; a single dash is none. -/
def isOption (arg : String) : Bool := arg.startsWith "-" && arg != "-"

/-- Adds the value of an option. -/
def addValue (o : OptionForm) (value : String) (g : Given) : Except Stop Given :=
  if value.isEmpty then .error .usage
  else if !o.repeatable && (g.value? o.long).isSome then .error .usage
  else .ok { g with values := g.values ++ [(o.long, value)] }

/-- Adds an operand. -/
def addOperand (form : Form) (arg : String) (g : Given) : Except Stop Given :=
  match form.operands[g.operands.length]? with
  | some accepts =>
    if accepts arg then .ok { g with operands := g.operands ++ [arg] } else .error .usage
  | none => .error .usage

/-- What an argument is. -/
inductive Argument where
  /-- An option with its value. -/
  | valued (o : OptionForm) (value : String)
  /-- An option whose value is the next argument. -/
  | awaiting (o : OptionForm)
  | operand
  /-- The end of the options. -/
  | separator
  | stop (s : Stop)

/-- The text after an equals sign at its start, or else the text itself. -/
def afterEquals : List Char → List Char
  | '=' :: cs => cs
  | cs => cs

/-- What a long option is, without its dashes. -/
def longArgument (form : Form) (cs : List Char) : Argument :=
  let name := String.ofList (cs.takeWhile (· != '='))
  let value := cs.dropWhile (· != '=')
  if name = "help" then .stop (if value.isEmpty then .help else .usage)
  else match form.options.find? fun o => o.long == name with
    | none => .stop .usage
    | some o =>
      if value.isEmpty then .awaiting o else .valued o (String.ofList (afterEquals value))

/-- What a short option is, from its letter and what follows it. -/
def shortArgument (form : Form) (letter : Char) (rest : List Char) : Argument :=
  if letter = 'h' then .stop .help
  else match form.options.find? fun o => o.short == some letter with
    | none => .stop .usage
    | some o =>
      if rest.isEmpty then .awaiting o else .valued o (String.ofList (afterEquals rest))

/-- What an argument is. -/
def classify (form : Form) (arg : String) : Argument :=
  match arg.toList with
  | ['-', '-'] => .separator
  | '-' :: '-' :: cs => longArgument form cs
  | '-' :: letter :: rest => shortArgument form letter rest
  | _ => .operand

/-- Reads operands only. -/
def readOperands (form : Form) : Given → List String → Except Stop Given
  | g, [] => .ok g
  | g, arg :: args => do readOperands form (← addOperand form arg g) args

/-- Reads options and operands. -/
def readArguments (form : Form) : Given → List String → Except Stop Given
  | g, [] => .ok g
  | g, arg :: args =>
    match classify form arg with
    | .stop s => .error s
    | .separator => readOperands form g args
    | .operand => do readArguments form (← addOperand form arg g) args
    | .valued o value => do readArguments form (← addValue o value g) args
    | .awaiting o =>
      match args with
      | [] => .error .usage
      | value :: args =>
        if isOption value then .error .usage
        else do readArguments form (← addValue o value g) args

/-! ### Commands -/

/-- The options that say how a configuration is inspected. -/
def setupOptions : List OptionForm :=
  [⟨"config", some 'c', false⟩, ⟨"plugin", some 'p', true⟩, ⟨"options", none, false⟩]

/-- The setup that was given. -/
def Given.setup (g : Given) : Setup where
  config := (g.value? "config").getD ".eslintrc.json"
  plugins := g.all "plugin"
  options := g.value? "options"

/-- Whether an operand is not empty. -/
def isPath (arg : String) : Bool := !arg.isEmpty

/-- The names of the commands. -/
def commandNames : List String := ["schema", "schema-all", "print-config", "validate"]

/-- Reads the arguments of a command by its name. -/
def readCommand (name : String) (args : List String) : Except Stop Command :=
  match name with
  | "schema" => do
    let form : Form :=
      ⟨[⟨"output", some 'o', false⟩], [fun arg => (Schema.Kind.ofWord? arg).isSome]⟩
    let g ← readArguments form {} args
    let kind := (g.operands.head?.bind Schema.Kind.ofWord?).getD .config
    return .schema kind ((g.value? "output").getD "docs/schema/config.json")
  | "schema-all" => do
    let g ← readArguments ⟨[⟨"output-dir", some 'o', false⟩], []⟩ {} args
    return .schemaAll ((g.value? "output-dir").getD "docs/schema")
  | "print-config" => do
    let g ← readArguments ⟨setupOptions, [isPath]⟩ {} args
    match g.operands with
    | path :: _ => return .printConfig g.setup path
    | [] => .error .usage
  | "validate" => do
    let g ← readArguments ⟨setupOptions, []⟩ {} args
    return .validate g.setup
  | _ => .error .usage

/-- Reads a command line. -/
def read (args : List String) : Except Stop Command :=
  match args with
  | [] => .error .usage
  | "help" :: [] => .error .help
  | "help" :: name :: _ =>
    .error (if commandNames.contains name || name == "help" then .help else .usage)
  | name :: rest =>
    match name.toList with
    | '-' :: 'h' :: _ => .error .help
    | '-' :: 'V' :: _ => .error .version
    | _ =>
      if name = "--help" then .error .help
      else if name = "--version" then .error .version
      else readCommand name rest

end LintConfig.CommandLine
