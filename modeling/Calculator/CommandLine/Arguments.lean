/-
This file reads the arguments of the command line.
-/

import Calculator.Decimal.Numeral
import Calculator.Settings

namespace Calculator.CommandLine

/-- These options have a value. -/
inductive Setting where
  | angle
  | format
  | settings
  | answer
  deriving DecidableEq

inductive Name where
  | setting (setting : Setting)
  | json
  | steps
  | help
  deriving DecidableEq

inductive Subcommand where
  | evaluate
  | converse
  deriving DecidableEq

/-- Each option is given at most once. -/
structure Options where
  expression : Option String := none
  angle : Option AngleUnit := none
  format : Option DisplayMode := none
  settings : Option String := none
  answer : Option Float := none
  json : Bool := false
  steps : Bool := false

/-- An argument is read after an option that needs a value, after the end of the options, or
otherwise. -/
inductive Mode where
  | free
  | awaiting (setting : Setting)
  | positional

/-- The arguments are refused, or one of them asks for the help or the version and nothing else
is done. -/
inductive Stop where
  | refused
  | inquiry
  deriving DecidableEq

def orRefuse {A : Type} : Option A → Except Stop A
  | some value => .ok value
  | none => .error .refused

def angle? : String → Option AngleUnit
  | "deg" => some .degree
  | "rad" => some .radian
  | "gra" => some .gradian
  | _ => none

def format? : String → Option DisplayMode
  | "norm" => some .normal
  | "sci" => some .scientific
  | _ => none

/-- A conversation has no option for one expression. -/
def Subcommand.option? (subcommand : Subcommand) (name : String) : Option Name :=
  match name, subcommand with
  | "--angle", _ => some (.setting .angle)
  | "--format", _ => some (.setting .format)
  | "--reglages", _ => some (.setting .settings)
  | "--ans", .evaluate => some (.setting .answer)
  | "--json", .evaluate => some .json
  | "--demarche", .evaluate => some .steps
  | "--help", _ => some .help
  | _, _ => none

namespace Options

def assign (options : Options) (setting : Setting) (value : String) : Option Options :=
  match setting with
  | .angle =>
    if options.angle.isSome then none
    else (angle? value).map fun angle => { options with angle := some angle }
  | .format =>
    if options.format.isSome then none
    else (format? value).map fun format => { options with format := some format }
  | .settings =>
    if options.settings.isSome || value.isEmpty then none
    else some { options with settings := some value }
  | .answer =>
    if options.answer.isSome then none
    else (Numeral.float? value).map fun answer => { options with answer := some answer }

/-- Only an evaluation has an expression. -/
def lacksExpression (options : Options) (subcommand : Subcommand) : Bool :=
  subcommand = .evaluate && options.expression.isNone

def place (options : Options) (subcommand : Subcommand) (expression : String) : Option Options :=
  if options.lacksExpression subcommand then some { options with expression := some expression }
  else none

/-- A flag takes no value. -/
def raise (options : Options) (name : Name) (value : Option String) :
    Except Stop (Options × Mode) :=
  match name, value with
  | .setting setting, some value => (orRefuse (options.assign setting value)).map (·, .free)
  | .setting setting, none => .ok (options, .awaiting setting)
  | .json, none =>
    if options.json then .error .refused else .ok ({ options with json := true }, .free)
  | .steps, none =>
    if options.steps then .error .refused else .ok ({ options with steps := true }, .free)
  | .help, none => .error .inquiry
  | _, some _ => .error .refused

end Options

/-- An equals sign separates the name of an option from its value. -/
def split (argument : String) : String × Option String :=
  let chars := argument.toList
  let name := String.ofList (chars.takeWhile (· != '='))
  match chars.dropWhile (· != '=') with
  | _ :: value => (name, some (String.ofList value))
  | [] => (name, none)

def looksLikeOption (argument : String) : Bool :=
  match argument.toList with
  | '-' :: _ :: _ => true
  | _ => false

/-- The letter after one hyphen asks for help. An argument that may be the expression asks for it
only when it has no other letter. -/
def asksHelp (mayBeExpression : Bool) (argument : String) : Bool :=
  match argument.toList with
  | '-' :: 'h' :: rest => !mayBeExpression || rest.all (· == 'h')
  | _ => false

def recognize? (subcommand : Subcommand) (mayBeExpression : Bool) (argument : String) :
    Option (Name × Option String) :=
  if asksHelp mayBeExpression argument then some (.help, none)
  else
    let (name, value) := split argument
    (subcommand.option? name).map (·, value)

/-- A plain argument is the value that an option awaits, or the expression. -/
def plain (subcommand : Subcommand) (options : Options) (mode : Mode) (argument : String) :
    Except Stop (Options × Mode) :=
  match mode with
  | .awaiting setting => (orRefuse (options.assign setting argument)).map (·, .free)
  | mode => (orRefuse (options.place subcommand argument)).map (·, mode)

/-- An unknown option is a plain argument while the expression may still come. -/
def readFree (subcommand : Subcommand) (options : Options) (mode : Mode) (argument : String) :
    Except Stop (Options × Mode) :=
  let mayBeExpression := options.lacksExpression subcommand
  match recognize? subcommand mayBeExpression argument, mode with
  | some (name, value), .free => options.raise name value
  | some _, _ => .error .refused
  | none, mode =>
    if looksLikeOption argument && !mayBeExpression then .error .refused
    else plain subcommand options mode argument

/-- The value of the answer may be any argument, and after a double hyphen every argument is
positional. -/
def readArgument (subcommand : Subcommand) (state : Options × Mode) (argument : String) :
    Except Stop (Options × Mode) :=
  let (options, mode) := state
  match mode with
  | .positional => plain subcommand options .positional argument
  | .awaiting .answer => plain subcommand options mode argument
  | .awaiting _ =>
    if argument = "--" then .error .refused else readFree subcommand options mode argument
  | .free =>
    if argument = "--" then .ok (options, .positional)
    else readFree subcommand options mode argument

inductive Action where
  | evaluate (expression : String) (answer : Float) (json steps : Bool)
  | converse

/-- An option overrides the settings file. -/
structure Invocation where
  action : Action
  angle : Option AngleUnit
  format : Option DisplayMode
  settings : Option String

namespace Invocation

def ofOptions? (subcommand : Subcommand) (options : Options) : Option Invocation :=
  match subcommand, options.expression with
  | .evaluate, some expression =>
    let answer := options.answer.getD 0
    some ⟨.evaluate expression answer options.json options.steps, options.angle, options.format,
      options.settings⟩
  | .evaluate, none => none
  | .converse, _ => some ⟨.converse, options.angle, options.format, options.settings⟩

def ofSubcommand (subcommand : Subcommand) (arguments : List String) : Except Stop Invocation :=
  match arguments.foldlM (readArgument subcommand) ({}, .free) with
  | .ok (_, .awaiting _) => .error .refused
  | .ok (options, _) => orRefuse (ofOptions? subcommand options)
  | .error stop => .error stop

/-- The help of one subcommand may be asked for by its name. -/
def ofHelp : List String → Stop
  | [] | ["evaluate"] | ["repl"] | ["help"] => .inquiry
  | _ => .refused

/-- An option before the subcommand can only be an inquiry. -/
def ofOption (argument : String) : Stop :=
  match argument.toList with
  | '-' :: 'h' :: _ | '-' :: 'V' :: _ => .inquiry
  | _ => if argument = "--help" || argument = "--version" then .inquiry else .refused

/-- The first argument names the subcommand. -/
def ofArguments : List String → Except Stop Invocation
  | "evaluate" :: arguments => ofSubcommand .evaluate arguments
  | "repl" :: arguments => ofSubcommand .converse arguments
  | "help" :: names => .error (ofHelp names)
  | argument :: _ => .error (ofOption argument)
  | [] => .error .refused

end Invocation

end Calculator.CommandLine
