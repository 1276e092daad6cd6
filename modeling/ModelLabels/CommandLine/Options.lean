/-! # Options of the command line

Arguments are read one after the other.  Switches have a long name and most of them a short one; short
names may be joined, a value may be attached to its name or follow it, and behind a bare double dash
everything is text of the template.  Asking for help ends the reading.

* `Options.ofArgs`: what the arguments ask for.
-/

namespace ModelLabels.CommandLine
set_option autoImplicit false

/-- What may be given besides the text of a template. -/
inductive Switch where
  | config
  | object
  | check
  | grammar
  | list
  | verbose
  | help
  deriving Repr, DecidableEq

namespace Switch

/-- All switches. -/
def all : List Switch := [config, object, check, grammar, list, verbose, help]

/-- The name behind two dashes. -/
def longName : Switch → String
  | config => "config"
  | object => "object"
  | check => "check"
  | grammar => "grammar"
  | list => "list"
  | verbose => "verbose"
  | help => "help"

/-- The letter behind one dash. -/
def letter? : Switch → Option Char
  | config => some 'c'
  | object => some 'o'
  | check => none
  | grammar => some 'g'
  | list => some 'l'
  | verbose => some 'v'
  | help => some 'h'

/-- Whether a switch has a value. -/
def takesValue : Switch → Bool
  | config | object => true
  | _ => false

end Switch

/-- Why arguments are not carried out. -/
inductive Refusal where
  /-- The usage was asked for. -/
  | help
  /-- The arguments are not understood. -/
  | misuse
  deriving Repr, DecidableEq

/-- What the command line is asked to do. -/
structure Options where
  template? : Option String
  config? : Option String
  object? : Option String
  check : Bool
  grammar : Bool
  list : Bool
  /-- How often more messages were asked for. -/
  verbosity : Nat
  deriving Repr, DecidableEq

namespace Options

/-- No arguments ask for nothing in particular. -/
def empty : Options := ⟨none, none, none, false, false, false, 0⟩

/-- Turn on a switch without a value; all but `verbose` can be turned on once. -/
def turnOn (o : Options) : Switch → Except Refusal Options
  | .check => if o.check then .error .misuse else .ok { o with check := true }
  | .grammar => if o.grammar then .error .misuse else .ok { o with grammar := true }
  | .list => if o.list then .error .misuse else .ok { o with list := true }
  | .verbose => .ok { o with verbosity := o.verbosity + 1 }
  | .help => .error .help
  | .config | .object => .error .misuse

/-- Give a switch its value, which it can have once. -/
def assign (o : Options) (s : Switch) (value : String) : Except Refusal Options :=
  match s with
  | .config =>
    if o.config?.isSome || value = "" then .error .misuse
    else .ok { o with config? := some value }
  | .object => if o.object?.isSome then .error .misuse else .ok { o with object? := some value }
  | _ => .error .misuse

/-- Take an argument for the text of the template, of which there is one. -/
def addText (o : Options) (text : String) : Except Refusal Options :=
  if o.template?.isSome then .error .misuse else .ok { o with template? := some text }

/-- Options with the switch whose value is still to come. -/
abbrev Pending := Options × Option Switch

/-- Read the letters of joined switches.  What follows the letter of a switch with a value is the
value, with or without an equals sign. -/
def readLetters (o : Options) : List Char → Except Refusal Pending
  | [] => .ok (o, none)
  | c :: cs =>
    match Switch.all.find? (·.letter? = some c) with
    | some s =>
      if s.takesValue then
        match cs with
        | [] => .ok (o, some s)
        | '=' :: value => do return (← o.assign s (String.ofList value), none)
        | value => do return (← o.assign s (String.ofList value), none)
      else do readLetters (← o.turnOn s) cs
    | none => .error .misuse

/-- Read the long name of a switch, with a value behind an equals sign. -/
def readName (o : Options) (cs : List Char) : Except Refusal Pending :=
  let name := String.ofList (cs.takeWhile (· != '='))
  match Switch.all.find? (·.longName = name), cs.dropWhile (· != '=') with
  | some s, _ :: value =>
    if s.takesValue then do return (← o.assign s (String.ofList value), none)
    else .error .misuse
  | some s, [] => if s.takesValue then .ok (o, some s) else do return (← o.turnOn s, none)
  | none, _ => .error .misuse

/-- Whether an argument is read as a switch: it begins with a dash and is more than that. -/
def isSwitch (arg : String) : Bool :=
  match arg.toList with
  | '-' :: _ :: _ => true
  | _ => false

/-- Read one argument that is not the bare double dash. -/
def readArgument (o : Options) (arg : String) : Except Refusal Pending :=
  match arg.toList with
  | '-' :: '-' :: name => o.readName name
  | '-' :: c :: cs => o.readLetters (c :: cs)
  | _ => do return (← o.addText arg, none)

/-- Read arguments one after the other. -/
def read (o : Options) : List String → Except Refusal Options
  | [] => .ok o
  | arg :: rest =>
    if arg = "--" then rest.foldlM addText o
    else
      match o.readArgument arg with
      | .error e => .error e
      | .ok (o, none) => read o rest
      | .ok (o, some s) =>
        match rest with
        | [] => .error .misuse
        | value :: rest =>
          if isSwitch value then .error .misuse
          else
            match o.assign s value with
            | .ok o => read o rest
            | .error e => .error e

/-- What arguments ask for. -/
def ofArgs (args : List String) : Except Refusal Options := read empty args

end Options

end ModelLabels.CommandLine
