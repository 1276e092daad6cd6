import ModelLabels.CommandLine.Directory
import ModelLabels.CommandLine.Guide
import ModelLabels.CommandLine.Options
import ModelLabels.Model.Sample
import ModelLabels.Renderer
import ModelLabels.Template.Report
/-! # The command line

The command line renders a template for an object of the sample model, reports the problems of a
template, or lists the objects of the model.

* `Options.run`: what is printed for given options.
* `run`: what is printed for given arguments.
-/

namespace ModelLabels.CommandLine
set_option autoImplicit false

/-- What a run ends with. -/
structure Outcome where
  exitCode : Nat
  stdout : String
  stderr : String
  deriving Repr, DecidableEq

namespace Outcome

def success (stdout : String) : Outcome := ⟨0, stdout, ""⟩

def failure (stderr : String) : Outcome := ⟨1, "", stderr⟩

end Outcome

/-- What a run can look at besides its arguments. -/
structure Surroundings where
  find : String → Except FileError Contents
  stdin : String

/-- The text of the file that a path leads to, and what can be looked at after it is read: standard
input is there only once. -/
def Surroundings.read (s : Surroundings) (path : String) :
    Except FileError (String × Surroundings) :=
  match s.find path with
  | .ok (.text text) => .ok (text, s)
  | .ok .standardInput => .ok (s.stdin, { s with stdin := "" })
  | .ok .bytes => .error .notText
  | .error e => .error e

/-- The object that is rendered when none is named. -/
def defaultObject : String := "customer"

/-- The name of the template in reports. -/
def reportTitle : String := "template"

/-- A text without the line breaks at its end. -/
def trimLineBreaks (s : String) : String :=
  String.ofList (s.toList.reverse.dropWhile fun c => c == '\n' || c == '\r').reverse

/-- The line of an object in a listing: identifier, type and name. -/
def listingLine (m : Model) (k : Key) : Option String :=
  (m.get? k).map fun o =>
    o.id ++ "\t" ++ renderOnce m (.object k) "$\x7btype\x7d\t$\x7bname\x7d" ++ "\n"

/-- The lines of all objects in the order of the walk. -/
def listing (m : Model) : String := String.join (m.walk.filterMap (listingLine m))

/-- The reports on a template; each is followed by a blank line. -/
def checkOutcome (template : String) : Outcome :=
  let warnings := Template.check template
  let reports := warnings.map fun w => w.report reportTitle template ++ "\n"
  ⟨if warnings.isEmpty then 0 else 1, "", String.join reports⟩

/-- The label of an object, or the complaint that there is no such object. -/
def renderOutcome (m : Model) (config : RenderConfig) (object template : String) : Outcome :=
  match (Renderer.renderId m object template (Renderer.new config)).1 with
  | some label => .success (label ++ "\n")
  | none =>
    .failure ("No object with id '" ++ object ++ "' in the sample model (see --list)\n")

namespace Options

/-- The configuration that is named, or the default, and what can be looked at after it is read. -/
def loadConfig (o : Options) (s : Surroundings) : Except String (RenderConfig × Surroundings) :=
  match o.config? with
  | none => .ok (.default, s)
  | some path =>
    let complaint (message : String) : String :=
      "Error loading config '" ++ path ++ "': " ++ message ++ "\n"
    match s.read path with
    | .error e => .error (complaint ("Failed to read config file: " ++ e.message))
    | .ok (file, rest) =>
      match RenderConfig.ofToml? file with
      | .ok config => .ok (config, rest)
      | .error e => .error (complaint e.message)

/-- The template that is given, or what stands on standard input. -/
def templateText (o : Options) (s : Surroundings) : String :=
  match o.template? with
  | some text => text
  | none => trimLineBreaks s.stdin

/-- What a run with given options ends with. -/
def run (o : Options) (s : Surroundings) : Outcome :=
  if o.grammar then .success (joinLines CommandLine.grammar)
  else
    match o.loadConfig s with
    | .error complaint => .failure complaint
    | .ok (config, rest) =>
      let m := Sample.model 1
      if o.list then .success (listing m)
      else if o.check then checkOutcome (o.templateText rest)
      else renderOutcome m config (o.object?.getD defaultObject) (o.templateText rest)

/-- Whether a run reads standard input. -/
def readsStdin (o : Options) : Bool := !o.grammar && !o.list && o.template?.isNone

end Options

/-- What a run with given arguments ends with. -/
def run (args : List String) (s : Surroundings) : Outcome :=
  match Options.ofArgs args with
  | .ok o => o.run s
  | .error .help => .success (joinLines usage)
  | .error .misuse => ⟨2, "", "For more information, try '--help'.\n"⟩

end ModelLabels.CommandLine
