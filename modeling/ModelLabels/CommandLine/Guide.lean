/-! # Texts of the command line

The texts that the command line prints without looking at a model: its usage, and the reference of the
template grammar.
-/

namespace ModelLabels.CommandLine
set_option autoImplicit false

/-- Lines, each with its line feed. -/
def joinLines (lines : List String) : String := String.join (lines.map (· ++ "\n"))

/-- The usage. -/
def usage : List String :=
  ["Render ArchiMate label templates against a sample model",
   "",
   "Usage: archimate-label [OPTIONS] [TEMPLATE]",
   "",
   "Arguments:",
   "  [TEMPLATE]  Template text (reads from stdin if not provided)",
   "",
   "Options:",
   "  -c, --config <CONFIG>  Render configuration file (TOML format)",
   "  -o, --object <OBJECT>  Identifier of the sample-model object to render against [default: customer]",
   "      --check            Report template problems instead of rendering",
   "  -g, --grammar          Show template grammar reference",
   "  -l, --list             List the objects of the sample model",
   "  -v, --verbose...       Raise the log level (-v debug, -vv trace)",
   "  -h, --help             Print help"]

/-- The reference of the template grammar. -/
def grammar : List String :=
  ["LABEL TEMPLATE GRAMMAR",
   "======================",
   "",
   "DIRECTIVES",
   "----------",
   "Text is copied as is. A directive is replaced by an attribute of the",
   "current object or of an object reached from it:",
   "",
   "    $prefix\x7battribute\x7d",
   "",
   "A '$' that does not start a well-formed directive is kept as text.",
   "",
   "PREFIXES",
   "--------",
   "(none)              The current object",
   "source, target      Ends of a relationship or connection",
   "parent              Container of a diagram object",
   "mfolder             Folder holding the underlying concept",
   "vfolder             Folder holding the enclosing view",
   "view                The enclosing view",
   "model               The model",
   "<rel>:source        Source of the first <rel> relationship of the concept",
   "<rel>:target        Target of the first <rel> relationship of the concept",
   "",
   "Prefixes are case-insensitive. <rel> is one of:",
   "    composition, aggregation, assignment, realization, serving, access,",
   "    influence, triggering, flow, specialization, association",
   "",
   "ATTRIBUTES",
   "----------",
   "type                Type label (\"Business Actor\", \"Assignment relation\", ...)",
   "name                Name",
   "documentation       Documentation text",
   "id                  Identifier of the object itself (an element object",
   "                    has its own, separate from its concept's)",
   "content             Text of a note",
   "property:KEY        Value of property KEY",
   "",
   "Anything that cannot be resolved renders as empty text.",
   "",
   "EXAMPLES",
   "--------",
   "[$\x7btype\x7d] $\x7bname\x7d",
   "$source\x7bname\x7d -> $target\x7bname\x7d",
   "Played by $assignment:source\x7bname\x7d ($mfolder\x7bname\x7d)"]

end ModelLabels.CommandLine
