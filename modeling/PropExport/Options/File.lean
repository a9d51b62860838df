import PropExport.Options.Basic
import PropExport.Toml.Table

/-!
# Options files

Options are written as a TOML table. Every option is a text; the verbosity may also be a table whose
only key is the name of a level and whose value is empty. What is left out keeps its default, and
nothing else may be in the file.
-/

namespace PropExport.Options

/-- Reads a text. -/
def textOf? : Toml.Item → Option String
  | .text s => some s
  | _ => none

/-- Reads the name of a level. -/
def levelOf? : Toml.Item → Option Level
  | .text s => Level.ofName? s
  | .table _ [(name, .emptyArray)] => Level.ofName? name
  | .table _ [(name, .table _ [])] => Level.ofName? name
  | _ => none

/-- Sets one option. -/
def set? (options : Options) : String × Toml.Item → Option Options
  | ("build_dir", v) => (textOf? v).map fun s => { options with buildDir := s }
  | ("verbosity_level", v) => (levelOf? v).map fun l => { options with verbosity := l }
  | ("output_path", v) => (textOf? v).map fun s => { options with outputPath := some s }
  | ("entry_file_suffix", v) => (textOf? v).map fun s => { options with suffix := s }
  | ("axiom_keyword", v) => (textOf? v).map fun s => { options with keyword := s }
  | _ => none

/-- Reads the text of an options file. -/
def parse (text : String) : Option Options := do
  (← Toml.parse text).foldlM set? {}

end PropExport.Options
