import PropExport.Expr.Display

/-!
# Events

What happens during a run and is worth a line in the log, with its level and wording.
-/

namespace PropExport

/-- How much a log line matters, or how much a log shows. -/
inductive Level where
  | off
  | error
  | warn
  | info
  | debug
  | trace
  deriving DecidableEq, Repr, Inhabited

namespace Level

/-- The name of a level. -/
def name : Level → String
  | .off => "OFF"
  | .error => "ERROR"
  | .warn => "WARN"
  | .info => "INFO"
  | .debug => "DEBUG"
  | .trace => "TRACE"

/-- All levels, quietest first. -/
def all : List Level := [.off, .error, .warn, .info, .debug, .trace]

/-- The level with a name, written in either case. -/
def ofName? (s : String) : Option Level :=
  all.find? fun l => l.name.toList == s.toList.map Char.toUpper

end Level

/-- Something that happened. -/
inductive Event where
  | rebinding (key previous target : String)
  | replaying (count : Nat) (unit : String)
  | freezing (unit : String) (count : Nat)
  | aligning (decl target : String)
  | exporting (decl : String) (equations : Nat) (line : String)
  | declaring (name : String) (type : Expr) (hasBody : Bool)
  | dumping (count : Nat)
  | applied (attr decl : String)
  | compiling (unit : String) (commands units symbols : Nat)
  | loaded (unit : String) (count : Nat)
  | stored (unit : String) (count : Nat) (path : String)
  | wrote (count : Nat) (path : String)
  deriving DecidableEq, Repr

namespace Event

/-- The level at which an event is logged. -/
def level : Event → Level
  | .rebinding .. => .warn
  | .freezing .. | .compiling .. | .stored .. | .wrote .. => .info
  | _ => .debug

/-- The wording of an event. -/
def text : Event → String
  | .rebinding key previous target =>
    "rebinding `" ++ key ++ "` from `" ++ previous ++ "` to `" ++ target ++ "`"
  | .replaying count unit => "replaying " ++ toString count ++ " entries of `" ++ unit ++ "`"
  | .freezing unit count => "freezing unit `" ++ unit ++ "` with " ++ toString count ++ " entries"
  | .aligning decl target => "aligning `" ++ decl ++ "` with Dafny `" ++ target ++ "`"
  | .exporting decl equations line =>
    "exporting `" ++ decl ++ "` (" ++ toString equations ++ " equations): " ++ line
  | .declaring name type hasBody =>
    "declaring `" ++ name ++ "` : " ++ type.display ++ if hasBody then " (with body)" else ""
  | .dumping count => "#export_dafny: " ++ toString count ++ " declarations"
  | .applied attr decl => "`" ++ attr ++ "` applied to `" ++ decl ++ "`"
  | .compiling unit commands units symbols =>
    "compiling `" ++ unit ++ "` (" ++ toString commands ++ " commands, " ++ toString units ++
      " units imported, " ++ toString symbols ++ " symbols visible)"
  | .loaded unit count => "loaded `" ++ unit ++ "` (" ++ toString count ++ " entries)"
  | .stored unit count path =>
    "stored `" ++ unit ++ "` (" ++ toString count ++ " entries) in " ++ path
  | .wrote count path => "wrote " ++ toString count ++ " declarations to " ++ path

/-- The log line of an event. -/
def line (e : Event) : String :=
  e.level.name ++ " " ++ e.text

end Event

end PropExport
