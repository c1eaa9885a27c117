/-!
# Log lines
-/

namespace MarkdownEdits

inductive LogLevel
  | debug
  | info
  | warn
  deriving DecidableEq, Repr, Inhabited

def LogLevel.name : LogLevel → String
  | .debug => "DEBUG"
  | .info => "INFO"
  | .warn => "WARN"

structure LogLine where
  level : LogLevel
  text : String
  deriving DecidableEq, Repr, Inhabited

def LogLine.render (l : LogLine) : String := l.level.name ++ " " ++ l.text

end MarkdownEdits
