/-!
Records of what a computation does, for a reader who wants to follow it.
-/

namespace Railroad

/-- `trace` tells every single step, `debug` the decisions. -/
inductive LogLevel where
  | trace
  | debug
deriving DecidableEq, Repr

def LogLevel.name : LogLevel → String
  | .trace => "TRACE"
  | .debug => "DEBUG"

structure LogRecord where
  level : LogLevel
  message : String
deriving DecidableEq, Repr

/-- The level and the message on one line. -/
def LogRecord.text (record : LogRecord) : String :=
  record.level.name ++ " " ++ record.message

end Railroad
