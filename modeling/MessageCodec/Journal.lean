/-!
# Journal

What a run reports about its work, in order.
-/

namespace MessageCodec

inductive Level where
  | debug
  | info
  | warning
  | error
deriving DecidableEq

def Level.name : Level → String
  | debug => "DEBUG"
  | info => "INFO"
  | warning => "WARNING"
  | error => "ERROR"

structure JournalEntry where
  level : Level
  text : String

/-- The entries of a run, oldest first. -/
abbrev Journal := List JournalEntry

end MessageCodec
