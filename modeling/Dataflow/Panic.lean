/-!
# Panics

A callback or a payload may give up by a panic instead of an answer. A panic
carries either a text or a value that has none.
-/

namespace Dataflow

/-- The value a panic carries. -/
inductive Panic where
  | text (message : String)
  | wordless
deriving DecidableEq, Repr

namespace Panic

/-- The text of the panic, if its value is one. -/
def text? : Panic → Option String
  | text message => some message
  | wordless => none

/-- What a report says about the panic: its text, or a fixed phrase. -/
def describe : Panic → String
  | text message => message
  | wordless => "non-string panic payload"

end Panic

end Dataflow
