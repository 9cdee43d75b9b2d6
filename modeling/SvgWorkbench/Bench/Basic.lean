import SvgWorkbench.Session.Action
import SvgWorkbench.Store

/-!
# The bench

The bench is what a host page works with: at most one open session, the saved documents, and a
console that tells what happens. A call on the bench gives a value or throws a text, and every text
that is thrown is also written to the console. Each call takes place at a time of its own.
-/

namespace SvgWorkbench

/-! ## State -/

/-- The kinds of lines on the console. -/
inductive Channel where
  /-- What a call does. -/
  | log
  /-- What has been achieved. -/
  | info
  /-- What may be wrong. -/
  | warn
  /-- What went wrong. -/
  | error
  /-- The start of a measured time. -/
  | time
  /-- The end of a measured time. -/
  | timeEnd
  deriving DecidableEq, Repr

/-- The name of a kind of line. -/
def Channel.name : Channel → String
  | .log => "log"
  | .info => "info"
  | .warn => "warn"
  | .error => "error"
  | .time => "time"
  | .timeEnd => "timeEnd"

/-- A line on the console. -/
structure Line where
  /-- The kind of the line. -/
  channel : Channel
  /-- The text of the line. -/
  text : String
  deriving DecidableEq, Repr

/-- The state between calls. -/
structure Bench where
  /-- The open session. -/
  session : Option Session := none
  /-- The saved documents. -/
  store : Store := {}
  /-- The time of the last call. -/
  clock : Nat := 0
  /-- The lines the last call wrote. -/
  console : List Line := []

/-- Work on the bench, which may end in a thrown text. What was done before stays done. -/
abbrev Work (α : Type) := ExceptT String (StateM Bench) α

namespace Work

/-! ## The console -/

/-- Writes a line. -/
def write (channel : Channel) (text : String) : Work Unit :=
  modify fun b ↦ { b with console := b.console ++ [⟨channel, text⟩] }

/-- Tells what a call does. -/
def log (text : String) : Work Unit := write .log ("[WASM] " ++ text)

/-- Tells what has been achieved. -/
def info (text : String) : Work Unit := write .info ("[WASM] " ++ text)

/-- Tells what may be wrong. -/
def warn (text : String) : Work Unit := write .warn ("[WASM] ⚠️ " ++ text)

/-- Tells what went wrong, and throws it. -/
def fail {α : Type} (text : String) : Work α := do
  write .error ("[WASM] ❌ " ++ text)
  throw text

/-- The value of a result, or its error thrown by a call. -/
def orFail {ε α : Type} (call : String) (message : ε → String) (result : Except ε α) : Work α :=
  match result with
  | .ok value => pure value
  | .error e => fail (call ++ ": " ++ message e)

/-- The value of an argument. If it cannot be decoded that is thrown; the reason the decoder has is
not told here. -/
def decoded {α : Type} (what : String) (argument : Option α) : Work α :=
  match argument with
  | some value => pure value
  | none => fail (what ++ ": <detail>")

/-- The largest number up to which a host page has every number. -/
def largestNumber : Nat := 9007199254740991

/-- A document for the host page. If the page has no such number it is thrown that the document
cannot be encoded; the reason the encoder has is not told here. -/
def encoded (what : String) (saved : Saved) : Work Saved :=
  if saved.id ≤ largestNumber then pure saved else fail (what ++ ": <detail>")

/-- Work between two lines that measure its time, also when it throws. -/
def timed {α : Type} (label : String) (work : Work α) : Work α := do
  write .time label
  try work finally write .timeEnd label

/-! ## The session -/

/-- The open session. -/
def openSession (call : String) : Work Session := do
  match (← get).session with
  | some s => return s
  | none => fail (call ++ ": no session open")

/-- Does an action in the open session. -/
def act (call : String) (action : Session.Action) : Work Session.Reply := do
  let (reply, session) := (← openSession call).perform action
  modify fun b ↦ { b with session := some session }
  return reply

end Work

end SvgWorkbench
