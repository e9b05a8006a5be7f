import Calculator.Terminal.Arguments
import Calculator.Terminal.Session

/-!
# Requests

What a command line asks for, and the outcome of the run. The samples come before a session, and a
session before anything that is done with a source. Only a session looks at the standard input.
-/

namespace Calculator.Terminal

/-- What a command line asks for. -/
inductive Request where
  | samples
  | session
  | outline (source : List Char)
  | tokens (source : List Char)
  | value (source : List Char)
  deriving DecidableEq

namespace Request

/-- What options ask for: samples before a session, and a session unless there is a source. -/
def ofOptions (options : Options) : Request :=
  if options.samples then .samples
  else if options.interactive then .session
  else
    match options.source with
    | none => .session
    | some source =>
      if options.ast then .outline source
      else if options.tokens then .tokens source
      else .value source

end Request

/-! ## The program -/

/-- The name that a source on the command line goes by. -/
def argumentName : String := "<expr>"

/-- What a run of the program writes, and the code it exits with. -/
structure Outcome where
  exitCode : Nat
  response : Response
  deriving DecidableEq

/-- The exit code of a response to a source. -/
def Outcome.ofResponse (response : Response) : Outcome :=
  ⟨if response.failed then 1 else 0, response⟩

/-- The exit code of a command line that is refused. -/
def Refusal.exitCode : Refusal → Nat
  | .help => 0
  | .usage => 2

/-- How the program is called. -/
def usage : String :=
  "Usage: arith [--ast | --tokens | --samples] [-i | --interactive] [--] [EXPR]"

/-- The outcome of a request, for what stands on the standard input. -/
def Request.outcome (input : List UInt8) : Request → Outcome
  | .samples => ⟨0, respondSamples⟩
  | .session => ⟨0, Terminal.session input⟩
  | .outline source => .ofResponse (respondOutline argumentName source)
  | .tokens source => .ofResponse (respondTokens argumentName source)
  | .value source => .ofResponse (respondValue argumentName source)

/-- The outcome of a run of the program. A command line that is refused gives no response of its
own; how the program is called is all there is to say to it. -/
def run (arguments : List (List Char)) (input : List UInt8) : Outcome :=
  match Options.ofTexts arguments with
  | .ok options => (Request.ofOptions options).outcome input
  | .error refusal => ⟨refusal.exitCode, .silent⟩

/-- A command line asks for a request. -/
def Asks (arguments : List (List Char)) (request : Request) : Prop :=
  ∃ options, Options.ofTexts arguments = .ok options ∧ Request.ofOptions options = request

theorem Asks.run_eq {arguments : List (List Char)} {request : Request} (h : Asks arguments request)
    (input : List UInt8) : run arguments input = request.outcome input := by
  obtain ⟨options, hoptions, rfl⟩ := h
  rw [run, hoptions]

end Calculator.Terminal
