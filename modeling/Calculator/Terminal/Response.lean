import Calculator.Expr.Evaluation
import Calculator.Expr.Outline
import Calculator.Sample
import Calculator.Terminal.Report

/-!
# Responses

What the calculator writes when it is asked for something: text to its output, and notices beside
it. There are four requests, the same on the command line and in a session: the value of a source,
its outline, its tokens, and the samples. A response failed if it has a notice.
-/

namespace Calculator.Terminal

/-- Something written beside the output. -/
inductive Notice where
  | report (report : Report)
  | unreadableLine
  deriving DecidableEq

/-- A notice in words. -/
def Notice.text : Notice → String
  | .report shown => shown.text
  | .unreadableLine => "Error reading input: stream did not contain valid UTF-8"

/-- What is written. -/
@[ext] structure Response where
  output : List Char
  notices : List Notice
  deriving DecidableEq

namespace Response

/-- Nothing is written. -/
def silent : Response := ⟨[], []⟩

/-- Lines of output, each closed by a line feed. -/
def ofLines (lines : List (List Char)) : Response :=
  ⟨lines.flatMap (· ++ ['\n']), []⟩

/-- A report of a fault. -/
def ofFault (name : String) (source : List Char) (fault : Fault) : Response :=
  ⟨[], [.report (.ofDiagnostic name source fault.diagnostic)]⟩

/-- One response and then another. -/
def append (a b : Response) : Response :=
  ⟨a.output ++ b.output, a.notices ++ b.notices⟩

instance : Append Response := ⟨append⟩

@[simp] theorem output_append (a b : Response) : (a ++ b).output = a.output ++ b.output := rfl

@[simp] theorem notices_append (a b : Response) : (a ++ b).notices = a.notices ++ b.notices := rfl

theorem append_assoc (a b c : Response) : a ++ b ++ c = a ++ (b ++ c) := by
  rw [Response.ext_iff]
  simp

@[simp] theorem silent_append (a : Response) : silent ++ a = a := rfl

@[simp] theorem append_silent (a : Response) : a ++ silent = a := by
  rw [Response.ext_iff]
  simp [silent]

/-- Whether something went wrong. -/
def failed (response : Response) : Bool := !response.notices.isEmpty

end Response

/-- The value of a source. -/
def respondValue (name : String) (source : List Char) : Response :=
  match evaluate source with
  | .ok value => .ofLines [value.text]
  | .error fault => .ofFault name source fault

/-- The outline of a source. -/
def respondOutline (name : String) (source : List Char) : Response :=
  match Expr.parse source with
  | .ok e => ⟨e.outline, []⟩
  | .error fault => .ofFault name source fault

/-- One item of the stream of tokens. -/
def respondItem (name : String) (source : List Char) : Item → Response
  | .ok token => .ofLines [token.text]
  | .error fault => .ofFault name source fault

/-- The tokens of a source, up to the end of the input or a fault. -/
def respondTokens (name : String) (source : List Char) : Response :=
  (Scanner.ofSource source).items.1.foldr (respondItem name source · ++ ·) .silent

/-- The samples. -/
def respondSamples : Response := .ofLines Sample.listing

end Calculator.Terminal
