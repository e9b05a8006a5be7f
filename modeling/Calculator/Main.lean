import Calculator.Terminal.Request

/-!
# The program

The only module that reads and writes. What is written was decided elsewhere: a run without a
session writes the response of `Terminal.run`, and a session is answered line by line with the
answers that `Terminal.session` is made of, so that each answer appears before the next line is
read.
-/

namespace Calculator.Terminal

/-- Writes a response, the notices beside the output. -/
def write (response : Response) : IO Unit := do
  let output ← IO.getStdout
  output.putStr (String.ofList response.output)
  output.flush
  for notice in response.notices do
    IO.eprintln notice.text

/-- Reads one line, with the line feed that ends it. -/
partial def readLine (input : IO.FS.Stream) (line : Array UInt8) : IO (Array UInt8) := do
  match (← input.read 1).toList with
  | [] => return line
  | byte :: _ => if byte = 10 then return line.push byte else readLine input (line.push byte)

/-- Answers lines until one stops the session or the input ends. -/
partial def answerInput (input : IO.FS.Stream) : IO Unit := do
  write prompt
  let line ← readLine input #[]
  if line.isEmpty then
    write closing
  else
    let answer := answerLine line.toList
    write answer.response
    unless answer.stops do
      answerInput input

end Calculator.Terminal

open Calculator.Terminal

/-- Runs the program. -/
def main (arguments : List String) : IO UInt32 := do
  match Options.ofTexts (arguments.map String.toList) with
  | .error refusal =>
    if refusal = .help then IO.println usage else IO.eprintln usage
    return refusal.exitCode.toUInt32
  | .ok options =>
    let request := Request.ofOptions options
    if request = .session then
      write banner
      answerInput (← IO.getStdin)
      return 0
    else
      let outcome := request.outcome []
      write outcome.response
      return outcome.exitCode.toUInt32
