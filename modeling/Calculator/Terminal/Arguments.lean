/-!
# Arguments

The arguments on the command line say what is asked for. The calculator declares four flags, `--ast`,
`--tokens`, `--samples` and `--interactive`, the last one with the letter `i`, and one source. It also
declares what goes together:

* an outline and a list of tokens each need a source;
* an outline and a list of tokens exclude each other;
* the samples exclude a source.

How such declarations are read off a command line is not decided by the calculator, but by the library
for command lines that it is built on. What the library does is assumed here as it is documented:

* A word behind two dashes is a flag, and letters behind a single dash are so many flags. What is not
  declared is refused, and so is a value behind `=`, since no flag takes one.
* Anything else that does not start with a dash is the source, and so is a lone dash and everything
  behind `--`.
* A flag is given once at most, and so is the source.
* `--help` and `-h` are known without being declared.
* The arguments are taken from left to right, and the first that is refused or asks for help decides.
  Only then is it asked whether they go together.
* What excludes a source lifts the need for one: with the samples, neither an outline nor a list of
  tokens needs a source.

So `Argument.ofText`, `Argument.ofTexts` and `Options.take` stand for the library, while `Flag` and
`Options.consistent` are the declarations of the calculator.
-/

namespace Calculator.Terminal

/-! ## Arguments one by one -/

/-- The flags. -/
inductive Flag where
  | ast
  | tokens
  | samples
  | interactive
  deriving DecidableEq

/-- What a part of the command line says. -/
inductive Argument where
  | flag (flag : Flag)
  | source (source : List Char)
  | help
  | unknown
  deriving DecidableEq

namespace Argument

/-- A letter behind a single dash. -/
def ofLetter : Char → Argument
  | 'i' => .flag .interactive
  | 'h' => .help
  | _ => .unknown

/-- A word behind two dashes. -/
def ofWord (word : List Char) : Argument :=
  if word = "ast".toList then .flag .ast
  else if word = "tokens".toList then .flag .tokens
  else if word = "samples".toList then .flag .samples
  else if word = "interactive".toList then .flag .interactive
  else if word = "help".toList then .help
  else .unknown

/-- What one argument says before `--`. Letters behind a single dash are so many arguments. -/
def ofText : List Char → List Argument
  | '-' :: '-' :: word => [ofWord word]
  | '-' :: letter :: letters => (letter :: letters).map ofLetter
  | text => [.source text]

/-- What a list of arguments says. -/
def ofTexts : List (List Char) → List Argument
  | [] => []
  | text :: texts =>
    if text = "--".toList then texts.map .source else ofText text ++ ofTexts texts

end Argument

/-! ## Arguments together -/

/-- What has been said so far: which flags were given, and the source. -/
structure Options where
  ast : Bool
  tokens : Bool
  samples : Bool
  interactive : Bool
  source : Option (List Char)
  deriving DecidableEq

/-- Why a command line asks for nothing. -/
inductive Refusal where
  | help
  | usage
  deriving DecidableEq

namespace Options

/-- Nothing has been said. -/
def empty : Options := ⟨false, false, false, false, none⟩

/-- Whether a flag was given. -/
def has (options : Options) : Flag → Bool
  | .ast => options.ast
  | .tokens => options.tokens
  | .samples => options.samples
  | .interactive => options.interactive

/-- The same with a flag given. -/
def give (options : Options) : Flag → Options
  | .ast => { options with ast := true }
  | .tokens => { options with tokens := true }
  | .samples => { options with samples := true }
  | .interactive => { options with interactive := true }

theorem has_give (options : Options) (given flag : Flag) :
    (options.give given).has flag = (decide (flag = given) || options.has flag) := by
  cases given <;> cases flag <;> rfl

/-- Takes one more argument. -/
def take (options : Options) : Argument → Except Refusal Options
  | .flag flag => if options.has flag then .error .usage else .ok (options.give flag)
  | .source source =>
    if options.source.isSome then .error .usage else .ok { options with source := some source }
  | .help => .error .help
  | .unknown => .error .usage

/-- Whether what was said goes together. -/
def consistent (options : Options) : Bool :=
  !((options.ast || options.tokens) && options.source.isNone && !options.samples) &&
    !(options.ast && options.tokens) &&
    !(options.samples && options.source.isSome)

end Options

/-- What a whole command line says, or why it is refused. -/
def Options.ofTexts (texts : List (List Char)) : Except Refusal Options := do
  let options ← (Argument.ofTexts texts).foldlM Options.take .empty
  if options.consistent then return options else throw .usage

end Calculator.Terminal
