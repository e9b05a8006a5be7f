import Calculator.Binary64.Rounding

/-!
# Binary64 arithmetic

The four operations on double-precision numbers. Each works on the exact values and rounds once;
infinities and values that are not numbers follow IEEE 754. The rules for signs are the ones that
the exact value cannot give:

* a sum that is exactly zero is negative only if both summands are;
* a product or quotient has the sign that its operands' signs have together, also when it is zero
  or too large.
-/

namespace Calculator.Binary64

/-- The value with the other sign. -/
def neg : Binary64 → Binary64
  | .nan => .nan
  | .infinite negative => .infinite (!negative)
  | .finite negative rank => .finite (!negative) rank

/-- The sum. -/
def add : Binary64 → Binary64 → Binary64
  | .finite s a, .finite t b =>
    let sum := signed s a + signed t b
    if sum = 0 then zero (s && t) else ofRat sum
  | .finite _ _, .infinite t => .infinite t
  | .infinite s, .finite _ _ => .infinite s
  | .infinite s, .infinite t => if s = t then .infinite s else .nan
  | .nan, _ | _, .nan => .nan

/-- The difference. -/
def sub (x y : Binary64) : Binary64 := add x (neg y)

/-- The product. -/
def mul : Binary64 → Binary64 → Binary64
  | .finite s a, .finite t b => round (s ^^ t) (magnitude a * magnitude b)
  | .finite s a, .infinite t => if a.val = 0 then .nan else .infinite (s ^^ t)
  | .infinite s, .finite t b => if b.val = 0 then .nan else .infinite (s ^^ t)
  | .infinite s, .infinite t => .infinite (s ^^ t)
  | .nan, _ | _, .nan => .nan

/-- The quotient. -/
def div : Binary64 → Binary64 → Binary64
  | .finite s a, .finite t b =>
    if b.val = 0 then (if a.val = 0 then .nan else .infinite (s ^^ t))
    else round (s ^^ t) (magnitude a / magnitude b)
  | .finite s _, .infinite t => zero (s ^^ t)
  | .infinite s, .finite t _ => .infinite (s ^^ t)
  | .infinite _, .infinite _ => .nan
  | .nan, _ | _, .nan => .nan

end Calculator.Binary64
