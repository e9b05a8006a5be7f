import Calculator.Proofs.Parse.Rendering
import Calculator.Proofs.Reader.DepthBlame
import Calculator.Proofs.Reader.Refusal
import Calculator.Proofs.Token.Tiling

/-!
# The token that is too deep

Which token a text is refused at for its depth (`parse_depth_blame`). If its tokens are a sentence, it is
the one at which a limit is seen to be overstepped first. If they are not, the grammar may have been left
later on, but what has been read oversteps a limit at that token just the same.
-/

namespace Calculator

open Grammar

theorem Scanner.Lexes.apart {text : List Char} {tokens : List Token} (h : Lexes text tokens) :
    Token.Apart tokens :=
  ⟨h.inOrder, h.tiles.nonempty⟩

/-- Texts that begin with other letters are other texts. -/
theorem Text.append_ne {a b c : String} (h : ¬ a.toList <+: c.toList) : a ++ b ≠ c := by
  rintro rfl
  exact h (String.toList_append ▸ List.prefix_append a.toList b.toList)

/-- The message for the depth is given for nothing else. -/
theorem Cause.exists_limit_of_message {cause : Cause}
    (h : cause.message = "Expression nested too deeply") : ∃ limit, cause = .tooDeep limit := by
  cases cause with
  | tooDeep limit => exact ⟨limit, rfl⟩
  | numberWithoutValue | emptyGroup | unexpectedEnd | unclosedGroup | divisionByZero =>
    exact absurd h (by decide +kernel)
  | numberTooLarge _ => exact absurd h (Text.append_ne (by decide +kernel))
  | unexpectedCharacter _ | missingOperand _ | noExpression _ _ | trailingInput _ _ | overflow _ =>
    exact absurd ((String.append_assoc ..).symm.trans h) (Text.append_ne (by decide +kernel))

/-- A sentence beyond the limits is refused at the token that oversteps one first. -/
theorem Expr.parse_of_beyond {source : List Char} {tokens : List Token} {last : Token} {e : Expr}
    (hstreams : (Scanner.ofSource source).Streams tokens (.ok last))
    (h : Derives .expression tokens e) (hbeyond : ¬ WithinLimits 0 tokens e) :
    ∃ token place, OverstepsFirst 0 tokens e token place ∧
      Expr.parse source = .error ⟨.tooDeep depthLimit, token.span⟩ := by
  obtain ⟨s', hreads, hlast, hend⟩ := Scanner.streams_ok_iff.mp hstreams
  have hapart : Token.Apart tokens := (Scanner.lexes_iff.mpr ⟨last, hstreams⟩).apart
  have hstop : last.kind.operatorAt? .product = none := by simp [hend, Token.Kind.operatorAt?]
  rcases parse_cases source with ⟨fault, hfault, -⟩ | ⟨r, hat, hdepth, hparse⟩
  · -- a sentence has a first token
    obtain ⟨first, rest, rfl, -⟩ := Reader.startsOperand_of_derives h
    obtain ⟨behind, hscan⟩ := hreads.scan_eq
    rw [hscan] at hfault
    cases hfault
  · obtain ⟨token, place, r', hfirst, hrule⟩ := Reader.refused_of_derives h hreads hat
      (Prod.ext hlast rfl) (fun _ => hstop) (Nat.add_zero depthLimit) hapart hbeyond
    have hexpression : Reader.expression r = .error ⟨.tooDeep depthLimit, token.span⟩ r' := by
      rw [Reader.expression, Reader.get_bind, hdepth]
      exact hrule
    refine ⟨token, place, hfirst, ?_⟩
    rw [hparse, Reader.complete_eq, hexpression]

/-- A sentence beyond the limits is refused as too deep, at the first token that oversteps a limit. And
whatever a text is, if it is refused as too deep, the token that is blamed oversteps a limit among the
tokens that have been read. -/
theorem parse_depth_blame (source : List Char) :
    (∀ tokens last e, (Scanner.ofSource source).Streams tokens (.ok last) →
      Derives .expression tokens e → ¬ WithinLimits 0 tokens e →
      ∃ token place fault, OverstepsFirst 0 tokens e token place ∧
        Expr.parse source = .error fault ∧ fault.cause.kind = .grammar ∧
        fault.cause.message = "Expression nested too deeply" ∧ fault.span = token.span) ∧
    ∀ fault, Expr.parse source = .error fault →
      fault.cause.message = "Expression nested too deeply" →
      Standing.start.OverstepsAt (.ofSource source) fault.span := by
  refine ⟨fun tokens last e hstreams he hbeyond => ?_, fun fault hparse hmessage => ?_⟩
  · obtain ⟨token, place, hfirst, hparse⟩ := Expr.parse_of_beyond hstreams he hbeyond
    exact ⟨token, place, _, hfirst, hparse, rfl, rfl, rfl⟩
  · obtain ⟨limit, hcause⟩ := Cause.exists_limit_of_message hmessage
    exact Expr.blamesDepth_of_parse hparse limit hcause

/-- A number in any number of parentheses is a sentence. -/
theorem textDerives_nested {value : Word} (hvalue : 0 ≤ value.toInt) (depth : Nat) :
    TextDerives .expression depth
      (List.replicate depth '(' ++ (value.text ++ List.replicate depth ')')) (.number value) := by
  induction depth with
  | zero =>
    have hnumber : TextDerives .factor 0 ([] ++ (value.text ++ [])) _ := .number hvalue nofun nofun
    exact hnumber.mono (fun _ _ => Derives.ofFactor) le_rfl
  | succ depth ih =>
    have hgroup : TextDerives .factor (depth + 1) ([] ++ '(' :: (_ ++ ')' :: [])) _ :=
      ih.group nofun nofun
    rw [List.replicate_succ, List.replicate_succ']
    simpa using hgroup.mono (fun _ _ => Derives.ofFactor) le_rfl

/-- In both texts the last of the opening parentheses is one too many. The first text is a sentence, and the
second leaves the grammar at its end. -/
theorem parse_depth_blame_nested :
    let opened : List Char := List.replicate 257 '('
    let nested : List Char := opened ++ '1' :: List.replicate 257 ')'
    (∃ tokens last e, (Scanner.ofSource nested).Streams tokens (.ok last) ∧
      Derives .expression tokens e ∧ ¬ WithinLimits 0 tokens e ∧
      ∃ token place, OverstepsFirst 0 tokens e token place ∧ token.span = ⟨256, 257⟩) ∧
    Expr.parse nested = .error ⟨.tooDeep 256, ⟨256, 257⟩⟩ ∧
    Expr.parse opened = .error ⟨.tooDeep 256, ⟨256, 257⟩⟩ ∧
    Standing.start.OverstepsAt (.ofSource opened) ⟨256, 257⟩ := by
  intro opened nested
  have hnested : Expr.parse nested = .error ⟨.tooDeep 256, ⟨256, 257⟩⟩ := by decide +kernel
  have hopened : Expr.parse opened = .error ⟨.tooDeep 256, ⟨256, 257⟩⟩ := by decide +kernel
  have hone : Word.text ⟨1, by decide, by decide⟩ = ['1'] := by decide
  obtain ⟨tokens, e, hlexes, he, -, -⟩ :=
    @textDerives_nested ⟨1, by decide, by decide⟩ (by decide) 257
  rw [hone] at hlexes
  obtain ⟨last, hstreams⟩ := Scanner.lexes_iff.mp hlexes
  have hbeyond : ¬ WithinLimits 0 tokens e := by
    rintro ⟨hnests, hheight⟩
    have hparse := Expr.parse_eq_ok_iff.mpr ⟨tokens, last, hstreams, he, hnests, hheight⟩
    cases hparse.symm.trans hnested
  obtain ⟨token, place, fault, hfirst, hparse, -, -, hspan⟩ :=
    (parse_depth_blame nested).1 tokens last e hstreams he hbeyond
  obtain rfl := Except.error.inj (hnested.symm.trans hparse)
  exact ⟨⟨tokens, last, e, hstreams, he, hbeyond, token, place, hfirst, hspan.symm⟩, hnested, hopened,
    (parse_depth_blame opened).2 _ hopened rfl⟩

end Calculator
