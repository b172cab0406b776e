import SchemaHighlighter.Highlight.Scan

/-!
# Scanning with a parser that is a function

The same scan for a parser that is handed all of the text that is left and answers by a
function of it. There is no window, no memory and no engine. It is what a scan with an engine
is measured by.
-/
namespace SchemaHighlighter.Reference

/-- The statements of `rest`, which begins at byte `offset` and at `cursor`. -/
def stepsFrom (parse : Text → ParseResult) (offset : Nat) (cursor : Position) (rest : Text) :
    List Step :=
  if rest = [] then []
  else
    let result := parse rest
    let source := Text.takeBytes result.consumed rest
    if result.status.code.isTerminal ∨ source = [] then []
    else
      ⟨offset, cursor, source, result, []⟩ ::
        stepsFrom parse (offset + Text.byteLength source) (cursor.walk source)
          (rest.drop source.length)
termination_by rest.length
decreasing_by
  have nonempty : 0 < rest.length := List.length_pos_iff.2 ‹_›
  have moved : 0 < (Text.takeBytes (parse rest).consumed rest).length :=
    List.length_pos_iff.2 fun h => ‹¬ _› (Or.inr h)
  simp only [List.length_drop]
  omega

def steps (parse : Text → ParseResult) (text : Text) (range : Range) : List Step :=
  let stop := Text.offset text range.stop
  let start := min (Text.offset text range.start) stop
  if range.isEmpty then []
  else stepsFrom parse start range.start (Text.dropBytes start (Text.takeBytes stop text))

def tokens (isWord : Char → Bool) (parse : Text → ParseResult) (text : Text) (range : Range) :
    List Token :=
  (steps parse text range).flatMap (Step.tokens isWord)

end SchemaHighlighter.Reference
