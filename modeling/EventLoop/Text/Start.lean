/-!
# Starts of texts

What follows a given start of a text.
-/

namespace EventLoop.Text

/-- What follows `start` in a text that begins with it. -/
def after? : List Char → List Char → Option (List Char)
  | [], cs => some cs
  | c :: start, d :: cs => if c = d then after? start cs else none
  | _ :: _, [] => none

end EventLoop.Text
