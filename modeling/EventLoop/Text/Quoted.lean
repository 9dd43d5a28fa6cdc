/-!
# Quoted text

A text between single quotes, with a backslash before every backslash and
every single quote of the text (`quote`), and the reading of the characters
between two quotes of a script, where a backslash takes the character after it
along (`unescape`).

Reading back what stands between the quotes of `quote s` gives `s`.
-/

namespace EventLoop.Text

/-- Backslashes and single quotes get a backslash in front. -/
def escape : List Char → List Char
  | [] => []
  | c :: cs =>
    if c = '\\' ∨ c = '\x27' then '\\' :: c :: escape cs else c :: escape cs

/-- A text as a string literal of a script. -/
def quote (s : String) : String :=
  String.ofList ('\x27' :: escape s.toList ++ ['\x27'])

/-- The character that a backslash and `c` stand for. -/
def escaped (c : Char) : Char :=
  if c = 'n' then '\n'
  else if c = 't' then '\t'
  else if c = 'r' then '\r'
  else if c = '0' then '\x00'
  else c

/-- The text that the characters between two quotes stand for; a backslash at
the very end stands for itself. -/
def unescape : List Char → List Char
  | [] => []
  | ['\\'] => ['\\']
  | '\\' :: c :: cs => escaped c :: unescape cs
  | c :: cs => c :: unescape cs

end EventLoop.Text
