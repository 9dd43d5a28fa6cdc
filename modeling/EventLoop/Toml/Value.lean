/-!
# Values of TOML

What a document gives to its names, before anything is made of it.  The entries
of a table stand in the order of the document; a table that a heading names
after its inner tables stands where that heading stands.
-/

namespace EventLoop.Toml

/-- A value of a document. -/
inductive Value where
  | text (value : String)
  | integer (value : Int)
  | number (value : Float)
  | bool (value : Bool)
  /-- A date, a time or both, as it is normally written. -/
  | moment (written : String)
  | list (elements : List Value)
  | table (entries : List (String × Value))

instance : Inhabited Value := ⟨.table []⟩

end EventLoop.Toml
