/-!
# Columns

Text filled up with spaces to a width counted in characters; longer text is left as it is.
-/

namespace PubSub.Text

/-- The spaces that `s` lacks to the width. -/
def filler (width : Nat) (s : String) : String :=
  String.ofList (List.replicate (width - s.length) ' ')

/-- Text at the left of its column. -/
def alignLeft (width : Nat) (s : String) : String :=
  s ++ filler width s

/-- Text at the right of its column. -/
def alignRight (width : Nat) (s : String) : String :=
  filler width s ++ s

end PubSub.Text
