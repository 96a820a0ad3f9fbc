/-!
# Line ends

Source files may end their lines with a carriage return, a newline, or both. Read as text, every
line end is one newline.
-/

namespace Tern.Text

/-- Every line end as one newline. -/
def plainNewlines : List Char → List Char
  | [] => []
  | '\r' :: '\n' :: rest => '\n' :: plainNewlines rest
  | c :: rest => (if c = '\r' then '\n' else c) :: plainNewlines rest

end Tern.Text
