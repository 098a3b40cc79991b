/-!
Quoted text: how a string element is written in a listing.
-/

namespace RingDeque.Listing

/-- One character of a quoted text. The quote, the backslash and the control characters that have
a short form are escaped; all else stands for itself. -/
def escaped : Char → List Char
  | '"' => ['\\', '"']
  | '\\' => ['\\', '\\']
  | '\n' => ['\\', 'n']
  | '\r' => ['\\', 'r']
  | '\t' => ['\\', 't']
  | '\x00' => ['\\', '0']
  | c => [c]

/-- A text between quotes. -/
def quoted (text : String) : String :=
  String.ofList ('"' :: text.toList.flatMap escaped ++ ['"'])

end RingDeque.Listing
