/-!
Listings: values laid out as nested lists and records, either on one line or with one entry to a
line.
-/

namespace RingDeque

/-- What a listing says, apart from its layout. -/
inductive Listing where
  /-- A text that stands as it is. -/
  | leaf (text : String)
  /-- A list between square brackets. -/
  | list (entries : List Listing)
  /-- A named record of named fields between braces. -/
  | record (name : String) (fields : List (String × Listing))
  /-- A named wrapper of unnamed values between parentheses. -/
  | wrapped (name : String) (values : List Listing)

namespace Listing

mutual

/-- The listing on one line. A record without fields is its name alone. -/
def compact : Listing → String
  | .leaf text => text
  | .list entries => "[" ++ ", ".intercalate (compactEach entries) ++ "]"
  | .record name [] => name
  | .record name fields => name ++ " \x7b " ++ ", ".intercalate (compactFields fields) ++ " \x7d"
  | .wrapped name [] => name
  | .wrapped name values => name ++ "(" ++ ", ".intercalate (compactEach values) ++ ")"

def compactEach : List Listing → List String
  | [] => []
  | entry :: rest => entry.compact :: compactEach rest

def compactFields : List (String × Listing) → List String
  | [] => []
  | (name, value) :: rest => (name ++ ": " ++ value.compact) :: compactFields rest

end

/-- Four spaces for each level of nesting. -/
def margin (depth : Nat) : String :=
  String.ofList (List.replicate (4 * depth) ' ')

/-- Entries each on a line of its own, followed by a comma. -/
def block (depth : Nat) (entries : List String) : String :=
  "\n" ++ String.join (entries.map fun entry => margin (depth + 1) ++ entry ++ ",\n") ++ margin depth

mutual

/-- The listing with one entry to a line, for a value that itself stands at `depth`. -/
def prettyAt (depth : Nat) : Listing → String
  | .leaf text => text
  | .list [] => "[]"
  | .list entries => "[" ++ block depth (prettyEach (depth + 1) entries) ++ "]"
  | .record name [] => name
  | .record name fields => name ++ " \x7b" ++ block depth (prettyFields (depth + 1) fields) ++ "\x7d"
  | .wrapped name [] => name
  | .wrapped name values => name ++ "(" ++ block depth (prettyEach (depth + 1) values) ++ ")"

def prettyEach (depth : Nat) : List Listing → List String
  | [] => []
  | entry :: rest => entry.prettyAt depth :: prettyEach depth rest

def prettyFields (depth : Nat) : List (String × Listing) → List String
  | [] => []
  | (name, value) :: rest => (name ++ ": " ++ value.prettyAt depth) :: prettyFields depth rest

end

def pretty (listing : Listing) : String :=
  listing.prettyAt 0

end Listing

end RingDeque
