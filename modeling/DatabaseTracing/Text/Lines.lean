/-! # Lines of a text

A text that is shown line by line is cut at its line feeds. A carriage return
directly ahead of a line feed goes with it.
-/
namespace DatabaseTracing.Lines

def prepend (c : Char) : List (List Char) → List (List Char)
  | [] => [[c]]
  | line :: rest => (c :: line) :: rest

/-- The parts between the line feeds, of which there is always one more. -/
def split : List Char → List (List Char)
  | [] => [[]]
  | c :: cs => if c = '\n' then [] :: split cs else prepend c (split cs)

def dropReturn (line : List Char) : List Char :=
  if line.getLast? = some '\r' then line.dropLast else line

def ofChars (cs : List Char) : List (List Char) := (split cs).map dropReturn

end DatabaseTracing.Lines
