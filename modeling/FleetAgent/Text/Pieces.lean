/-
# Cutting texts into pieces

Texts are cut at separator characters (`splitAt`), at the first occurrence of a pattern
(`cut?`) and at line ends (`linesBy`).  A line ends with a line feed, and one carriage return
in front of that line feed belongs to the line end; a text that does not end with a line
feed has an unterminated last line.
-/
namespace FleetAgent.Text

/-- The maximal separator-free pieces of a text, in order; `acc` holds the current piece in
reverse and `done` the finished ones, also in reverse. -/
def splitAtAux {α : Type} (p : α → Bool) : List α → List α → List (List α) → List (List α)
  | [], acc, done => (acc.reverse :: done).reverse
  | c :: cs, acc, done =>
    if p c then splitAtAux p cs [] (acc.reverse :: done) else splitAtAux p cs (c :: acc) done

/-- The pieces between the elements that satisfy `p`: always one more than there are
separators. -/
def splitAt {α : Type} (p : α → Bool) (s : List α) : List (List α) :=
  splitAtAux p s [] []

/-- Looks for the first occurrence of `pat`; `acc` holds what precedes, in reverse. -/
def cutAux (pat : List Char) : List Char → List Char → Option (List Char × List Char)
  | [], acc => if pat = [] then some (acc.reverse, []) else none
  | c :: cs, acc =>
    if pat.isPrefixOf (c :: cs) then some (acc.reverse, (c :: cs).drop pat.length)
    else cutAux pat cs (c :: acc)

/-- What stands before and after the first occurrence of `pat`, if it occurs. -/
def cut? (pat s : List Char) : Option (List Char × List Char) :=
  cutAux pat s []

/-- What stands after the first occurrence of the character `c`, together with what stands
before it. -/
def cutAt? (c : Char) (s : List Char) : Option (List Char × List Char) :=
  cut? [c] s

/-- Drops one `cr` at the end of a line. -/
def dropReturn {α : Type} [BEq α] (cr : α) (line : List α) : List α :=
  match line.reverse with
  | c :: rest => if c == cr then rest.reverse else line
  | [] => line

/-- The lines that the pieces between line feeds make: each piece but the last is a
terminated line, and the last one is an unterminated line unless it is empty. -/
def linesOfPieces {α : Type} [BEq α] (cr : α) : List (List α) → List (List α)
  | [] => []
  | [last] => if last.isEmpty then [] else [last]
  | line :: rest => dropReturn cr line :: linesOfPieces cr rest

/-- The lines of a sequence without their ends, for a given line feed and carriage return.
An unterminated last line keeps a carriage return at its end. -/
def linesBy {α : Type} [BEq α] (lf cr : α) (s : List α) : List (List α) :=
  linesOfPieces cr (splitAt (· == lf) s)

/-- The lines of a text. -/
def lines (s : List Char) : List (List Char) :=
  linesBy '\n' '\r' s

/-- Texts joined by a separator. -/
def join (sep : String) (parts : List String) : String :=
  sep.intercalate parts

end FleetAgent.Text
