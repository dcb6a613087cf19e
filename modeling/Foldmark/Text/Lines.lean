/-!
# Lines of a text

Two rules for where a line ends. `lines` knows the line feed only and drops one carriage return
directly before it. `visualRows` also ends a line at the other break characters of Unicode, as a
text view does, and keeps the break with its line.
-/
namespace Foldmark.Text

/-- Cuts a text after every line feed. A text that ends in one has no empty last row. -/
def rows : List Char → List (List Char)
  | [] => []
  | c :: rest =>
    if c = '\n' then [c] :: rows rest
    else
      match rows rest with
      | [] => [[c]]
      | row :: more => (c :: row) :: more

/-- A row without its line feed and without one carriage return before it. -/
def dropFeed (row : List Char) : List Char :=
  match row.reverse with
  | '\n' :: '\r' :: back => back.reverse
  | '\n' :: back => back.reverse
  | _ => row

def lines (s : List Char) : List (List Char) :=
  (rows s).map dropFeed

def lineCount (s : List Char) : Nat :=
  (rows s).length

/-- The characters that end a line in a text view; a carriage return before a line feed does not
end one of its own. -/
def isVisualBreak (c : Char) : Bool :=
  c == '\n' || c == '\r' || c.toNat == 0xb || c.toNat == 0xc || c.toNat == 0x85 ||
    c.toNat == 0x2028 || c.toNat == 0x2029

/-- Cuts a text after every visual break. The last row holds what follows the last break, so it
is empty after a final break. -/
def visualRows : List Char → List (List Char)
  | [] => [[]]
  | c :: rest =>
    if isVisualBreak c && !(c == '\r' && rest.head? == some '\n') then [c] :: visualRows rest
    else
      match visualRows rest with
      | [] => [[c]]
      | row :: more => (c :: row) :: more

/-- A row without the line feeds and carriage returns at its end; other breaks stay. -/
def dropReturns (row : List Char) : List Char :=
  (row.reverse.dropWhile fun c => c == '\n' || c == '\r').reverse

end Foldmark.Text
