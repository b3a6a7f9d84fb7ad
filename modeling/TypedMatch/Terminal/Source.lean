import TypedMatch.Terminal.Blank
import TypedMatch.Terminal.Width
import TypedMatch.Text.Lines

/-!
# Source texts on the screen

A terminal shows a source text by its lines, each with the line break that ends it.  A place right behind the
last character still belongs to the last line; anything further is nowhere.  On the screen a line is shown
without the blanks at its end.  A tab in it is as wide as the columns up to the next tab stop, any other blank
is one column wide, and a sign below a character fills the columns of that character.
-/

set_option autoImplicit false

namespace TypedMatch.Terminal

structure Source where
  lines : List (List Char)
deriving DecidableEq, Repr, Inhabited

/-- A line break ends a line.  A carriage return before a line feed leaves that to the line feed. -/
def endsLine : Text.LineEnd := fun character behind =>
  lineBreaks.contains character && !(character == '\r' && behind.head? == some '\n')

namespace Source

/-- A text as a source; an empty text is one empty line. -/
def ofString (text : String) : Source :=
  match Text.lines endsLine text.toList with
  | [] => ⟨[[]]⟩
  | lines => ⟨lines⟩

def length (source : Source) : Nat := source.lines.flatten.length

def locateIn : List (List Char) → Nat → Option Text.Place
  | [], _ => none
  | [line], number => if number ≤ line.length then some ⟨0, number⟩ else none
  | line :: more, number =>
      if number < line.length then some ⟨0, number⟩
      else (locateIn more (number - line.length)).map fun found => ⟨found.line + 1, found.column⟩

/-- The place of the character that has so many characters before it. -/
def locate (source : Source) (number : Nat) : Option Text.Place := locateIn source.lines number

def line (source : Source) (index : Nat) : List Char := source.lines.getD index []

/-! ## On the screen -/

def tabWidth : Nat := 4

/-- How many columns a character takes that has so many characters before it in its line.  Tab stops
are counted in characters, so that a tab is never wider on account of what is before it. -/
def width (index : Nat) (character : Char) : Nat :=
  if character = '\t' then tabWidth - index % tabWidth
  else if isBlank character then 1
  else columns character

def visible (line : List Char) : List Char := (line.reverse.dropWhile isBlank).reverse

def display (line : List Char) : List Char :=
  ((visible line).mapIdx fun index character =>
    if isBlank character then List.replicate (width index character) ' '
    else [character]).flatten

/-- A sign below a character: what is drawn in its first column, and what in the others. -/
structure Sign where
  first : Char
  others : Char
deriving DecidableEq, Repr, Inhabited

def Sign.columns (sign : Sign) : Nat → List Char
  | 0 => []
  | more + 1 => sign.first :: List.replicate more sign.others

/-- A row of signs below the first characters of a line, and below as many places behind its end as
are asked for. -/
def underscore (line : List Char) (count : Nat) (sign : Nat → Sign) : List Char :=
  let shown := (visible line).take count
  (shown.mapIdx fun index character => (sign index).columns (width index character)).flatten
    ++ (List.range' shown.length (count - shown.length)).map fun index => (sign index).first

end Source

end TypedMatch.Terminal
