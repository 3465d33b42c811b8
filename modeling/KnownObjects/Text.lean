/-!
# Columns and digits

The two ways in which every text of the library is laid out: a piece of text in a column of a given width, and a number in lower-case hexadecimal digits. A column never cuts: text that is wider than its column is written whole.
-/

namespace KnownObjects.Text

def blanks (count : Nat) : String := String.ofList (List.replicate count ' ')

def left (width : Nat) (text : String) : String := text ++ blanks (width - text.length)

def right (width : Nat) (text : String) : String := blanks (width - text.length) ++ text

/-- Lower-case hexadecimal digits without leading zeros; zero is written `0`. -/
def hex (n : Nat) : String := String.ofList (Nat.toDigits 16 n)

/-- Lower-case hexadecimal digits, filled up with leading zeros to at least `width` of them. -/
def hexFilled (width n : Nat) : String :=
  String.ofList (List.replicate (width - (Nat.toDigits 16 n).length) '0') ++ hex n

def quoted (text : String) : String := "\"" ++ text ++ "\""

end KnownObjects.Text
