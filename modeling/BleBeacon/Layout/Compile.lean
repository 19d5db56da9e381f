import BleBeacon.Layout.Token
import BleBeacon.Text.Blank

/-!
# Compiling layout texts

A layout text is a list of tokens separated by commas; blanks around a token and empty tokens do not
count. Tokens are added from left to right, and the first one that is refused decides the error,
whatever follows it.
-/

namespace BleBeacon.Layout

/-- The tokens of a text. -/
def tokens (text : List Char) : List (List Char) :=
  ((text.splitOn ',').map Text.trim).filter fun token => !token.isEmpty

/-- Adds the field of a token. A second field of a kind that does not repeat is refused before the
rest of its token is read, a field beyond the capacity of its kind only after that. -/
def add (layout : Layout) (text : List Char) : Except LayoutFault Layout :=
  match Token.parse text with
  | .error fault => .error fault
  | .ok token =>
      if token.kind.repeats = false ∧ 0 < layout.count token.kind then .error .duplicateField
      else
        match token.field with
        | .error fault => .error fault
        | .ok field =>
            if layout.count token.kind < token.kind.capacity then .ok (layout.insert field)
            else .error .tooManyFields

/-- Adds tokens in order, up to the first one that is refused. -/
def addAll (layout : Layout) : List (List Char) → Except LayoutError Layout
  | [] => .ok layout
  | token :: rest =>
      match layout.add token with
      | .ok extended => extended.addAll rest
      | .error fault => .error (.blame token fault)

/-- The layout that a text denotes. A text without tokens is refused as a whole. -/
def parse (text : List Char) : Except LayoutError Layout :=
  if (tokens text).isEmpty then .error (.blame text .emptyLayout)
  else empty.addAll (tokens text)

/-- The layout that a string denotes. -/
def compile (text : String) : Except LayoutError Layout :=
  parse text.toList

end BleBeacon.Layout
