import BleBeacon.Text.Decimal
import BleBeacon.Text.Hex

/-!
# Compact JSON

The pieces of JSON text that readings and reports are written in: strings with the escapes that
control characters, quotes and backslashes need, and lists and objects without blanks. All other
characters stand for themselves.
-/

namespace BleBeacon.Json

/-- A character inside a string. -/
def escape (char : Char) : List Char :=
  if char = '"' then ['\\', '"']
  else if char = '\\' then ['\\', '\\']
  else if char = '\x08' then ['\\', 'b']
  else if char = '\t' then ['\\', 't']
  else if char = '\n' then ['\\', 'n']
  else if char = '\x0C' then ['\\', 'f']
  else if char = '\r' then ['\\', 'r']
  else if char.toNat < 0x20 then
    ['\\', 'u', '0', '0'] ++ Text.Hex.upperPair (UInt8.ofNat char.toNat)
  else [char]

def string (text : List Char) : List Char :=
  '"' :: text.flatMap escape ++ ['"']

def nat (number : Nat) : List Char :=
  Text.Decimal.ofNat number

def int (number : Int) : List Char :=
  Text.Decimal.ofInt number

def array (items : List (List Char)) : List Char :=
  '[' :: [','].intercalate items ++ [']']

/-- A member of an object: its key and its value, which is JSON text already. -/
def member (key : String) (value : List Char) : List Char :=
  string key.toList ++ ':' :: value

def object (members : List (List Char)) : List Char :=
  '{' :: [','].intercalate members ++ ['}']

end BleBeacon.Json
