import RankedRetrieval.Text.Lowercase
import RankedRetrieval.Text.Unprintable

set_option autoImplicit false

namespace RankedRetrieval.Text

def hexDigits (n : Nat) : List Char := Nat.toDigits 16 n

def isPrintable (c : Char) : Bool :=
  if c.toNat < 0x80 then 0x20 ≤ c.toNat && c.toNat < 0x7F else !inRanges unprintableRanges c.toNat

def quoteChar (c : Char) : List Char :=
  if c = '"' then ['\\', '"']
  else if c = '\\' then ['\\', '\\']
  else if c.toNat = 0 then ['\\', '0']
  else if c.toNat = 9 then ['\\', 't']
  else if c.toNat = 10 then ['\\', 'n']
  else if c.toNat = 13 then ['\\', 'r']
  else if isPrintable c then [c]
  else ['\\', 'u', '\x7b'] ++ hexDigits c.toNat ++ ['\x7d']

def quoted (text : String) : String := "\"" ++ String.ofList (text.toList.flatMap quoteChar) ++ "\""

end RankedRetrieval.Text
