set_option autoImplicit false

namespace RankedRetrieval.Json

structure Numeral where
  negative : Bool
  whole : List Char
  fraction : List Char
  power : Option (Bool × List Char)

inductive Token where
  | mark (c : Char)
  | string (raw : List Char)
  | number (n : Numeral)
  | name (letters : List Char)

def isMark (c : Char) : Bool := c = '[' || c = ']' || c = '\x7b' || c = '\x7d' || c = ':' || c = ','

def isSpace (c : Char) : Bool := c.toNat = 32 || c.toNat = 9 || c.toNat = 10 || c.toNat = 13

def isNumeric (c : Char) : Bool := c.isDigit || c = '-' || c = '+' || c = '.' || c = 'e' || c = 'E'

def isLetter (c : Char) : Bool := 'a' ≤ c && c ≤ 'z'

def isWhole : List Char → Bool
  | [] => false
  | ['0'] => true
  | c :: rest => c ≠ '0' && (c :: rest).all Char.isDigit

def readPower : List Char → Option (Option (Bool × List Char))
  | [] => some none
  | c :: rest =>
    if c = 'e' || c = 'E' then
      let (negative, digits) :=
        match rest with
        | '-' :: digits => (true, digits)
        | '+' :: digits => (false, digits)
        | digits => (false, digits)
      if digits.isEmpty || !digits.all Char.isDigit then none else some (some (negative, digits))
    else none

def readNumeral (text : List Char) : Option Numeral :=
  let (negative, rest) :=
    match text with
    | '-' :: rest => (true, rest)
    | rest => (false, rest)
  let whole := rest.takeWhile Char.isDigit
  if !isWhole whole then none
  else
    match rest.dropWhile Char.isDigit with
    | '.' :: rest =>
      let fraction := rest.takeWhile Char.isDigit
      if fraction.isEmpty then none
      else (readPower (rest.dropWhile Char.isDigit)).map fun power =>
        { negative, whole, fraction, power }
    | rest => (readPower rest).map fun power => { negative, whole, fraction := [], power }

inductive Open where
  | nothing
  | string (raw : List Char)
  | escape (raw : List Char)
  | number (raw : List Char)
  | name (raw : List Char)

structure Lexer where
  tokens : List Token
  state : Open

def Lexer.close (l : Lexer) : Option (List Token) :=
  match l.state with
  | .nothing => some l.tokens
  | .number raw => (readNumeral raw.reverse).map fun n => .number n :: l.tokens
  | .name raw => some (.name raw.reverse :: l.tokens)
  | .string _ | .escape _ => none

def Lexer.start (tokens : List Token) (c : Char) : Option Lexer :=
  if isSpace c then some { tokens, state := .nothing }
  else if isMark c then some { tokens := .mark c :: tokens, state := .nothing }
  else if c = '"' then some { tokens, state := .string [] }
  else if c = '-' || c.isDigit then some { tokens, state := .number [c] }
  else if isLetter c then some { tokens, state := .name [c] }
  else none

def Lexer.step (l : Lexer) (c : Char) : Option Lexer :=
  match l.state with
  | .string raw =>
    if c = '"' then some { tokens := .string raw.reverse :: l.tokens, state := .nothing }
    else if c = '\\' then some { l with state := .escape (c :: raw) }
    else if c.toNat < 32 then none
    else some { l with state := .string (c :: raw) }
  | .escape raw => if c.toNat < 32 then none else some { l with state := .string (c :: raw) }
  | .number raw =>
    if isNumeric c then some { l with state := .number (c :: raw) }
    else l.close.bind fun tokens => Lexer.start tokens c
  | .name raw =>
    if isLetter c then some { l with state := .name (c :: raw) }
    else l.close.bind fun tokens => Lexer.start tokens c
  | .nothing => Lexer.start l.tokens c

def tokens (text : String) : Option (List Token) :=
  (text.toList.foldlM Lexer.step { tokens := [], state := .nothing }).bind fun l =>
    l.close.map List.reverse

end RankedRetrieval.Json
