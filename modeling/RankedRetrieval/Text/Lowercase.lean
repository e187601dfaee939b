import RankedRetrieval.Text.CaseTable

set_option autoImplicit false

namespace RankedRetrieval.Text

def inRanges (ranges : Array (Nat × Nat)) (code : Nat) : Bool :=
  ranges.any fun range => range.1 ≤ code && code ≤ range.2

def isCased (c : Char) : Bool := inRanges casedRanges c.toNat

def isCaseIgnorable (c : Char) : Bool := inRanges caseIgnorableRanges c.toNat

def lowerChar (c : Char) : List Char :=
  if c.toNat < 0x80 then [if c.isUpper then Char.ofNat (c.toNat + 32) else c]
  else if c.toNat = 0x130 then ['i', Char.ofNat 0x307]
  else
    match lowercaseRuns.find? fun run =>
        run.1 ≤ c.toNat && c.toNat ≤ run.2.1 && (c.toNat - run.1) % run.2.2.1 == 0 with
    | some run => [Char.ofNat ((c.toNat : Int) + run.2.2.2).toNat]
    | none => [c]

def startsCased (text : List Char) : Bool :=
  match text.dropWhile isCaseIgnorable with
  | [] => false
  | c :: _ => isCased c

def capitalSigma : Char := Char.ofNat 0x3A3

/-- A capital sigma ends a word when a cased character stands before it and none after it,
case-ignorable characters aside. `before` is what has been read, last character first. -/
def lowerFrom (before : List Char) : List Char → List Char
  | [] => []
  | c :: rest =>
    let form :=
      if c = capitalSigma then
        [if startsCased before && !startsCased rest then Char.ofNat 0x3C2 else Char.ofNat 0x3C3]
      else lowerChar c
    form ++ lowerFrom (c :: before) rest

def lowercase (text : String) : String := String.ofList (lowerFrom [] text.toList)

end RankedRetrieval.Text
