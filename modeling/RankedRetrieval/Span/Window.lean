import RankedRetrieval.Span.Basic

set_option autoImplicit false

namespace RankedRetrieval.Window

inductive Chain where
  /-- A span was found in every list; the last one ends at `stop`. -/
  | found (stop : Nat) (lists : List (List Span))
  /-- The next span is too far away. -/
  | gap (lists : List (List Span))
  /-- A list has no span from here on. -/
  | exhausted

def Chain.cons (list : List Span) : Chain → Chain
  | found stop lists => found stop (list :: lists)
  | gap lists => gap (list :: lists)
  | exhausted => exhausted

/-- Take from each list the first span that starts at or after the end of the one before. -/
def follow (width : Nat) : Nat → List (List Span) → Chain
  | stop, [] => .found stop []
  | stop, list :: lists =>
    match list.dropWhile fun s => s.start < stop with
    | [] => .exhausted
    | s :: rest =>
      if width ≤ s.start - stop then .gap ((s :: rest) :: lists)
      else (follow width s.stop lists).cons (s :: rest)

/-- The windows from each start of the first list. Once a list is exhausted no later start has a
window. -/
def orderedFrom (width : Nat) : List Span → List (List Span) → List Span
  | [], _ => []
  | s :: starts, lists =>
    match follow width s.stop lists with
    | .found stop lists => { start := s.start, stop } :: orderedFrom width starts lists
    | .gap lists => orderedFrom width starts lists
    | .exhausted => []

def ordered (width : Nat) : List (List Span) → List Span
  | [] => []
  | first :: rest => orderedFrom width first rest

/-- What is left of a list that is not empty: its first span and the others. -/
abbrev Front := Span × List Span

def fronts : List (List Span) → Option (List Front)
  | [] => some []
  | [] :: _ => none
  | (s :: rest) :: lists => (fronts lists).map ((s, rest) :: ·)

def hull : List Front → Span
  | [] => { start := 0, stop := 0 }
  | [(s, _)] => s
  | (s, _) :: front :: rest =>
    let others := hull (front :: rest)
    { start := min s.start others.start, stop := max s.stop others.stop }

/-- Go on in the first list whose first span starts at `start`; none if the list ends there. -/
def advance (start : Nat) : List Front → Option (List Front)
  | [] => none
  | (s, rest) :: lists =>
    if s.start = start then
      match rest with
      | [] => none
      | next :: rest => some ((next, rest) :: lists)
    else (advance start lists).map ((s, rest) :: ·)

def behind : List Front → Nat
  | [] => 0
  | (_, rest) :: lists => rest.length + behind lists

theorem behind_advance {start : Nat} {lists next : List Front}
    (h : advance start lists = some next) :
    behind next + 1 = behind lists := by
  induction lists generalizing next with
  | nil => cases h
  | cons front lists ih =>
    obtain ⟨s, rest⟩ := front
    simp only [advance] at h
    split at h
    · split at h
      · cases h
      · cases h
        simp only [behind, List.length_cons]
        omega
    · obtain ⟨left, e, rfl⟩ := Option.map_eq_some_iff.1 h
      simp only [behind, ← ih e]
      omega

/-- The windows over the first spans, each time going on where the earliest span is. -/
def unorderedFrom (width : Nat) (lists : List Front) : List Span :=
  let window := hull lists
  let rest :=
    match _moved : advance window.start lists with
    | none => []
    | some next => unorderedFrom width next
  if window.stop - window.start ≤ width then window :: rest else rest
termination_by behind lists
decreasing_by
  have := behind_advance _moved
  omega

def unordered (width : Nat) (lists : List (List Span)) : List Span :=
  match fronts lists with
  | none | some [] => []
  | some fronts => unorderedFrom width fronts

end RankedRetrieval.Window
