import TreeWalk.Tree.Basic

/-! Where the lines of a source text lie, in bytes. A line is what stands before, between and after the
line breaks, so a text has one line more than line breaks. -/

namespace TreeWalk

/-- The offset of each line, and of the end of the text. -/
structure LineIndex where
  starts : List Nat
  length : Nat

namespace LineIndex

/-- The offsets after the line breaks of a text that starts at `offset`. -/
def startsAfterBreaks (offset : Nat) : List Char → List Nat
  | [] => []
  | c :: cs =>
    let next := offset + c.utf8Size
    if c = '\n' then next :: startsAfterBreaks next cs else startsAfterBreaks next cs

def ofSource (source : String) : LineIndex :=
  ⟨0 :: startsAfterBreaks 0 source.toList, source.utf8ByteSize⟩

/-- Where a line starts and ends, its line break left out. Lines count from one. -/
def range? (index : LineIndex) (line : Line) : Option (Nat × Nat) :=
  match line.toNat with
  | 0 => none
  | i + 1 => do
    let start ← index.starts[i]?
    match index.starts[i + 1]? with
    | some next => return (start, next - 1)
    | none => return (start, index.length)

end LineIndex

end TreeWalk
