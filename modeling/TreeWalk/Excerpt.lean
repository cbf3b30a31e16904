import TreeWalk.Diagnostic
import TreeWalk.Text.Blank

/-! A diagnostic shown in its source text. The lines it speaks of are printed with their numbers and
underlined, and the messages hang below them; lines between them are left out. Everything is counted
in characters, of which each takes one column, a tab apart. -/

namespace TreeWalk.Excerpt

/-- A message attached to the characters from `start` up to `stop`. -/
structure Label where
  start : Nat
  stop : Nat
  message : String

/-- A line of the source with its offset; `chars` holds the line break as well. -/
structure SourceLine where
  offset : Nat
  chars : List Char

/-- Cuts a text after each line break; no empty piece is left at the end. -/
def cut (current : List Char) : List Char → List (List Char)
  | [] => if current.isEmpty then [] else [current.reverse]
  | c :: cs => if c = '\n' then (c :: current).reverse :: cut [] cs else cut (c :: current) cs

/-- The lines with their offsets, from `offset` on. -/
def place (offset : Nat) : List (List Char) → List SourceLine
  | [] => []
  | piece :: rest => ⟨offset, piece⟩ :: place (offset + piece.length) rest

def sourceLines (source : List Char) : List SourceLine := place 0 (cut [] source)

/-- Where the text between two line breaks lies. -/
def spans (offset length : Nat) : List Char → List (Nat × Nat)
  | [] => [(offset, offset + length)]
  | c :: cs =>
    if c = '\n' then (offset, offset + length) :: spans (offset + length + 1) 0 cs
    else spans offset (length + 1) cs

/-- Where a line lies. Lines count from one. -/
def span? (source : List Char) (line : Line) : Option (Nat × Nat) :=
  match line.toNat with
  | 0 => none
  | i + 1 => (spans 0 0 source)[i]?

/-- The index of the last line that starts at or before an offset. -/
def find (lines : List SourceLine) (offset : Nat) : Nat :=
  (lines.takeWhile (·.offset ≤ offset)).length - 1

def blanks (n : Nat) : List Char := List.replicate n ' '

/-- A label on a line: the column its message hangs from, its columns and its message. -/
structure Hook where
  column : Nat
  start : Nat
  stop : Nat
  message : String

/-- The labels that lie on a line, from left to right. -/
def hooks (line : SourceLine) (labels : List Label) : List Hook :=
  let here := labels.filter fun l =>
    decide (line.offset ≤ l.start) && decide (l.stop ≤ line.offset + line.chars.length)
  let placed := here.map fun l =>
    Hook.mk ((l.start + l.stop) / 2 - line.offset) (l.start - line.offset) (l.stop - line.offset) l.message
  placed.mergeSort fun a b => a.column < b.column || a.column == b.column && b.start ≤ a.start

/-- The columns that a character takes; a tab goes to the next multiple of four. -/
def columns (text : List Char) (k : Nat) : Nat :=
  if text[k]? = some '\t' then (k / 4 + 1) * 4 - k else 1

/-- The text of a line with every white space as blanks. -/
def shown (text : List Char) : List Char :=
  (text.zipIdx.map fun (c, k) =>
    if c = '\t' then blanks (columns text k) else if Text.isBlank c then [' '] else [c]).flatten

/-- Draws the columns `0`, …, `count - 1`, each a character and what fills a wide column. -/
def draw (text : List Char) (count : Nat) (cell : Nat → Char × Char) : List Char :=
  ((List.range count).map fun k =>
    let (c, tail) := cell k
    c :: List.replicate (columns text k - 1) tail).flatten

/-- The line that carries the bars of the hooks still to be drawn; the first one underlines all labels. -/
def barCell (isFirst : Bool) (all rest : List Hook) (k : Nat) : Char × Char :=
  let bar := rest.any (·.column == k)
  let under := isFirst && all.any fun h => decide (h.start ≤ k) && decide (k < h.stop)
  match bar, under with
  | true, true => ('┬', '─')
  | true, false => ('│', ' ')
  | false, true => ('─', '─')
  | false, false => (' ', ' ')

/-- The line that leads from a hook to its message. -/
def arrowCell (hook : Hook) (rest : List Hook) (k : Nat) : Char × Char :=
  if k = hook.column then ('╰', '─')
  else if hook.column < k then ('─', '─')
  else if rest.any (·.column == k) then ('│', ' ')
  else (' ', ' ')

/-- The lines below a source line, two for each hook. -/
def below (margin text : List Char) (count : Nat) (all : List Hook) (isFirst : Bool) : List Hook → List Char
  | [] => []
  | hook :: rest =>
    margin ++ draw text count (barCell isFirst all (hook :: rest)) ++ '\n' ::
      (margin ++ draw text count (arrowCell hook (hook :: rest)) ++ ' ' :: (hook.message.toList ++ '\n' ::
        below margin text count all false rest))

/-- A number filled up with blanks on its left. -/
def padded (width n : Nat) : List Char :=
  let digits := Nat.toDigits 10 n
  blanks (width - digits.length) ++ digits

/-- A source line with the hooks on it. -/
def annotated (width number : Nat) (margin : List Char) (line : SourceLine) (hs : List Hook) : List Char :=
  let text := Text.trimEnd line.chars
  let count := (hs.map (·.stop)).foldl max 0 + 2
  ' ' :: (padded width number ++ ' ' :: '│' :: ' ' :: (shown text ++ '\n' :: below margin text count hs true hs))

/-- The lines from number `number` on; one mark stands for neighbouring lines without labels. -/
def body (width : Nat) (margin : List Char) (labels : List Label) (number : Nat) (skipped : Bool) :
    List SourceLine → List Char
  | [] => []
  | line :: rest =>
    match hooks line labels with
    | [] => (if skipped then [] else margin ++ ['\n']) ++ body width margin labels (number + 1) true rest
    | hs => annotated width number margin line hs ++ body width margin labels (number + 1) false rest

/-- The labels of a diagnostic and a remark for a note that lies outside the text. -/
def labelsOf (source : List Char) (d : Diagnostic) (span : Nat × Nat) : List Label × Option String :=
  let main : Label := ⟨span.1, span.2, d.message⟩
  match d.note with
  | none => ([main], none)
  | some note =>
    match span? source note.line with
    | some (start, stop) => ([main, ⟨start, stop, note.message⟩], none)
    | none => ([main], some ("line " ++ toString note.line.toNat ++ ": " ++ note.message))

/-- The frame around the lines: where the diagnostic lies, the lines and the remark. -/
def frame (lines : List SourceLine) (labels : List Label) (start : Nat) (remark : Option String) : List Char :=
  let lowest := (labels.map (·.start)).foldl min start
  let highest := max ((labels.map (·.stop)).foldl max 0 - 1) lowest
  let first := find lines lowest
  let last := find lines highest
  let width := (Nat.toDigits 10 (last + 1)).length
  let gutter := blanks (width + 2)
  let margin := gutter ++ ['│', ' ']
  let i := find lines start
  let column := start - ((lines[i]?.map (·.offset)).getD 0) + 1
  let place := "╭─[<unknown>:" ++ toString (i + 1) ++ ":" ++ toString column ++ "]\n"
  gutter ++ place.toList ++ gutter ++ ['│', '\n'] ++
    body width margin labels (first + 1) false ((lines.drop first).take (last + 1 - first)) ++
    (match remark with
      | some text => margin ++ ['\n'] ++ margin ++ ("Note: " ++ text).toList ++ ['\n']
      | none => []) ++
    List.replicate (width + 2) '─' ++ ['╯', '\n']

/-- The excerpt for a diagnostic; nothing if its line is not in the source. -/
def render? (source filename : String) (d : Diagnostic) : Option String := do
  let chars := source.toList
  let span ← span? chars d.line
  let (labels, remark) := labelsOf chars d span
  let headline := "Error: " ++ d.message ++ " (in " ++ filename ++ ")\n"
  let lines := sourceLines chars
  if lines.isEmpty then return headline
  else return headline ++ String.ofList (frame lines labels span.1 remark)

end TreeWalk.Excerpt
