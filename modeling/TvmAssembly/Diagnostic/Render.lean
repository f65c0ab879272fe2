import TvmAssembly.Diagnostic.Report
import TvmAssembly.Text.Blank
import TvmAssembly.Text.Numeral

/-!
# Drawn reports

A renderer to run the library with. It takes the offsets of a label for columns and draws a report
under its source: a header, the place, the line with the label underlined, help and the last note,
all in a frame. It knows how to draw a single line of characters that take one column each, and
declines every other source, such as one with a tab or with a second line. The drawing is laid out
once, in strokes of one ink each; plain text and colored text are two ways to put the strokes on
paper.
-/

namespace TvmAssembly

inductive Ink where
  | mark (color : Color)
  | frame
  | margin
  /-- Source outside the label. -/
  | source
  | advice
deriving DecidableEq, Repr

/-- The parameters of the escape sequence that selects the ink. -/
def Ink.code : Ink → String
  | mark .red => "31"
  | mark .yellow => "33"
  | frame => "38;5;246"
  | margin => "38;5;240"
  | source => "38;5;249"
  | advice => "38;5;115"

structure Stroke where
  ink : Option Ink
  text : String
deriving DecidableEq, Repr

namespace Stroke

def bare (text : String) : Stroke := ⟨none, text⟩

def drawn (ink : Ink) (text : String) : Stroke := ⟨some ink, text⟩

def plain (s : Stroke) : String := s.text

def colored (s : Stroke) : String :=
  match s.ink with
  | none => s.text
  | some ink => "\x1b[" ++ ink.code ++ "m" ++ s.text ++ "\x1b[0m"

end Stroke

namespace Text

/-- Blank characters that end a line, and the tab, whose width depends on its place. -/
def layoutCodes : List Nat := [0x09, 0x0A, 0x0B, 0x0C, 0x0D, 0x85, 0x2028, 0x2029]

/-- Ranges of characters that take one column: letters of Latin, Greek and Cyrillic without
combining marks, punctuation, currencies, arrows, operators and boxes. -/
def singleColumnRanges : List (Nat × Nat) :=
  [(0x20, 0x7E), (0xA0, 0xAC), (0xAE, 0x2FF), (0x370, 0x482), (0x48A, 0x52F), (0x1E00, 0x1FFF),
    (0x2010, 0x2027), (0x2030, 0x205E), (0x20A0, 0x20C0), (0x2100, 0x214F), (0x2190, 0x22FF),
    (0x2500, 0x25FC)]

/-- Whether the character is known to take one column. -/
def isSingleColumn (c : Char) : Bool :=
  !layoutCodes.contains c.toNat &&
    (isBlank c || singleColumnRanges.any fun (first, last) => first ≤ c.toNat && c.toNat ≤ last)

end Text

namespace Label

/-- Where the message hangs from the line under the label. -/
def anchor (l : Label) : Nat := (l.first + l.past) / 2

/-- Whether the source has the place that the label points at. -/
def isPlaced (l : Label) (source : List Char) : Bool :=
  !source.isEmpty && l.first ≤ source.length &&
    (l.past ≤ l.first || l.past ≤ source.length + 1)

def ink (l : Label) : Ink := .mark l.color

/-- How a character of the source is drawn: every blank one as a space. -/
def glyph (c : Char) : Char :=
  if Text.isBlank c then ' ' else c

/-- The source, each character in the ink of the label or of what is outside. -/
def sourceStrokes (l : Label) (source : List Char) : List Stroke :=
  (Text.trimEnd source).zipIdx.map fun (c, column) =>
    .drawn (if l.covers column then l.ink else .source) (glyph c).toString

/-- Below the source: the label underlined, and the stem of the message. -/
def underline (l : Label) : List Char :=
  (List.range (l.past + 2)).map fun column =>
    if column = l.anchor then if l.covers column then '┬' else '│'
    else if l.covers column then '─' else ' '

/-- The branch from the stem to the message. -/
def branch (l : Label) : List Char :=
  (List.range (l.past + 2)).map fun column =>
    if column < l.anchor then ' ' else if column = l.anchor then '╰' else '─'

/-- A column below the source; spaces are left bare. -/
def drawColumn (l : Label) (c : Char) : Stroke :=
  if c = ' ' then .bare " " else .drawn l.ink c.toString

end Label

namespace Report

def title (r : Report) : Stroke :=
  .drawn (.mark r.severity.color) <|
    match r.severity with
    | .error => "Error:"
    | .warning => "Warning:"

def blankMargin : List Stroke :=
  [.bare " ", .drawn .margin "  │", .bare " "]

/-- The quoted source with its mark. A label that ends beyond the source leaves the quote blank. -/
def quote (r : Report) (source : List Char) : List (List Stroke) :=
  let l := r.label
  if source.length < l.past then [blankMargin]
  else
    [[.bare " ", .drawn .frame "1 │", .bare " "] ++ l.sourceStrokes source,
      blankMargin ++ l.underline.map l.drawColumn,
      blankMargin ++ l.branch.map l.drawColumn ++ [.bare (" " ++ l.message)]]

def adviceLines (title text : String) : List (List Stroke) :=
  [blankMargin, blankMargin ++ [.drawn .advice title, .bare (": " ++ text)]]

def advice (r : Report) : List (List Stroke) :=
  (r.help.elim [] (adviceLines "Help")) ++ (r.notes.getLast?.elim [] (adviceLines "Note"))

def place (r : Report) : List Stroke :=
  [.bare "   ", .drawn .frame "╭", .drawn .frame "─", .drawn .frame "[",
    .bare s!"{r.origin}:1:{Text.decimal (r.offset + 1)}", .drawn .frame "]"]

/-- The lines of the drawing. If the source does not have the place, the header is all of it. -/
def layout (r : Report) (source : List Char) : List (List Stroke) :=
  let header := [r.title, .bare (" " ++ r.message)]
  if r.label.isPlaced source then
    [header, r.place, [.bare "   ", .drawn .frame "│"]] ++ r.quote source ++ r.advice ++
      [[.drawn .frame "───╯"]]
  else [header]

def onPaper (put : Stroke → String) (drawing : List (List Stroke)) : String :=
  String.join (drawing.map fun line => String.join (line.map put) ++ "\n")

/-- The drawing under a source that can be drawn. -/
def draw : Renderer := fun r source =>
  if source.toList.all Text.isSingleColumn then
    some (onPaper (if r.isColored then Stroke.colored else Stroke.plain) (r.layout source.toList))
  else none

end Report

def Diagnostic.render (d : Diagnostic) (origin source : String) : String :=
  d.renderWith Report.draw origin source

def renderAllColored (ds : List Diagnostic) (origin source : String) : String :=
  (Diagnostic.renderAllWith Report.draw ds origin source).1

end TvmAssembly
