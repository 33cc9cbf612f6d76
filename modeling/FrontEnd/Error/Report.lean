/-
**Reports of errors.**

A report says what an error is and shows the line of the source text it points to, with a caret
below the place.  A gutter on the left holds the line's number; the excerpt loses the indentation
of the line and the blanks at its end, and the caret moves left with it.

Main definitions:

* `FrontEnd.Error.headline` — the name of the error and its tip;
* `FrontEnd.Error.excerpt` — the lines that show the place;
* `FrontEnd.Error.report` — the whole report.
-/

import FrontEnd.Error
import FrontEnd.Text.Blank

set_option relaxedAutoImplicit false
set_option autoImplicit false

namespace FrontEnd

/-- The text with spaces in front of it, up to the given width. -/
def alignRight (width : Nat) (text : String) : String :=
  String.ofList (text.toList.leftpad width ' ')

namespace Error

/-- The first line of a report. -/
def headline (e : Error) : String :=
  match e.cause.tip? with
  | some tip => s!"Error: {e.cause.name} ({tip})"
  | none => s!"Error: {e.cause.name}"

def isIndent (c : Char) : Bool := c == ' ' || c == '\t'

/-- The lines that show the place `p` on the line `text`: where it is, an empty gutter, the line
beside its number, and the caret. -/
def excerpt (p : Position) (text : List Char) : List String :=
  let number := toString p.userLine
  let width := number.length + 2
  let indent := (text.takeWhile isIndent).length
  let shown := Text.trimEnd (text.dropWhile isIndent)
  let gutter := alignRight width "|"
  [s!"-> {p.describe}",
    gutter,
    s!"{number} | {String.ofList shown}",
    gutter ++ " " ++ alignRight (p.column - indent + 1) "^"]

/-- The lines of a report.  The place is shown only if the source text has its line. -/
def reportLines (e : Error) (source : String) : List String :=
  let shown := match e.position? with
    | none => []
    | some p =>
        match Text.lineAt? source.toList p.line with
        | none => []
        | some text => excerpt p text
  e.headline :: e.describe :: shown

/-- The report of an error against the source text that it comes from. -/
def report (e : Error) (source : String) : String :=
  String.join ((e.reportLines source).map (· ++ "\n"))

end Error

end FrontEnd
