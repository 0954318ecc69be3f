import WorkflowLang.Diagnostic
import WorkflowLang.Report.Style
import WorkflowLang.Text.Excerpt
import WorkflowLang.Text.Pieces
import WorkflowLang.Text.WhiteSpace

/-!
# Reports on the terminal

A report shows a diagnostic to a person: a header, the place in its file, and an
excerpt of the source.  The excerpt is taken as the text it is, and its lines are
cut again where their gutters end.  Where there is no excerpt, there is no report.
-/

namespace WorkflowLang

/-- A diagnostic with what is needed to show it. -/
structure Report where
  diagnostic : Diagnostic
  file : Option String
  source : Option String
  context : Nat
  deriving DecidableEq, Inhabited, Repr

namespace Report

def defaultContext : Nat := 2

/-- What a report says, however it is worded. -/
structure Content where
  severity : Severity
  label : String
  message : String
  span : Span
  file : Option String
  source : Option String
  context : Nat
  deriving DecidableEq, Inhabited, Repr

def content (report : Report) : Content where
  severity := report.diagnostic.problem.severity
  label := report.diagnostic.problem.label
  message := report.diagnostic.problem.message
  span := report.diagnostic.span
  file := report.file
  source := report.source
  context := report.context

def headerStyle : Severity → Style
  | .error => .red
  | .warning => .yellow

/-- What stands between the gutter of an excerpt's line and its content. -/
def separator : List Char := [' ', '|', ' ']

/-- A line of an excerpt.  It is cut at the first separator: numbers and bars are
blue, and what follows a blank gutter is red, since it is a row of carets. -/
def excerptLine (isColored : Bool) (line : List Char) : String :=
  match Text.cutAt? separator line with
  | none => String.ofList line
  | some (gutter, content) =>
      let bar := " " ++ Style.blue.paint isColored "|" ++ " "
      if gutter.all Text.isWhiteSpace then
        String.ofList gutter ++ bar ++
          Style.red.paint isColored (String.ofList content)
      else
        Style.blue.paint isColored (String.ofList gutter) ++ bar ++
          String.ofList content

namespace Content

def header (isColored : Bool) (content : Content) : String :=
  let label := content.severity.label ++ "[" ++ content.label ++ "]:"
  (headerStyle content.severity).paint isColored label ++ " " ++
    Style.bold.paint isColored content.message ++ "\n"

def location (isColored : Bool) (content : Content) : String :=
  match content.file with
  | none => ""
  | some file =>
      "  " ++ Style.blue.paint isColored "-->" ++ " " ++ file ++ ":" ++
        content.span.start.display ++ "\n"

def excerpt (isColored : Bool) (content : Content) : Except Abort String :=
  match content.source with
  | none => .ok ""
  | some source =>
      (Excerpt.textAround source.toList content.span content.context).map
        fun shown =>
          String.join
            ((Text.fedLines shown.toList).map fun line =>
              excerptLine isColored line ++ "\n")

def render (isColored : Bool) (content : Content) : Except Abort String :=
  (content.excerpt isColored).map fun excerpt =>
    content.header isColored ++ content.location isColored ++ excerpt

end Content

def render (isColored : Bool) (report : Report) : Except Abort String :=
  report.content.render isColored

end Report
end WorkflowLang
