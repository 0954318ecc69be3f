import WorkflowLang.Layout.Comments
import WorkflowLang.Layout.Plan
import WorkflowLang.Compilation

/-!
# Canonical layout

A document without syntax errors is laid out anew by weaving its comments into
the lines planned for its tree.  The tokens of such a tree are the tokens of the
text in the same order, so lines and commented tokens are consumed side by side.

Comments before the first token of a line get lines of their own.  One comment
may end a line; comments that stand elsewhere among the tokens of a line wait
for the next line.
-/

namespace WorkflowLang
namespace Layout

structure PrintedLine where
  depth : Nat
  text : String
  comment : Option String
  deriving DecidableEq, Inhabited, Repr

namespace PrintedLine

def blank : PrintedLine := ⟨0, "", none⟩

def ofComment (depth : Nat) (comment : String) : PrintedLine :=
  ⟨depth, comment, none⟩

def copies (count : Nat) (text : String) : String :=
  String.join (List.replicate count text)

/-- A line as text, without its break.  An empty line is not indented. -/
def render (indent : String) (line : PrintedLine) : String :=
  let body :=
    if line.text.isEmpty then "" else copies line.depth indent ++ line.text
  match line.comment with
  | none => body
  | some comment => body ++ " " ++ comment

end PrintedLine

/-- The text of a token that is not the first of its line. -/
def laterTokenText (token : Token) : String :=
  if token.kind = .comma then token.text else " " ++ token.text

/-- The text of a line whose first token is padded to a width. -/
def lineText (width : Nat) : List Token → String
  | [] => ""
  | first :: others =>
      first.text ++ PrintedLine.copies (width - first.text.length) " " ++
        String.join (others.map laterTokenText)

/-- The comment at the end of a line, and the comments that wait for the next
line, from the tokens behind the first one. -/
def settleComments (comment : Option String) :
    List CommentedToken → Option String × List String
  | [] => (comment, [])
  | token :: others =>
      match comment with
      | none =>
          let settled := settleComments token.trailing others
          (settled.1, token.leading ++ settled.2)
      | some kept =>
          let settled := settleComments (some kept) others
          (settled.1, token.leading ++ token.trailing.toList ++ settled.2)

/-- Weaves comments into planned lines, when the comments `pending` wait for the
next line.  The answer is the printed lines and the comments still waiting. -/
def weave (pending : List String) (tokens : List CommentedToken) :
    List PlannedLine → List PrintedLine × List String
  | [] => ([], pending)
  | .blank :: others =>
      let woven := weave pending tokens others
      (PrintedLine.blank :: woven.1, woven.2)
  | .tokens depth commentDepth width planned :: others =>
      let here := tokens.take planned.length
      let first := here.head?
      let before :=
        pending ++ (first.map CommentedToken.leading).getD []
      let settled :=
        settleComments (first.bind CommentedToken.trailing) here.tail
      let woven := weave settled.2 (tokens.drop planned.length) others
      (before.map (PrintedLine.ofComment commentDepth) ++
          ⟨depth, lineText width planned, settled.1⟩ :: woven.1,
        woven.2)

/-- The lines of a whole document.  Its closing comments come last, behind a
blank line unless there is nothing else. -/
def printedLines (tree : SyntaxTree) (text : CommentedText) :
    List PrintedLine :=
  let woven := weave [] text.tokens (treeLines tree)
  let lines := woven.1 ++ woven.2.map (PrintedLine.ofComment 0)
  let gap :=
    if text.closing.isEmpty || lines.isEmpty then [] else [PrintedLine.blank]
  lines ++ gap ++ text.closing.map (PrintedLine.ofComment 0)

/-- A carriage return right before a line feed occurs in a text. -/
def hasCarriageReturns : List Char → Bool
  | '\r' :: '\n' :: _ => true
  | _ :: rest => hasCarriageReturns rest
  | [] => false

/-- The line break of a layout: the two-character one if the text has any. -/
def lineBreak (text : String) : String :=
  if hasCarriageReturns text.toList then "\r\n" else "\n"

end Layout

/-- The canonical layout of a document, each level indented by `indent`; nothing
when the document has syntax errors. -/
def Compilation.format? (compilation : Compilation) (indent : String) :
    Option String :=
  if compilation.hasSyntaxErrors then none
  else
    let lines :=
      Layout.printedLines compilation.tree
        (Layout.CommentedText.ofTokens compilation.tokens)
    let newline := Layout.lineBreak compilation.text
    some (String.join
      (lines.map fun line => line.render indent ++ newline))

end WorkflowLang
