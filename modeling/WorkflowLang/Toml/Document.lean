import WorkflowLang.Toml.Value

/-!
# TOML documents

A document is a sequence of statements, one on a line.  A header opens the
table that the entries behind it go into.  A text is a document if it can be
split into statements and none of them defines anything a second time.
-/

namespace WorkflowLang
namespace Toml

/-- What a line of a document may hold. -/
inductive Statement where
  | tableHeader (path : List String) (key : String)
  | rowHeader (path : List String) (key : String)
  | entry (path : List String) (key : String) (item : Item)
  deriving Inhabited

namespace Statement

/-- The header of a table in an array of tables. -/
def readRowHeader : Reader Statement := do
  Reader.word "[["
  let (path, key) ← key
  Reader.word "]]"
  return .rowHeader path key

def readTableHeader : Reader Statement := do
  let _ ← Reader.char '['
  let (path, key) ← key
  let _ ← Reader.char ']'
  return .tableHeader path key

def readEntry : Reader Statement := do
  let ((path, key), item) ← assignment value
  return .entry path key item

def readLine : Reader (Option Statement) := do
  blanks
  let statement ← optional (readRowHeader <|> readTableHeader <|> readEntry)
  lineEnd
  return statement

/-- The statements of a whole text, which may begin with a byte order mark. -/
def readAll : Reader (List Statement) := do
  let _ ← optional (Reader.char (Char.ofNat 0xfeff))
  let lines ← Reader.many readLine
  Reader.finish
  return lines.filterMap id

end Statement

/-- The document's table while its statements are carried out. -/
structure Construction where
  /-- The path of the table that entries go into. -/
  current : List String
  entries : Entries
  deriving Inhabited

namespace Construction

def start : Construction := ⟨[], []⟩

def step (construction : Construction) :
    Statement → Option Construction
  | .tableHeader path key => do
      let entries ← construction.entries.edit .implied
        (Entries.openTable key) path .header
      return ⟨path ++ [key], entries⟩
  | .rowHeader path key => do
      let entries ← construction.entries.edit .implied
        (Entries.openRow key) path .header
      return ⟨path ++ [key], entries⟩
  | .entry path key item => do
      let entries ← construction.entries.edit .implied
        (fun origin entries => entries.define path key item origin)
        construction.current .header
      return { construction with entries := entries }

end Construction

def parse? (text : String) : Option Entries := do
  let (statements, _) ← Statement.readAll text.toList
  let built ← statements.foldlM Construction.step Construction.start
  return built.entries

end Toml
end WorkflowLang
