import WorkflowLang.Session.CompilationCache
import WorkflowLang.Editor.Completion
import WorkflowLang.Editor.Hover
import WorkflowLang.Editor.Navigation
import WorkflowLang.Editor.Rename
import WorkflowLang.Editor.Outline
import WorkflowLang.Editor.Reformat
import WorkflowLang.Text.Escape
import WorkflowLang.Uri

/-!
# Sessions with an editor

An editor opens, changes and closes documents and asks for features of them.  A
session keeps the latest text of every open document and a cache of their
compilations.  Every new text is answered by its diagnostics; closing a document
takes its diagnostics back.  After a shutdown requests are refused and
everything else is ignored.

Documents are told apart by their URIs.  The session compares the texts of URIs,
so a message is made from the URI that an editor writes by `Message.about`, which
brings it into the one form that it has.
-/

namespace WorkflowLang

structure OpenDocument where
  version : Int
  text : String
  deriving DecidableEq, Inhabited, Repr

inductive Feature where
  | completion (position : Position)
  | hover (position : Position)
  | definition (position : Position)
  | references (position : Position) (includeDeclaration : Bool)
  | prepareRename (position : Position)
  | rename (position : Position) (newName : String)
  | symbols
  | folding
  | formatting (options : IndentOptions)
  deriving DecidableEq, Inhabited, Repr

inductive Message where
  | opened (uri : String) (version : Int) (text : String)
  /-- The texts of a change replace each other, so the last one counts. -/
  | changed (uri : String) (version : Int) (texts : List String)
  | closed (uri : String)
  | request (uri : String) (feature : Feature)
  | shutdown
  /-- A message about a document whose URI is none. -/
  | misaddressed (isRequest : Bool) (uri : String) (error : UriError)
  deriving DecidableEq, Inhabited, Repr

/-- The message about the document with a URI. -/
def Message.about (isRequest : Bool) (uri : String)
    (message : String → Message) : Message :=
  match Uri.parse uri with
  | .ok parsed => message parsed.text
  | .error error => .misaddressed isRequest uri error

inductive Answer where
  | nothing
  | invalidRequest
  | invalidParameters (reason : String)
  | completions (offered : List Completion)
  | hover (shown : Hover)
  | location (uri : String) (span : Span)
  | locations (uri : String) (spans : List Span)
  | range (span : Span)
  | renaming (uri : String) (edits : List TextEdit)
  | symbols (outline : List BlockSymbol)
  | folding (ranges : List FoldingRange)
  | edits (edits : List TextEdit)
  deriving DecidableEq, Inhabited, Repr

/-- A message to the editor that answers no request. -/
inductive Notification where
  | diagnostics (uri : String) (version : Option Int)
      (diagnostics : List Diagnostic)
  | log (text : String)
  deriving DecidableEq, Inhabited, Repr

structure Reply where
  answer : Answer
  sent : List Notification
  deriving DecidableEq, Inhabited, Repr

def Feature.answer (compilation : Compilation) (uri : String) :
    Feature → Answer
  | .completion position => .completions (compilation.completions position)
  | .hover position =>
      ((compilation.hover? position).map Answer.hover).getD .nothing
  | .definition position =>
      ((compilation.definitionAt? position).map (Answer.location uri)).getD
        .nothing
  | .references position includeDeclaration =>
      .locations uri (compilation.referencesAt position includeDeclaration)
  | .prepareRename position =>
      ((compilation.renameSpan? position).map Answer.range).getD .nothing
  | .rename position newName =>
      ((compilation.rename? position newName).map
        (Answer.renaming uri)).getD .nothing
  | .symbols => .symbols compilation.tree.outline
  | .folding => .folding compilation.tree.foldingRanges
  | .formatting options =>
      ((compilation.formattingEdits? options).map Answer.edits).getD .nothing

structure Session where
  documents : List (String × OpenDocument)
  cache : CompilationCache
  isShutDown : Bool
  deriving DecidableEq, Inhabited, Repr

namespace Session

def serverName : String := "actionflow-lsp"

def serverVersion : String := "0.0.1"

def diagnosticSource : String := "actionflow"

/-- The characters behind which an editor asks for completions on its own. -/
def completionTriggers : List String := ["\""]

/-- What is sent once a session has begun. -/
def greeting : List Notification := [.log "actionflow LSP ready"]

/-- A session without documents, with a cache of a capacity set by a numeral. -/
def start (cacheSize : Option String) : Session :=
  ⟨[], CompilationCache.ofSetting cacheSize, false⟩

def otherDocuments (session : Session) (uri : String) :
    List (String × OpenDocument) :=
  session.documents.filter fun entry => entry.1 != uri

/-- Takes in a new text of a document and sends its diagnostics. -/
def update (session : Session) (uri : String) (version : Int)
    (text : String) : Session × Reply :=
  let compiled := session.cache.getOrCompile uri version text
  let diagnostics := compiled.1.compilation.sortedDiagnostics
  ({ session with
      documents := (uri, ⟨version, text⟩) :: session.otherDocuments uri
      cache := compiled.2 },
    ⟨.nothing, [.diagnostics uri (some version) diagnostics]⟩)

def close (session : Session) (uri : String) : Session × Reply :=
  ({ session with
      documents := session.otherDocuments uri
      cache := (session.cache.remove uri).2 },
    ⟨.nothing, [.diagnostics uri none []]⟩)

/-- Answers a request about a document; nothing when it is not open. -/
def request (session : Session) (uri : String) (feature : Feature) :
    Session × Reply :=
  match session.documents.lookup uri with
  | none => (session, ⟨.nothing, []⟩)
  | some document =>
      let compiled :=
        session.cache.getOrCompile uri document.version document.text
      ({ session with cache := compiled.2 },
        ⟨feature.answer compiled.1.compilation uri, []⟩)

/-- What a message leads to in a session that is shut down. -/
def refuse : Message → Reply
  | .request _ _ | .shutdown | .misaddressed true _ _ =>
      ⟨.invalidRequest, []⟩
  | .opened _ _ _ | .changed _ _ _ | .closed _ | .misaddressed false _ _ =>
      ⟨.nothing, []⟩

/-- What a message leads to whose URI is none. -/
def reject (isRequest : Bool) (uri : String) (error : UriError) : Reply :=
  if isRequest then
    ⟨.invalidParameters (error.message ++ ": " ++ Text.quote uri), []⟩
  else ⟨.nothing, []⟩

def handle (session : Session) (message : Message) : Session × Reply :=
  if session.isShutDown then (session, refuse message)
  else
    match message with
    | .opened uri version text => session.update uri version text
    | .changed uri version texts =>
        match texts.getLast? with
        | none => (session, ⟨.nothing, []⟩)
        | some text => session.update uri version text
    | .closed uri => session.close uri
    | .request uri feature => session.request uri feature
    | .shutdown => ({ session with isShutDown := true }, ⟨.nothing, []⟩)
    | .misaddressed isRequest uri error =>
        (session, reject isRequest uri error)

def handleAll (session : Session) : List Message → List Reply
  | [] => []
  | message :: others =>
      let step := session.handle message
      step.2 :: step.1.handleAll others

end Session
end WorkflowLang
