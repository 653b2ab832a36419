import CFrontend.Diagnostic

/-!
Keeps the open documents of an editor and publishes the diagnostics of each when it changes.
-/
namespace CFrontend

/-- One change of a document. -/
inductive Change where
  /-- The whole text is replaced. -/
  | whole (text : String)
  /-- A part of the text is replaced. -/
  | part (text : String)
deriving DecidableEq, Repr

/-- What an editor tells the server. -/
inductive Message where
  | initialise
  | initialised
  | shutdown
  /-- How much the connection traces. The server keeps nothing of it. -/
  | setTrace (value : String)
  | opened (uri text : String)
  | changed (uri : String) (changes : List Change)
  /-- A document was saved; its text may come with the message. -/
  | saved (uri : String) (text : Option String)
  | closed (uri : String)
deriving DecidableEq, Repr

/-- The diagnostics of a document, for the editor. -/
structure Notification where
  uri : String
  diagnostics : List Diagnostic
deriving DecidableEq, Repr

/-- The method by which diagnostics are published. -/
def Notification.method : String := "textDocument/publishDiagnostics"

/-- What the server says of itself. -/
structure Welcome where
  version : String
  name : String := "ucc"
  /-- It wants to know when documents are opened and closed. -/
  openClose : Bool := true
  /-- It takes changes as whole texts. -/
  changeKind : Nat := 1
  /-- It wants the text of a saved document. -/
  saveWithText : Bool := true
deriving DecidableEq, Repr

/-- A server and its documents. -/
structure Server where
  version : String
  grammar : Grammar
  options : Parser.Options
  documents : List (String × String) := []

namespace Server

/-- The stored text of a document. -/
def document? (server : Server) (uri : String) : Option String := server.documents.lookup uri

/-- The documents without one. -/
def without (documents : List (String × String)) (uri : String) : List (String × String) :=
  documents.filter fun entry => entry.1 != uri

/-- Stores a text and publishes its diagnostics. -/
def update (server : Server) (uri text : String) : Server × List Notification :=
  ({ server with documents := (uri,text) :: without server.documents uri },
    [⟨uri,Diagnostic.diagnose server.grammar server.options (Text.bytesOf text)⟩])

/-- What the server says of itself. -/
def welcome (server : Server) : Welcome := { version := server.version }

/-- Acts on a message. Of several changes only the last counts, and only if it is the whole text.
    A document saved without its text is diagnosed again. -/
def handle (server : Server) : Message → Server × List Notification
  | .initialise | .initialised | .shutdown | .setTrace _ => (server,[])
  | .opened uri text => server.update uri text
  | .changed uri changes => match changes.getLast? with
    | some (.whole text) => server.update uri text
    | _ => (server,[])
  | .saved uri (some text) => server.update uri text
  | .saved uri none => match server.document? uri with
    | some text => server.update uri text
    | none => (server,[])
  | .closed uri => ({ server with documents := without server.documents uri },[⟨uri,[]⟩])

end Server

end CFrontend
