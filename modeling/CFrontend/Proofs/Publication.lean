import CFrontend.Grammar.CLanguage
import CFrontend.Server

/-!
What an editor shows is never out of date. A message leaves the documents alone, or it stores the text of the document that it
names and publishes the diagnostics of this text, or it drops that document and publishes that there are none
(`handle_cases`). So what was published last for a document belongs to the text that is stored for it, and a dropped document
is shown without diagnostics, after any number of messages (`Current.handleAll`).
-/
namespace CFrontend

/-- The document that a message names. -/
def Message.uri? : Message → Option String
  | .initialise | .initialised | .shutdown | .setTrace _ => none
  | .opened uri _ | .changed uri _ | .saved uri _ | .closed uri => some uri

/-- The diagnostics that were published last for a document. -/
def Notification.lastFor (uri : String) (sent : List Notification) : Option (List Diagnostic) :=
  (sent.filter (·.uri = uri)).getLast?.map (·.diagnostics)

private theorem Notification.lastFor_append (uri : String) (sent later : List Notification) :
    lastFor uri (sent ++ later) = (lastFor uri later).or (lastFor uri sent) := by
  unfold lastFor
  rw [List.filter_append,List.getLast?_append,Option.map_or]

private theorem Notification.lastFor_of_ne {uri : String} {sent : List Notification}
    (others : ∀ notification ∈ sent, notification.uri ≠ uri) :
    lastFor uri sent = none := by
  have none : sent.filter (·.uri = uri) = [] := by
    rw [List.filter_eq_nil_iff]
    intro notification member
    simpa using others notification member
  rw [lastFor,none]
  rfl

namespace Server

open Notification (lastFor lastFor_append lastFor_of_ne)

/-- Acts on messages one after the other. -/
def handleAll (server : Server) : List Message → Server × List Notification
  | [] => (server,[])
  | message :: rest =>
    let (next,sent) := server.handle message
    let (last,later) := next.handleAll rest
    (last,sent ++ later)

/-! ### Documents -/

private theorem lookup_without_self (documents : List (String × String)) (uri : String) :
    (without documents uri).lookup uri = none := by
  rw [List.lookup_eq_none_iff]
  intro entry kept
  have other : entry.1 ≠ uri := by simpa using (List.mem_filter.mp kept).2
  simpa using Ne.symm other

private theorem lookup_without_of_ne (documents : List (String × String)) {uri other : String} (apart : other ≠ uri) :
    (without documents uri).lookup other = documents.lookup other := by
  induction documents with
  | nil => rfl
  | cons entry documents ih =>
    obtain ⟨name,text⟩ := entry
    unfold without at ih ⊢
    by_cases dropped : name = uri
    · subst dropped
      rw [List.filter_cons_of_neg (by simp),ih,List.lookup_cons,beq_false_of_ne apart]
    · rw [List.filter_cons_of_pos (by simpa using dropped),List.lookup_cons,List.lookup_cons,ih]

private theorem document?_update_self (server : Server) (uri text : String) :
    (server.update uri text).1.document? uri = some text := by
  simp [update,document?]

private theorem document?_update_of_ne (server : Server) {uri other : String} (text : String) (apart : other ≠ uri) :
    (server.update uri text).1.document? other = server.document? other := by
  simp only [update,document?,List.lookup_cons,beq_false_of_ne apart]
  exact lookup_without_of_ne server.documents apart

/-! ### One message -/

/-- The document is dropped and shown without diagnostics. -/
def drop (server : Server) (uri : String) : Server × List Notification :=
  ({ server with documents := without server.documents uri },[⟨uri,[]⟩])

/-- A message does nothing, or it updates or drops the document that it names. -/
theorem handle_cases (server : Server) (message : Message) : server.handle message = (server,[]) ∨
    ∃ uri, message.uri? = some uri ∧
      ((∃ text, server.handle message = server.update uri text) ∨ server.handle message = server.drop uri) := by
  cases message with
  | initialise => exact .inl rfl
  | initialised => exact .inl rfl
  | shutdown => exact .inl rfl
  | setTrace value => exact .inl rfl
  | opened uri text => exact .inr ⟨uri,rfl,.inl ⟨text,rfl⟩⟩
  | changed uri changes =>
    -- only a last change of the whole text counts
    rw [handle]
    split
    · rename_i text _
      exact .inr ⟨uri,rfl,.inl ⟨text,rfl⟩⟩
    · exact .inl rfl
  | saved uri text =>
    cases text with
    | some text => exact .inr ⟨uri,rfl,.inl ⟨text,rfl⟩⟩
    | none =>
      rw [handle]
      split
      · rename_i text _
        exact .inr ⟨uri,rfl,.inl ⟨text,rfl⟩⟩
      · exact .inl rfl
  | closed uri => exact .inr ⟨uri,rfl,.inr rfl⟩

private theorem grammar_handle (server : Server) (message : Message) :
    (server.handle message).1.grammar = server.grammar ∧ (server.handle message).1.options = server.options := by
  rcases server.handle_cases message with same | ⟨uri,-,⟨text,same⟩ | same⟩
  all_goals rw [same]; exact ⟨rfl,rfl⟩

/-- A message changes no document but the one that it names, and publishes nothing for any other. -/
theorem handle_of_ne (server : Server) {message : Message} {uri : String} (other : message.uri? ≠ some uri) :
    (server.handle message).1.document? uri = server.document? uri ∧
      ∀ notification ∈ (server.handle message).2, notification.uri ≠ uri := by
  rcases server.handle_cases message with same | ⟨named,names,acted⟩
  · rw [same]
    exact ⟨rfl,by simp⟩
  · have apart : uri ≠ named := by
      rintro rfl
      exact other names
    rcases acted with ⟨text,same⟩ | same
    · rw [same]
      exact ⟨server.document?_update_of_ne text apart,by simpa [update] using apart.symm⟩
    · rw [same]
      exact ⟨lookup_without_of_ne server.documents apart,by simpa [drop] using apart.symm⟩

/-! ### Any number of messages -/

/-- What was published last for a document is what its stored text gives; nothing, or that there are no diagnostics, where no
    text is stored. -/
structure Current (server : Server) (sent : List Notification) (uri : String) : Prop where
  stored : ∀ text, server.document? uri = some text →
    lastFor uri sent = some (Diagnostic.diagnose server.grammar server.options (Text.bytesOf text))
  dropped : server.document? uri = none → ∀ shown, lastFor uri sent = some shown → shown = []

/-- One message keeps what is shown of a document up to date. -/
theorem Current.handle {server : Server} {sent : List Notification} {uri : String} (current : Current server sent uri)
    (message : Message) : Current (server.handle message).1 (sent ++ (server.handle message).2) uri := by
  obtain ⟨grammar,options⟩ := server.grammar_handle message
  by_cases names : message.uri? = some uri
  · rcases server.handle_cases message with same | ⟨named,here,acted⟩
    · rw [same,List.append_nil]
      exact ⟨current.stored,current.dropped⟩
    · obtain rfl : named = uri := Option.some.inj (here.symm.trans names)
      rcases acted with ⟨text,same⟩ | same
      · have last : lastFor named (server.update named text).2 =
            some (Diagnostic.diagnose server.grammar server.options (Text.bytesOf text)) := by simp [lastFor,update]
        rw [same]
        constructor
        · intro found stored
          obtain rfl : text = found := by simpa [document?_update_self] using stored
          rw [lastFor_append,last]
          rfl
        · intro missing
          simp [document?_update_self] at missing
      · have last : lastFor named (server.drop named).2 = some [] := by simp [lastFor,drop]
        have missing : (server.drop named).1.document? named = none := lookup_without_self server.documents named
        rw [same]
        constructor
        · intro text stored
          simp [missing] at stored
        · intro _ shown found
          rw [lastFor_append,last] at found
          exact (Option.some.inj found).symm
  · obtain ⟨document,others⟩ := server.handle_of_ne names
    have last : lastFor uri (sent ++ (server.handle message).2) = lastFor uri sent := by
      rw [lastFor_append,lastFor_of_ne others]
      rfl
    constructor
    · rw [document,grammar,options,last]
      exact current.stored
    · rw [document,last]
      exact current.dropped

/-- Any number of messages keep what is shown of a document up to date. -/
theorem Current.handleAll {server : Server} {sent : List Notification} {uri : String} (current : Current server sent uri)
    (messages : List Message) : Current (server.handleAll messages).1 (sent ++ (server.handleAll messages).2) uri := by
  induction messages generalizing server sent with
  | nil => simpa [Server.handleAll] using current
  | cons message rest ih =>
    have whole := ih (current.handle message)
    rw [List.append_assoc] at whole
    exact whole

private theorem grammar_handleAll (server : Server) (messages : List Message) :
    (server.handleAll messages).1.grammar = server.grammar ∧ (server.handleAll messages).1.options = server.options := by
  induction messages generalizing server with
  | nil => exact ⟨rfl,rfl⟩
  | cons message rest ih =>
    obtain ⟨grammar,options⟩ := server.grammar_handle message
    obtain ⟨later,last⟩ := ih (server.handle message).1
    exact ⟨later.trans grammar,last.trans options⟩

/-- After any messages to a new server, what was published last for a stored document are the diagnostics of exactly its text,
    and for any other document, if anything, that there are none; and the next message neither changes nor publishes anything for a
    document that it does not name. -/
theorem published_current (version : String) (grammar : Grammar) (options : Parser.Options) (messages : List Message)
    (uri : String) (last : Server) (sent : List Notification)
    (run : handleAll { version,grammar,options } messages = (last,sent)) :
    (∀ text, last.document? uri = some text →
      lastFor uri sent = some (Diagnostic.diagnose grammar options (Text.bytesOf text))) ∧
    (last.document? uri = none → ∀ shown, lastFor uri sent = some shown → shown = []) ∧
    ∀ message next published, last.handle message = (next,published) → message.uri? ≠ some uri →
      next.document? uri = last.document? uri ∧ ∀ notification ∈ published, notification.uri ≠ uri := by
  have start : Current { version,grammar,options } [] uri := ⟨by simp [document?],by simp [lastFor]⟩
  obtain ⟨stored,dropped⟩ := start.handleAll messages
  obtain ⟨sameGrammar,sameOptions⟩ := grammar_handleAll { version,grammar,options } messages
  rw [run] at stored dropped sameGrammar sameOptions
  dsimp only at sameGrammar sameOptions
  rw [sameGrammar,sameOptions] at stored
  refine ⟨stored,dropped,?_⟩
  intro message next published handled other
  have frame := last.handle_of_ne other
  rwa [handled] at frame

/-- Two documents are opened; the changes of one of them end with a part, which does not count, and with its whole text, and the
    other one is closed before it is saved. -/
def reopened : List Message := [.opened "b" "int",.opened "a" "int",.changed "a" [.whole "x",.part "y"],.closed "b",
  .saved "b" none,.changed "a" [.part "y",.whole "int x;"]]

/-- A server for the C language that has had these messages. -/
def reopening : Server × List Notification := handleAll { version := "1",grammar := CLanguage.grammar,options := {} } reopened

theorem published_current_reopened :
    (reopening.1.document? "a" = some "int x;" ∧
      lastFor "a" reopening.2 = some (Diagnostic.diagnose CLanguage.grammar {} (Text.bytesOf "int x;"))) ∧
    (reopening.1.document? "b" = none ∧ lastFor "b" reopening.2 = some []) ∧
    (reopening.1.handle (.closed "b")).1.document? "a" = some "int x;" := by
  have stored : reopening.1.document? "a" = some "int x;" := rfl
  have missing : reopening.1.document? "b" = none := rfl
  obtain ⟨current,-,frame⟩ := published_current "1" CLanguage.grammar {} reopened "a" reopening.1 reopening.2 rfl
  obtain ⟨-,dropped,-⟩ := published_current "1" CLanguage.grammar {} reopened "b" reopening.1 reopening.2 rfl
  obtain ⟨shown,last⟩ : ∃ shown, lastFor "b" reopening.2 = some shown := ⟨_,rfl⟩
  refine ⟨⟨stored,current _ stored⟩,⟨missing,?_⟩,?_⟩
  · rw [last,dropped missing shown last]
  · exact (frame (.closed "b") _ _ rfl (by decide)).1.trans stored

end Server

end CFrontend
