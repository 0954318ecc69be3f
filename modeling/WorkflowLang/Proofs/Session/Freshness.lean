import WorkflowLang.Session
import Mathlib.Data.List.Basic

/-!
# Answers from the latest text

What a session answers is compared with what it would answer if it kept nothing
but the latest text of every open document and compiled that text for every
answer (`Message.freshReplies`).  The two agree for every capacity of the cache
(`Session.handleAll_fresh`), because whatever is kept for a document was compiled
from its latest text.  Eviction loses compilations but never makes one stale.

An editor has to give different texts different versions; `Message.Versioned` asks
this only of texts that follow each other directly.
-/

namespace WorkflowLang

theorem lookup_cons_eq_if {Value : Type} (name other : String)
    (value : Value) (entries : List (String × Value)) :
    ((name, value) :: entries).lookup other =
      if other = name then some value else entries.lookup other := by
  rw [List.lookup_cons]
  by_cases same : other = name
  · simp [same]
  · simp [same, beq_false_of_ne same]

theorem lookup_filter_key {Value : Type} (key other : String)
    (entries : List (String × Value)) :
    (entries.filter fun entry => entry.1 != key).lookup other =
      if other = key then none else entries.lookup other := by
  induction entries with
  | nil => simp
  | cons entry others inductionHypothesis =>
      obtain ⟨name, value⟩ := entry
      by_cases isKey : name = key
      · subst isKey
        rw [List.filter_cons_of_neg (by simp), inductionHypothesis,
          lookup_cons_eq_if]
        split <;> rfl
      · rw [List.filter_cons_of_pos (by simpa using isKey),
          lookup_cons_eq_if, lookup_cons_eq_if, inductionHypothesis]
        by_cases same : other = name
        · subst same
          simp [isKey]
        · rw [if_neg same, if_neg same]

/-- A lookup that succeeds without the last entry succeeds with it. -/
theorem lookup_of_lookup_dropLast {Value : Type} {key : String}
    {value : Value} {entries : List (String × Value)}
    (found : entries.dropLast.lookup key = some value) :
    entries.lookup key = some value := by
  induction entries with
  | nil => simp at found
  | cons entry others inductionHypothesis =>
      cases others with
      | nil => simp at found
      | cons next rest =>
          rw [List.dropLast_cons_of_ne_nil (by simp)] at found
          obtain ⟨name, kept⟩ := entry
          rw [lookup_cons_eq_if] at found ⊢
          by_cases same : key = name
          · rwa [if_pos same] at found ⊢
          · rw [if_neg same] at found ⊢
            exact inductionHypothesis found

namespace RecentMap

variable {α : Type} (recent : RecentMap α) (key other : String)

@[simp] theorem get?_empty (capacity : Nat) :
    (empty capacity : RecentMap α).get? key = none := rfl

theorem get?_erase :
    (recent.erase key).get? other =
      if other = key then none else recent.get? other :=
  lookup_filter_key key other recent.entries

@[simp] theorem get?_touch : (recent.touch key).get? other = recent.get? other := by
  unfold touch
  split
  · rfl
  · rename_i value found
    change List.lookup other ((key, value) :: recent.others key) = _
    rw [lookup_cons_eq_if, others, lookup_filter_key]
    by_cases same : other = key
    · rw [same, if_pos rfl, found]
    · rw [if_neg same, if_neg same, get?]

/-- What is found after writing was written or there before; entries of other
keys may be lost. -/
theorem get?_insert {value found : α}
    (present : (recent.insert key value).get? other = some found) :
    (other = key ∧ found = value) ∨
      (other ≠ key ∧ recent.get? other = some found) := by
  unfold insert at present
  change List.lookup other ((key, value) :: _) = some found at present
  rw [lookup_cons_eq_if] at present
  by_cases same : other = key
  · rw [if_pos same] at present
    exact Or.inl ⟨same, (Option.some.inj present).symm⟩
  · rw [if_neg same] at present
    refine Or.inr ⟨same, ?_⟩
    split at present
    · exact lookup_of_lookup_dropLast present
    · rwa [others, lookup_filter_key, if_neg same] at present

end RecentMap

/-- The latest text of every open document, by its URI. -/
abbrev LatestTexts := String → Option OpenDocument

namespace LatestTexts

def none : LatestTexts := fun _ => .none

def set (latest : LatestTexts) (uri : String)
    (document : Option OpenDocument) : LatestTexts :=
  fun other => if other = uri then document else latest other

@[simp] theorem set_self (latest : LatestTexts) (uri : String)
    (document : Option OpenDocument) :
    latest.set uri document uri = document :=
  if_pos rfl

end LatestTexts

namespace Message

/-- The document that a message changes, with its latest text from then on. -/
def effect? : Message → Option (String × Option OpenDocument)
  | .opened uri version text => some (uri, some ⟨version, text⟩)
  | .changed uri version texts =>
      texts.getLast?.map fun text => (uri, some ⟨version, text⟩)
  | .closed uri => some (uri, none)
  | .request _ _ => none
  | .shutdown => none
  | .misaddressed _ _ _ => none

/-- The latest texts after a message. -/
def update (latest : LatestTexts) (message : Message) : LatestTexts :=
  match message.effect? with
  | some (uri, document) => latest.set uri document
  | none => latest

/-- The diagnostics of a text as they are sent. -/
def published (uri : String) (document : OpenDocument) : Reply :=
  ⟨.nothing, [.diagnostics uri (some document.version)
    (Compilation.ofText document.text).sortedDiagnostics]⟩

/-- What a message leads to when every answer is made from the latest text. -/
def freshReply (latest : LatestTexts) : Message → Reply
  | .opened uri version text => published uri ⟨version, text⟩
  | .changed uri version texts =>
      match texts.getLast? with
      | none => ⟨.nothing, []⟩
      | some text => published uri ⟨version, text⟩
  | .closed uri => ⟨.nothing, [.diagnostics uri none []]⟩
  | .request uri feature =>
      match latest uri with
      | none => ⟨.nothing, []⟩
      | some document =>
          ⟨feature.answer (Compilation.ofText document.text) uri, []⟩
  | .shutdown => ⟨.nothing, []⟩
  | .misaddressed isRequest uri error => Session.reject isRequest uri error

/-- What messages lead to, one after the other, when every answer is made from
the latest text. -/
def freshReplies (latest : LatestTexts) : List Message → List Reply
  | [] => []
  | message :: others =>
      message.freshReply latest :: freshReplies (message.update latest) others

/-- A message that sends a text under the version of the latest text sends that
text again. -/
def IsConsistent (latest : LatestTexts) (message : Message) : Prop :=
  ∀ uri sent, message.effect? = some (uri, some sent) →
    ∀ kept, latest uri = some kept → kept.version = sent.version →
      kept.text = sent.text

/-- Texts that follow each other in one document have different versions unless
they are equal. -/
def Versioned (latest : LatestTexts) : List Message → Prop
  | [] => True
  | message :: others =>
      message.IsConsistent latest ∧ Versioned (message.update latest) others

end Message

/-- Whatever a cache keeps was compiled from the latest text of its document and
has its version. -/
def CompilationCache.IsFresh (cache : CompilationCache)
    (latest : LatestTexts) : Prop :=
  ∀ uri kept, cache.recent.get? uri = some kept →
    ∃ document, latest uri = some document ∧
      document.version = kept.version ∧
      kept.compilation = Compilation.ofText document.text

namespace CompilationCache

variable {cache : CompilationCache} {latest : LatestTexts} {uri : String}
  {document : OpenDocument}

/-- Asking for the compilation of a text gives it and keeps the cache fresh. -/
theorem IsFresh.getOrCompile (fresh : cache.IsFresh latest)
    (consistent : ∀ kept, latest uri = some kept →
      kept.version = document.version → kept.text = document.text) :
    (cache.getOrCompile uri document.version document.text).1.compilation =
        Compilation.ofText document.text ∧
      (cache.getOrCompile uri document.version document.text).2.IsFresh
        (latest.set uri (some document)) := by
  -- The entry of the document is used again or replaced; all others stay or go.
  have others : ∀ other kept, cache.recent.get? other = some kept →
      other ≠ uri → ∃ found,
        latest.set uri (some document) other = some found ∧
          found.version = kept.version ∧
          kept.compilation = Compilation.ofText found.text := by
    intro other kept present differs
    rw [LatestTexts.set, if_neg differs]
    exact fresh other kept present
  unfold CompilationCache.getOrCompile CompilationCache.get
  cases present : (cache.recent.get? uri).filter fun kept =>
      kept.version == document.version with
  | some kept =>
      obtain ⟨isKept, sameVersion⟩ := Option.filter_eq_some_iff.mp present
      obtain ⟨found, isLatest, version, compilation⟩ :=
        fresh uri kept isKept
      rw [beq_iff_eq] at sameVersion
      rw [consistent found isLatest (version.trans sameVersion)]
        at compilation
      refine ⟨compilation, fun other entry isEntry => ?_⟩
      rw [RecentMap.get?_touch] at isEntry
      by_cases same : other = uri
      · subst same
        obtain rfl := Option.some.inj (isKept.symm.trans isEntry)
        exact ⟨document, LatestTexts.set_self _ _ _, sameVersion.symm,
          compilation⟩
      · exact others other entry isEntry same
  | none =>
      refine ⟨rfl, fun other entry isEntry => ?_⟩
      rcases RecentMap.get?_insert _ _ _ isEntry with
        ⟨rfl, rfl⟩ | ⟨differs, isKept⟩
      · exact ⟨document, LatestTexts.set_self _ _ _, rfl, rfl⟩
      · rw [RecentMap.get?_touch] at isKept
        exact others other entry isKept differs

theorem IsFresh.remove (fresh : cache.IsFresh latest) (uri : String) :
    (cache.remove uri).2.IsFresh (latest.set uri none) := by
  intro other kept present
  change (cache.recent.erase uri).get? other = some kept at present
  rw [RecentMap.get?_erase] at present
  split at present
  · simp at present
  · rename_i differs
    rw [LatestTexts.set, if_neg differs]
    exact fresh other kept present

end CompilationCache

namespace Session

/-- A running session that has the latest texts and a fresh cache. -/
structure Tracks (session : Session) (latest : LatestTexts) : Prop where
  isRunning : session.isShutDown = false
  documents : ∀ uri, session.documents.lookup uri = latest uri
  cache : session.cache.IsFresh latest

variable {session : Session} {latest : LatestTexts}

theorem lookup_otherDocuments (session : Session) (uri other : String) :
    (session.otherDocuments uri).lookup other =
      if other = uri then none else session.documents.lookup other :=
  lookup_filter_key uri other session.documents

theorem Tracks.update (tracks : session.Tracks latest) {uri : String}
    {document : OpenDocument}
    (consistent : ∀ kept, latest uri = some kept →
      kept.version = document.version → kept.text = document.text) :
    (session.update uri document.version document.text).2 =
        Message.published uri document ∧
      (session.update uri document.version document.text).1.Tracks
        (latest.set uri (some document)) := by
  obtain ⟨compilation, fresh⟩ := tracks.cache.getOrCompile consistent
  refine ⟨?_, tracks.isRunning, fun other => ?_, fresh⟩
  · simp only [Session.update, Message.published, compilation]
  · change List.lookup other ((uri, document) ::
      session.otherDocuments uri) = _
    rw [lookup_cons_eq_if, lookup_otherDocuments, LatestTexts.set,
      tracks.documents]
    split <;> rfl

theorem Tracks.close (tracks : session.Tracks latest) (uri : String) :
    (session.close uri).1.Tracks (latest.set uri none) := by
  refine ⟨tracks.isRunning, fun other => ?_, tracks.cache.remove uri⟩
  change (session.otherDocuments uri).lookup other = _
  rw [lookup_otherDocuments, LatestTexts.set, tracks.documents]

theorem Tracks.request (tracks : session.Tracks latest) (uri : String)
    (feature : Feature) :
    (session.request uri feature).2 =
        (Message.request uri feature).freshReply latest ∧
      (session.request uri feature).1.Tracks latest := by
  simp only [Session.request, Message.freshReply, tracks.documents]
  cases isLatest : latest uri with
  | none => exact ⟨rfl, tracks⟩
  | some document =>
      have consistent : ∀ kept, latest uri = some kept →
          kept.version = document.version → kept.text = document.text := by
        intro kept isKept _
        rw [Option.some.inj (isKept.symm.trans isLatest)]
      obtain ⟨compilation, fresh⟩ := tracks.cache.getOrCompile consistent
      have unchanged : latest.set uri (some document) = latest := by
        funext other
        rw [LatestTexts.set]
        split
        · rename_i same
          rw [same, isLatest]
        · rfl
      rw [unchanged] at fresh
      refine ⟨?_, tracks.isRunning, tracks.documents, fresh⟩
      simp only [compilation]

theorem Tracks.handle (tracks : session.Tracks latest) {message : Message}
    (running : message ≠ .shutdown)
    (consistent : message.IsConsistent latest) :
    (session.handle message).2 = message.freshReply latest ∧
      (session.handle message).1.Tracks (message.update latest) := by
  unfold Session.handle
  rw [if_neg (by simp [tracks.isRunning])]
  cases message with
  | opened uri version text => exact tracks.update (consistent uri _ rfl)
  | changed uri version texts =>
      cases last : texts.getLast? with
      | none =>
          simpa [Message.freshReply, Message.update, Message.effect?, last]
      | some text =>
          have sent : (Message.changed uri version texts).effect? =
              some (uri, some ⟨version, text⟩) := by
            simp [Message.effect?, last]
          have updated := tracks.update (consistent uri _ sent)
          simpa [Message.freshReply, Message.update, sent, last] using updated
  | closed uri => exact ⟨rfl, tracks.close uri⟩
  | request uri feature => exact tracks.request uri feature
  | shutdown => exact absurd rfl running
  | misaddressed isRequest uri error => exact ⟨rfl, tracks⟩

theorem Tracks.handleAll (tracks : session.Tracks latest)
    {messages : List Message} (running : Message.shutdown ∉ messages)
    (versioned : Message.Versioned latest messages) :
    session.handleAll messages = Message.freshReplies latest messages := by
  induction messages generalizing session latest with
  | nil => rfl
  | cons message others inductionHypothesis =>
      rw [List.mem_cons, not_or] at running
      obtain ⟨notThis, notLater⟩ := running
      obtain ⟨reply, behind⟩ :=
        tracks.handle (Ne.symm notThis) versioned.1
      rw [Session.handleAll, Message.freshReplies, reply,
        inductionHypothesis behind notLater versioned.2]

/-- A session without documents whose cache has some capacity. -/
def ofCapacity (capacity : Nat) : Session :=
  ⟨[], CompilationCache.ofCapacity capacity, false⟩

/-- Every session starts with some capacity. -/
theorem start_eq_ofCapacity (setting : Option String) :
    start setting = ofCapacity
      ((setting.bind (Text.numeral? UInt64.size)).getD
        CompilationCache.defaultCapacity) := rfl

end Session

namespace Message

def uri? : Message → Option String
  | .opened uri _ _ => some uri
  | .changed uri _ _ => some uri
  | .closed uri => some uri
  | .request uri _ => some uri
  | .shutdown => none
  | .misaddressed _ _ _ => none

def isAbout (uri : String) (message : Message) : Bool :=
  message.uri? == some uri

theorem uri?_of_effect? {message : Message} {uri : String}
    {document : Option OpenDocument}
    (changes : message.effect? = some (uri, document)) :
    message.uri? = some uri := by
  cases message with
  | opened other version text =>
      exact congrArg (Option.map Prod.fst) changes
  | changed other version texts =>
      obtain ⟨text, -, same⟩ := Option.map_eq_some_iff.mp changes
      exact congrArg some (Prod.mk.inj same).1
  | closed other => exact congrArg (Option.map Prod.fst) changes
  | request other feature => simp [effect?] at changes
  | shutdown => simp [effect?] at changes
  | misaddressed isRequest other error => simp [effect?] at changes

theorem IsConsistent.congr {message : Message} {uri : String}
    (about : message.isAbout uri = true) {first second : LatestTexts}
    (same : first uri = second uri)
    (consistent : message.IsConsistent first) :
    message.IsConsistent second := by
  intro other sent sends kept isKept
  obtain rfl : uri = other := by
    have named := uri?_of_effect? sends
    rw [isAbout, beq_iff_eq, named] at about
    exact (Option.some.inj about).symm
  exact consistent uri sent sends kept (same.trans isKept)

end Message

namespace Session

end Session

end WorkflowLang
