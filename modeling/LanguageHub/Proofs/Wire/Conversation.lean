import LanguageHub.Proofs.Document.Tracking
import LanguageHub.Wire.Message

/-!
# What a server hears of one document

Among the messages to a server those about one document are a conversation: the document is
opened in its first version, changed with one version after the other and saved any number
of times, and closed before it is opened again.
-/

namespace LanguageHub

/-! ## Messages about documents -/

namespace Message

/-- The notifications that tell of a document. -/
def documentMethods : List String :=
  ["textDocument/didOpen", "textDocument/didChange", "textDocument/didSave",
    "textDocument/didClose"]

/-- The document that a message tells of. -/
def documentUri? : Message → Option String
  | .notification n =>
    if n.method ∈ documentMethods then
      ((n.params.get? "textDocument").bind (·.get? "uri")).bind Json.str?
    else none
  | _ => none

def isAbout (uri : String) (m : Message) : Bool := m.documentUri? == some uri

end Message

namespace DocumentNotice

/-- The message by which a server is told. -/
def message (n : DocumentNotice) : Message := .ofNotification n.method n.params

theorem method_mem (n : DocumentNotice) : n.method ∈ Message.documentMethods := by
  cases n <;> simp [method, Message.documentMethods]

theorem params_uri (n : DocumentNotice) :
    ((n.params.get? "textDocument").bind (·.get? "uri")).bind Json.str? = some n.uri := by
  cases n with
  | opened => rfl
  | changed => rfl
  | saved uri text => cases text <;> rfl
  | closed => rfl

theorem documentUri?_message (n : DocumentNotice) : n.message.documentUri? = some n.uri :=
  (if_pos n.method_mem).trans n.params_uri

theorem isAbout_message (u : String) (n : DocumentNotice) :
    n.message.isAbout u = true ↔ n.uri = u := by
  simp [Message.isAbout, documentUri?_message]

/-! ## Conversations -/

/-- The version of the open document after a notice, if it may come next; a document that is
not open has no version. -/
def follow : Option Nat → DocumentNotice → Option (Option Nat)
  | none, opened _ _ version _ => if version = 1 then some (some 1) else none
  | some v, changed _ version _ => if version = v + 1 then some (some version) else none
  | some v, saved .. => some (some v)
  | some _, closed _ => some none
  | _, _ => none

/-- The messages are a conversation, after which the document has this version and the server
this copy. -/
def Conversation (messages : List Message) (version : Option Nat) (copy : Option Buffer) : Prop :=
  ∃ notices : List DocumentNotice, messages = notices.map message ∧
    notices.foldlM follow none = some version ∧ notices.foldl copied none = copy

variable {messages : List Message} {version version' : Option Nat} {copy : Option Buffer}

theorem conversation_nil : Conversation [] none none := ⟨[], rfl, rfl, rfl⟩

theorem Conversation.snoc (h : Conversation messages version copy) {n : DocumentNotice}
    (hnext : follow version n = some version') :
    Conversation (messages ++ [n.message]) version' (n.copied copy) := by
  obtain ⟨notices, rfl, hversion, rfl⟩ := h
  refine ⟨notices ++ [n], by simp, ?_, by simp⟩
  rw [List.foldlM_append, hversion]
  simpa using hnext

end DocumentNotice

end LanguageHub

/-!
## From the opening on

A server that has a document open was told of its opening first, and after that only of its
changes, which lead from each version to the next, and of its saves.
-/

namespace LanguageHub.DocumentNotice

/-- The changes that a notice tells, with the version that they lead to. -/
def change? : DocumentNotice → Option (Nat × List TextChange)
  | changed _ version changes => some (version, changes)
  | _ => none

/-- The notice is about an open document that stays open. -/
def Continues (u : String) : DocumentNotice → Prop
  | changed uri .. => uri = u
  | saved uri _ => uri = u
  | _ => False

/-- Changes that follow an opening, with the versions that they lead to. -/
def numbered (queues : List (List TextChange)) : List (Nat × List TextChange) :=
  queues.mapIdx fun j changes => (j + 2, changes)

/-- The document is opened in its first version and then changed by these queues of changes,
each told once and with a version of its own; in between it may be saved. -/
def Tells (u : String) (queues : List (List TextChange)) (messages : List Message) : Prop :=
  ∃ languageId text notices,
    messages = (opened u languageId 1 text :: notices).map message ∧
      (∀ n ∈ notices, n.Continues u) ∧ notices.filterMap change? = numbered queues

variable {u : String} {queues : List (List TextChange)} {messages : List Message}

theorem tells_opened (u languageId text : String) :
    Tells u [] [(opened u languageId 1 text).message] :=
  ⟨languageId, text, [], rfl, by simp, rfl⟩

theorem Tells.snoc (h : Tells u queues messages) {n : DocumentNotice}
    {more : List (List TextChange)} (hn : n.Continues u)
    (hmore : n.change?.toList = more.mapIdx fun j changes => (j + queues.length + 2, changes)) :
    Tells u (queues ++ more) (messages ++ [n.message]) := by
  obtain ⟨languageId, text, notices, rfl, hcontinue, hchanges⟩ := h
  refine ⟨languageId, text, notices ++ [n], by simp, fun n' hn' => ?_, ?_⟩
  · rcases List.mem_append.mp hn' with hn' | hn'
    · exact hcontinue n' hn'
    · rwa [List.mem_singleton.mp hn']
  · rw [numbered, List.mapIdx_append, List.filterMap_append, hchanges, ← hmore]
    cases hchange : n.change? <;> simp [numbered, hchange]

theorem Tells.saved (h : Tells u queues messages) (text : Option String) :
    Tells u queues (messages ++ [(DocumentNotice.saved u text).message]) := by
  have hnext : Tells u (queues ++ []) (messages ++ [(DocumentNotice.saved u text).message]) :=
    h.snoc rfl rfl
  rwa [List.append_nil] at hnext

theorem Tells.changed (h : Tells u queues messages) (changes : List TextChange) :
    Tells u (queues ++ [changes])
      (messages ++ [(DocumentNotice.changed u (queues.length + 2) changes).message]) :=
  h.snoc rfl (by simp [change?])

end LanguageHub.DocumentNotice

/-!
# Open periods of a document

A server hears of a document in periods. Each begins when the document is opened in version 1
and ends when it is closed; in between come changes, with the versions 2, 3, 4 and so on, and
saves. A conversation is a beginning of such periods.
-/

namespace LanguageHub

namespace DocumentNotice

/-- The version that a change brings. -/
def changedTo? : DocumentNotice → Option Nat
  | changed _ version _ => some version
  | _ => none

def IsUpdate : DocumentNotice → Prop
  | changed .. | saved .. => True
  | _ => False

end DocumentNotice

/-- A document while it is open: the language and the text with which it was opened, and the
changes and saves since then. -/
structure OpenPeriod where
  languageId : String
  text : String
  updates : List DocumentNotice

namespace OpenPeriod

open DocumentNotice

variable {u : String} {p : OpenPeriod} {n : DocumentNotice}

def versions (p : OpenPeriod) : List Nat := p.updates.filterMap changedTo?

structure IsRegular (u : String) (p : OpenPeriod) : Prop where
  updates : ∀ n ∈ p.updates, n.IsUpdate ∧ n.uri = u
  versions : p.versions = List.range' 2 p.versions.length

def opening (u : String) (p : OpenPeriod) : List DocumentNotice :=
  .opened u p.languageId 1 p.text :: p.updates

/-- All that is told, from the opening to the closing. -/
def notices (u : String) (p : OpenPeriod) : List DocumentNotice := p.opening u ++ [.closed u]

/-- The period with one more update. -/
def push (p : OpenPeriod) (n : DocumentNotice) : OpenPeriod :=
  { p with updates := p.updates ++ [n] }

theorem versions_changed (v : Nat) (changes : List TextChange) :
    (p.push (.changed u v changes)).versions = p.versions ++ [v] := by
  simp [push, versions, changedTo?]

theorem versions_saved (text : Option String) : (p.push (.saved u text)).versions = p.versions := by
  simp [push, versions, changedTo?]

theorem IsRegular.push (h : p.IsRegular u) (hupdate : n.IsUpdate) (huri : n.uri = u)
    (hversions : (p.push n).versions = List.range' 2 (p.push n).versions.length) :
    (p.push n).IsRegular u := by
  refine ⟨?_, hversions⟩
  intro n' hn'
  rcases List.mem_append.mp hn' with hold | hnew
  · exact h.updates n' hold
  · rw [List.mem_singleton] at hnew
    subst hnew
    exact ⟨hupdate, huri⟩

theorem IsRegular.changed (h : p.IsRegular u) (changes : List TextChange) :
    (p.push (.changed u (p.versions.length + 2) changes)).IsRegular u := by
  refine h.push ?_ rfl ?_
  · trivial
  · rw [versions_changed, List.length_append, List.length_singleton, List.range'_concat,
      ← h.versions]
    simp [Nat.add_comm]

theorem IsRegular.saved (h : p.IsRegular u) (text : Option String) :
    (p.push (.saved u text)).IsRegular u := by
  refine h.push ?_ rfl ?_
  · trivial
  · rw [versions_saved]
    exact h.versions

theorem regular_concat {periods : List OpenPeriod} (h : ∀ p ∈ periods, p.IsRegular u)
    (hp : p.IsRegular u) : ∀ p' ∈ periods ++ [p], p'.IsRegular u := by
  intro p' hp'
  rcases List.mem_append.mp hp' with hold | hlast
  · exact h p' hold
  · rw [List.mem_singleton] at hlast
    subst hlast
    exact hp

end OpenPeriod

namespace DocumentNotice

open OpenPeriod

variable {u : String} {notices : List DocumentNotice} {version version' : Option Nat}

/-- The notices are what is told of the document in periods, of which the last may go on. -/
def InPeriods (u : String) (notices : List DocumentNotice) : Prop :=
  ∃ periods : List OpenPeriod, (∀ p ∈ periods, p.IsRegular u) ∧
    notices <+: periods.flatMap (·.notices u)

/-- After the notices the document has this version, if it is open. -/
def Periods (u : String) (notices : List DocumentNotice) : Option Nat → Prop
  | none => ∃ periods : List OpenPeriod, (∀ p ∈ periods, p.IsRegular u) ∧
      notices = periods.flatMap (·.notices u)
  | some version => ∃ (periods : List OpenPeriod) (p : OpenPeriod),
      (∀ p ∈ periods, p.IsRegular u) ∧ p.IsRegular u ∧ version = p.versions.length + 1 ∧
        notices = periods.flatMap (·.notices u) ++ p.opening u

theorem Periods.inPeriods (h : Periods u notices version) : InPeriods u notices := by
  cases version with
  | none =>
    obtain ⟨periods, hregular, rfl⟩ := h
    exact ⟨periods, hregular, List.prefix_rfl⟩
  | some v =>
    obtain ⟨periods, p, hregular, hp, -, rfl⟩ := h
    refine ⟨periods ++ [p], regular_concat hregular hp, ?_⟩
    rw [List.flatMap_append, List.flatMap_singleton, List.prefix_append_right_inj]
    apply List.prefix_append

theorem Periods.follow {n : DocumentNotice} (h : Periods u notices version) (huri : n.uri = u)
    (hnext : n.follow version = some version') : Periods u (notices ++ [n]) version' := by
  subst huri
  cases version with
  | none =>
    obtain ⟨periods, hregular, rfl⟩ := h
    cases n with
    | opened uri languageId version text =>
      simp only [DocumentNotice.follow, Option.ite_none_right_eq_some, Option.some.injEq] at hnext
      obtain ⟨rfl, rfl⟩ := hnext
      exact ⟨periods, ⟨languageId, text, []⟩, hregular, ⟨by simp, rfl⟩, rfl, rfl⟩
    | _ => simp [DocumentNotice.follow] at hnext
  | some v =>
    obtain ⟨periods, p, hregular, hp, rfl, rfl⟩ := h
    rw [List.append_assoc]
    cases n with
    | opened => simp [DocumentNotice.follow] at hnext
    | changed uri version changes =>
      simp only [DocumentNotice.follow, Option.ite_none_right_eq_some, Option.some.injEq] at hnext
      obtain ⟨rfl, rfl⟩ := hnext
      refine ⟨periods, p.push (.changed uri (p.versions.length + 2) changes), hregular,
        hp.changed changes, ?_, rfl⟩
      rw [versions_changed, List.length_append, List.length_singleton]
    | saved uri text =>
      cases hnext
      refine ⟨periods, p.push (.saved uri text), hregular, hp.saved text, ?_, rfl⟩
      rw [versions_saved]
    | closed uri =>
      cases hnext
      refine ⟨periods ++ [p], regular_concat hregular hp, ?_⟩
      rw [List.flatMap_append, List.flatMap_singleton]
      rfl

theorem Periods.run {told : List DocumentNotice} (h : Periods u told version)
    (huri : ∀ n ∈ notices, n.uri = u) (hrun : notices.foldlM DocumentNotice.follow version =
      some version') : Periods u (told ++ notices) version' := by
  induction notices generalizing told version with
  | nil =>
    cases hrun
    rwa [List.append_nil]
  | cons n rest ih =>
    rw [List.forall_mem_cons] at huri
    rw [List.foldlM_cons, Option.bind_eq_bind, Option.bind_eq_some_iff] at hrun
    obtain ⟨version'', hnext, hrest⟩ := hrun
    have hmore := ih (h.follow huri.1 hnext) huri.2 hrest
    rwa [List.append_assoc] at hmore

/-- Messages about one document that are a conversation come in periods. -/
theorem Conversation.periods {messages : List Message} {copy : Option Buffer}
    (h : Conversation messages version copy) (habout : ∀ m ∈ messages, m.isAbout u = true) :
    ∃ notices : List DocumentNotice, messages = notices.map message ∧ InPeriods u notices ∧
      notices.foldl copied none = copy := by
  obtain ⟨notices, rfl, hversion, hcopy⟩ := h
  refine ⟨notices, rfl, ?_, hcopy⟩
  have huri : ∀ n ∈ notices, n.uri = u := by
    intro n hn
    rw [← isAbout_message]
    exact habout n.message (List.mem_map_of_mem hn)
  have hempty : Periods u [] none := ⟨[], by simp, rfl⟩
  exact (hempty.run huri hversion).inPeriods

end DocumentNotice

end LanguageHub
