import LanguageHub.Proofs.Hub.Roll
import LanguageHub.Proofs.Hub.Words

/-!
# What servers are told about settings

A server is told settings by a notification of its own, and the last one counts. Whatever else is
done leaves that as it is: it starts no session, gives out tickets in order, and a connection that
is closed or broken stays so.

Laws: changes that tell no settings compose.
-/

namespace LanguageHub

/-- The settings that a message tells. -/
def Message.settings? : Message → Option Json
  | notification n =>
    if n.method = "workspace/didChangeConfiguration" then n.params.get? "settings" else none
  | _ => none

theorem Message.settings?_ofNotification {method : String} (params : Json)
    (hmethod : method ≠ "workspace/didChangeConfiguration") :
    (Message.ofNotification method params).settings? = none :=
  if_neg hmethod

theorem DocumentNotice.tells_nothing (n : DocumentNotice) :
    n.method ≠ "workspace/didChangeConfiguration" := by
  cases n <;> simp [method]

theorem Client.settings?_answerTo (folders : List WorkspaceFolder) (settings : Option Json)
    (r : Request) : (answerTo folders settings r).settings? = none := by
  unfold answerTo
  split <;> rfl

/-! ## Links -/

namespace Link

/-- The settings that were told last. -/
def told? (l : Link) : Option Json := (l.outgoing.filterMap (·.message.settings?)).getLast?

/-- Nothing more can be written. -/
def IsBroken (l : Link) : Prop := (StreamFault.due? l.writeFault).isSome = true

instance (l : Link) : Decidable l.IsBroken :=
  inferInstanceAs (Decidable ((StreamFault.due? l.writeFault).isSome = true))

theorem filterMap_grow (count : Nat) (frames : List Outgoing) :
    (grow count frames).filterMap (·.message.settings?) =
      frames.filterMap (·.message.settings?) := by
  have hmap : ∀ frames : List Outgoing, frames.filterMap (·.message.settings?) =
      (frames.map (·.message)).filterMap Message.settings? := fun frames => by
    rw [List.filterMap_map]
    rfl
  rw [hmap, map_message_grow, ← hmap]

theorem told?_write_of_silent (l : Link) {m : Message} {size sent : Nat}
    (hm : sent ≠ 0 ∨ m.settings? = none) : (l.write m size sent).2.told? = l.told? := by
  cases hdue : StreamFault.due? l.writeFault with
  | some reason => simp [write, hdue]
  | none =>
    by_cases hsent : sent = 0
    · simp [write, hdue, told?, hsent, hm.resolve_left (absurd hsent)]
    · simp [write, hdue, told?, hsent, filterMap_grow]

theorem told?_write_of_settings (l : Link) {m : Message} {size : Nat} {v : Json}
    (hm : m.settings? = some v) (hdue : StreamFault.due? l.writeFault = none) :
    (l.write m size 0).2.told? = some v := by
  simp [write, hdue, told?, hm]

theorem IsBroken.write {l : Link} (h : l.IsBroken) (m : Message) (size sent : Nat) :
    (l.write m size sent).2 = l := by
  obtain ⟨reason, hdue⟩ := Option.isSome_iff_exists.mp h
  simp [Link.write, hdue]

end Link

/-! ## The hub -/

namespace Hub

variable {h h' h'' : Hub} {c l s t : Nat} {n : LockName}

def told? (h : Hub) (c : Nat) : Option Json := (h.linkOf c).told?

/-- The session is started and runs on the client. -/
def Runs (h : Hub) (s c : Nat) : Prop := (h.session s).client? = .ok c

/-- Nothing more can be said to the client's server. -/
def IsDeaf (h : Hub) (c : Nat) : Prop := (h.client c).isOpen = false ∨ (h.linkOf c).IsBroken

instance : Decidable (h.IsDeaf c) :=
  inferInstanceAs (Decidable ((h.client c).isOpen = false ∨ (h.linkOf c).IsBroken))

/-- The settings of a definition, which may have been replaced since. -/
def settingsOf (h : Hub) (serial : Nat) : Option Json :=
  (h.registry.object? serial).bind (·.settings)

theorem Runs.speaker (hruns : h.Runs s c) : h.speaker s = some c := (client?_eq_ok.mp hruns).2

theorem runs_iff : h.Runs s c ↔ (h.session s).state = .started ∧ h.speaker s = some c :=
  client?_eq_ok

theorem settings_definitionOf (h : Hub) (s : Nat) :
    (h.definitionOf s).settings = h.settingsOf (h.session s).definition := by
  unfold definitionOf settingsOf
  cases h.registry.object? (h.session s).definition <;> rfl

/-- The registry and what sessions and clients are for stay as they are, tickets are given out in
order, and what is closed or broken stays so. -/
structure Proceeds (h h' : Hub) : Prop where
  registry : h'.registry = h.registry
  roster : h'.roster = h.roster
  sessions : h'.sessions.length = h.sessions.length
  identity : ∀ s, (h'.session s).identity = (h.session s).identity
  clients : h.clients.length ≤ h'.clients.length
  links : h.links.length ≤ h'.links.length
  link : ∀ c < h.clients.length, (h'.client c).link = (h.client c).link
  definition : ∀ c < h.clients.length, (h'.client c).definition = (h.client c).definition
  closed : ∀ c < h.clients.length, (h.client c).isOpen = false → (h'.client c).isOpen = false
  broken : ∀ l, (h.link l).IsBroken → (h'.link l).IsBroken
  next : ∀ c, (h.queue c).next ≤ (h'.queue c).next
  entered : ∀ c, ∀ t ∈ (h'.queue c).tickets,
    t ∈ (h.queue c).tickets ∨ (h.queue c).next ≤ t ∧ t < (h'.queue c).next

/-- Besides, no session is started, and nobody is told any settings. -/
structure Mutes (h h' : Hub) : Prop extends Proceeds h h' where
  started : ∀ s, (h'.session s).state = .started → (h.session s).state = .started
  speaker : ∀ s c, h'.speaker s = some c → h.speaker s = some c
  told : ∀ l, (h'.link l).told? = (h.link l).told?

namespace Proceeds

theorem deaf (hgo : h.Proceeds h') (hc : c < h.clients.length) (hdeaf : h.IsDeaf c) :
    h'.IsDeaf c := by
  refine hdeaf.imp (hgo.closed c hc) fun hbroken => ?_
  rw [linkOf, hgo.link c hc]
  exact hgo.broken _ hbroken

theorem trans (first : h.Proceeds h') (second : h'.Proceeds h'') : h.Proceeds h'' where
  registry := second.registry.trans first.registry
  roster := second.roster.trans first.roster
  sessions := second.sessions.trans first.sessions
  identity s := (second.identity s).trans (first.identity s)
  clients := Nat.le_trans first.clients second.clients
  links := Nat.le_trans first.links second.links
  link c hc := (second.link c (Nat.lt_of_lt_of_le hc first.clients)).trans (first.link c hc)
  definition c hc :=
    (second.definition c (Nat.lt_of_lt_of_le hc first.clients)).trans (first.definition c hc)
  closed c hc h := second.closed c (Nat.lt_of_lt_of_le hc first.clients) (first.closed c hc h)
  broken l h := second.broken l (first.broken l h)
  next c := Nat.le_trans (first.next c) (second.next c)
  entered c t ht := by
    rcases second.entered c t ht with hmem | ⟨hnext, hissued⟩
    · exact (first.entered c t hmem).imp_right fun hnew =>
        ⟨hnew.1, Nat.lt_of_lt_of_le hnew.2 (second.next c)⟩
    · exact .inr ⟨Nat.le_trans (first.next c) hnext, hissued⟩

/-- Nothing changes that matters here, but for how sessions run. -/
theorem of_eq (hregistry : h'.registry = h.registry) (hroster : h'.roster = h.roster)
    (hsessions : h'.sessions.length = h.sessions.length)
    (hidentity : ∀ s, (h'.session s).identity = (h.session s).identity)
    (hclients : h'.clients = h.clients) (hlinks : h'.links = h.links)
    (hlocks : h'.locks = h.locks) : h.Proceeds h' := by
  have hclient : ∀ c, h'.client c = h.client c := fun c => by rw [client, hclients]; rfl
  have hlink : ∀ l, h'.link l = h.link l := fun l => by rw [Hub.link, hlinks]; rfl
  have hqueue : ∀ c, h'.queue c = h.queue c := fun c => by rw [queue, lock, hlocks]; rfl
  constructor
  case registry => exact hregistry
  case roster => exact hroster
  case sessions => exact hsessions
  case identity => exact hidentity
  case clients => exact Nat.le_of_eq (by rw [hclients])
  case links => exact Nat.le_of_eq (by rw [hlinks])
  case link => exact fun c _ => by rw [hclient]
  case definition => exact fun c _ => by rw [hclient]
  case closed => exact fun c _ hclosed => by rwa [hclient]
  case broken => exact fun l hbroken => by rwa [hlink]
  case next => exact fun c => Nat.le_of_eq (by rw [hqueue])
  case entered => exact fun c t ht => .inl (by rwa [hqueue] at ht)

theorem refl (h : Hub) : h.Proceeds h := of_eq rfl rfl rfl (fun _ => rfl) rfl rfl rfl

theorem onSession {f : Session → Session} (hidentity : ∀ x, (f x).identity = x.identity) :
    h.Proceeds (h.onSession s f) := by
  refine of_eq rfl rfl (List.length_modify ..) (fun s' => ?_) rfl rfl rfl
  rw [session_of_onSession]
  split
  · exact hidentity _
  · rfl

theorem onLink {f : Link → Link} (hbroken : (h.link l).IsBroken → (f (h.link l)).IsBroken) :
    h.Proceeds (h.onLink l f) := by
  refine { refl h with links := Nat.le_of_eq (List.length_modify ..).symm, broken := ?_ }
  intro i hi
  rw [link_onLink]
  split
  · rename_i heq
    rw [← heq.1] at hi ⊢
    exact hbroken hi
  · exact hi

theorem write (m : Message) (size sent : Nat) :
    h.Proceeds (h.fromLink l (·.write m size sent)).2 :=
  onLink (f := fun _ => ((h.link l).write m size sent).2) fun hbroken => by rwa [hbroken.write]

end Proceeds

theorem speaker_onSession_of_running {f : Session → Session}
    (hrunning : ∀ x, (f x).running = x.running ∨ (f x).running = none)
    (hs : (h.onSession s f).speaker t = some c) : h.speaker t = some c := by
  rw [speaker, session_of_onSession] at hs
  split at hs
  · rcases hrunning (h.session t) with hrun | hnone
    · rwa [hrun] at hs
    · rw [hnone] at hs
      cases hs
  · exact hs

theorem state_onSession_of_started {f : Session → Session}
    (hstarted : ∀ x, (f x).state = .started → x.state = .started)
    (hs : ((h.onSession s f).session t).state = .started) : (h.session t).state = .started := by
  rw [session_of_onSession] at hs
  split at hs
  · exact hstarted _ hs
  · exact hs

namespace Mutes

theorem runs (hmutes : h.Mutes h') (hruns : h'.Runs s c) : h.Runs s c :=
  have hnow := runs_iff.mp hruns
  runs_iff.mpr ⟨hmutes.started s hnow.1, hmutes.speaker s c hnow.2⟩

theorem told_client (hmutes : h.Mutes h') (hc : c < h.clients.length) :
    h'.told? c = h.told? c := by
  rw [told?, linkOf, hmutes.link c hc]
  exact hmutes.told _

theorem trans (first : h.Mutes h') (second : h'.Mutes h'') : h.Mutes h'' where
  toProceeds := first.toProceeds.trans second.toProceeds
  started s hs := first.started s (second.started s hs)
  speaker s c hs := first.speaker s c (second.speaker s c hs)
  told l := (second.told l).trans (first.told l)

/-- Nothing changes that matters here. -/
theorem of_eq (hregistry : h'.registry = h.registry) (hroster : h'.roster = h.roster)
    (hsessions : h'.sessions = h.sessions) (hclients : h'.clients = h.clients)
    (hlinks : h'.links = h.links) (hlocks : h'.locks = h.locks) : h.Mutes h' := by
  have hsession : ∀ s, h'.session s = h.session s := fun s => by rw [session, hsessions]; rfl
  constructor
  case toProceeds =>
    exact .of_eq hregistry hroster (by rw [hsessions]) (fun s => by rw [hsession]) hclients hlinks
      hlocks
  case started => exact fun s hs => by rwa [hsession] at hs
  case speaker => exact fun s c hs => by rwa [Hub.speaker, hsession] at hs
  case told =>
    intro l
    rw [Hub.link, hlinks]
    rfl

theorem refl (h : Hub) : h.Mutes h := of_eq rfl rfl rfl rfl rfl rfl

theorem onClient {f : Client → Client} (hlink : (f (h.client c)).link = (h.client c).link)
    (hdefinition : (f (h.client c)).definition = (h.client c).definition)
    (hclosed : (h.client c).isOpen = false → (f (h.client c)).isOpen = false) :
    h.Mutes (h.onClient c f) := by
  refine { refl h with
    clients := Nat.le_of_eq (List.length_modify ..).symm
    link := fun d _ => ?_, definition := fun d _ => ?_, closed := fun d _ hopen => ?_ }
  · rw [client_onClient]
    split
    · rename_i hd
      rw [← hd.1]
      exact hlink
    · rfl
  · rw [client_onClient]
    split
    · rename_i hd
      rw [← hd.1]
      exact hdefinition
    · rfl
  · rw [client_onClient]
    split
    · rename_i hd
      rw [← hd.1] at hopen ⊢
      exact hclosed hopen
    · exact hopen

theorem fromClient {α : Type} {f : Client → α × Client}
    (hlink : (f (h.client c)).2.link = (h.client c).link)
    (hdefinition : (f (h.client c)).2.definition = (h.client c).definition)
    (hclosed : (h.client c).isOpen = false → (f (h.client c)).2.isOpen = false) :
    h.Mutes (h.fromClient c f).2 := onClient hlink hdefinition hclosed

theorem onSession {f : Session → Session} (hidentity : ∀ x, (f x).identity = x.identity)
    (hrunning : ∀ x, (f x).running = x.running ∨ (f x).running = none)
    (hstarted : ∀ x, (f x).state = .started → x.state = .started) :
    h.Mutes (h.onSession s f) where
  toProceeds := .onSession hidentity
  started _ hs := state_onSession_of_started hstarted hs
  speaker _ _ hs := speaker_onSession_of_running hrunning hs
  told _ := rfl

/-- What is changed of a session has nothing to do with its run. -/
theorem onSession_same {f : Session → Session} (hidentity : ∀ x, (f x).identity = x.identity)
    (hrunning : ∀ x, (f x).running = x.running) (hstate : ∀ x, (f x).state = x.state) :
    h.Mutes (h.onSession s f) :=
  onSession hidentity (fun x => .inl (hrunning x)) fun x hx => (hstate x).symm.trans hx

theorem onLink {f : Link → Link} (htold : (f (h.link l)).told? = (h.link l).told?)
    (hbroken : (h.link l).IsBroken → (f (h.link l)).IsBroken) : h.Mutes (h.onLink l f) where
  toProceeds := .onLink hbroken
  started _ := id
  speaker _ _ := id
  told i := by
    rw [link_onLink]
    split
    · rename_i heq
      rw [← heq.1]
      exact htold
    · rfl

theorem setLock {lock : Lock} (hnext : (h.lock n).next ≤ lock.next)
    (hentered : ∀ t ∈ lock.tickets,
      t ∈ (h.lock n).tickets ∨ (h.lock n).next ≤ t ∧ t < lock.next) :
    h.Mutes (h.setLock n lock) := by
  refine { refl h with next := fun c => ?_, entered := fun c t ht => ?_ }
  · rw [queue, queue, lock_setLock]
    split
    · rename_i hc
      rw [hc]
      exact hnext
    · exact Nat.le_refl _
  · rw [queue, lock_setLock] at ht
    rw [queue, queue, lock_setLock]
    split at ht
    · rename_i hc
      rw [if_pos hc, hc]
      exact hentered t ht
    · exact .inl ht

theorem enterLock : h.Mutes (Hub.enterLock n h).2 := by
  have hnext := Lock.enter_next (h.lock n)
  refine setLock (Nat.le_trans (Nat.le_succ _) (Nat.le_of_eq hnext.symm)) fun t ht => ?_
  refine (Lock.mem_tickets_of_enter ht).imp_right fun heq => ⟨Nat.le_of_eq heq.symm, ?_⟩
  rw [heq]
  exact Nat.lt_of_lt_of_eq (Nat.lt_succ_self _) hnext.symm

theorem leaveLock : h.Mutes (Hub.leaveLock n t h) :=
  setLock (Nat.le_of_eq (Lock.leave_next ..).symm) fun _ ht => .inl (Lock.mem_tickets_of_leave ht)

theorem write {m : Message} {size sent : Nat} (hm : sent ≠ 0 ∨ m.settings? = none) :
    h.Mutes (h.fromLink l (·.write m size sent)).2 :=
  onLink (f := fun _ => ((h.link l).write m size sent).2) (Link.told?_write_of_silent _ hm)
    fun hbroken => by rwa [hbroken.write]

theorem addLink {added : OpenedLink} (htold : added.link.told? = none) :
    h.Mutes { h with links := h.links ++ [added] } := by
  have hlink : ∀ i, Hub.link { h with links := h.links ++ [added] } i =
      if i = h.links.length then added.link else h.link i := fun i => by
    rw [link_eq, link_eq, getD_append_singleton]
    split <;> rfl
  have hfresh : h.link h.links.length = .fresh := by
    rw [link, List.getElem?_eq_none (Nat.le_refl _)]
    rfl
  refine { refl h with links := ?_, broken := fun i hi => ?_, told := fun i => ?_ }
  · rw [List.length_append]
    exact Nat.le_add_right ..
  · rw [hlink]
    split
    · rename_i heq
      rw [heq, hfresh] at hi
      cases hi
    · exact hi
  · rw [hlink]
    split
    · rename_i heq
      rw [heq, hfresh]
      exact htold
    · rfl

theorem addClient (added : Client) : h.Mutes { h with clients := h.clients ++ [added] } := by
  have hclient : ∀ c < h.clients.length,
      Hub.client { h with clients := h.clients ++ [added] } c = h.client c := fun c hc =>
    (getD_append_singleton ..).trans (if_neg (Nat.ne_of_lt hc))
  refine { refl h with
    clients := ?_
    link := fun c hc => by rw [hclient c hc]
    definition := fun c hc => by rw [hclient c hc]
    closed := fun c hc hclosed => by rwa [hclient c hc] }
  rw [List.length_append]
  exact Nat.le_add_right ..

end Mutes

end Hub

end LanguageHub
