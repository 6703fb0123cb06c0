import LanguageHub.Feature.Request
import LanguageHub.Proofs.Hub.Keys
import LanguageHub.Proofs.Registry.Matching
import Mathlib.Data.List.Find

/-!
# Where a document leads

A document is routed in two ways. When it is connected, it leads to one session of each definition
that the registry finds for it, and what is missing is made. When something is asked about it, the
sessions are only looked up, and those count that run and have the document. Both ways search for
a definition's id and a scope.

Laws: what is looked up is what would be made, in the same order, without the sessions that do not
run or do not have the document; nothing is asked of any other session.
-/

namespace LanguageHub

/-- The session runs and has the document. -/
def Session.attends (uri : String) (s : Session) : Bool :=
  s.state = .started && s.isConnected uri

namespace Hub

variable {h h' : Hub} {d : ServerDefinition} {ds : List ServerDefinition} {path : String} {s : Nat}

/-- The session is on the roster, under the definition's id and for the scope of the path. -/
structure LeadsTo (h : Hub) (path : String) (d : ServerDefinition) (s : Nat) : Prop where
  listed : s ∈ h.roster
  id : (h.session s).serverId = d.id
  scope : (h.session s).scope.same (h.scopeFor d path) = true

/-- The sessions of definitions for a path, as far as there are any. -/
def sessionsFound (h : Hub) (path : String) (ds : List ServerDefinition) : List Nat :=
  ds.filterMap fun d => h.sessionOf? d.id (h.scopeFor d path)

/-! ## One definition -/

theorem session_sessionFor (d : ServerDefinition) (path : String) (hs : s < h.sessions.length) :
    (sessionFor d path h).2.session s = h.session s := by
  unfold sessionFor
  dsimp only
  split
  · rfl
  · simp only [session, List.getElem?_append_left hs]

theorem sessionFor_of_some (hfound : h.sessionOf? d.id (h.scopeFor d path) = some s) :
    sessionFor d path h = (s, h) := by
  simp only [sessionFor, hfound]

/-- A session that was just made. -/
theorem session_sessionFor_of_none (hnone : h.sessionOf? d.id (h.scopeFor d path) = none) :
    (sessionFor d path h).2.session (sessionFor d path h).1 =
      .new d.id d.serial (h.scopeFor d path) (h.foldersFor (h.scopeFor d path) path)
        (h.registry.connectionFor d) := by
  simp only [sessionFor, hnone, session, List.getElem?_concat_length, Option.getD_some]

theorem leadsTo_sessionFor (d : ServerDefinition) (path : String) (h : Hub) :
    (sessionFor d path h).2.LeadsTo path d (sessionFor d path h).1 := by
  obtain ⟨hlisted, hid, hscope⟩ := key_sessionFor d path h
  exact ⟨hlisted, hid, by rwa [scopeFor_of_roots (roots_sessionFor d path h)]⟩

/-- Where sessions of other ids are found does not change. -/
theorem sessionOf?_sessionFor (hknown : ∀ s ∈ h.roster, s < h.sessions.length) {id : String}
    (hid : d.id ≠ id) (scope : ScopeKey) :
    (sessionFor d path h).2.sessionOf? id scope = h.sessionOf? id scope := by
  have hsession := fun s hs => session_sessionFor d path (hknown s hs)
  cases hfound : h.sessionOf? d.id (h.scopeFor d path) with
  | some s => rw [sessionFor_of_some hfound]
  | none =>
    have hnew := session_sessionFor_of_none hfound
    have hroster : (sessionFor d path h).2.roster = h.roster ++ [(sessionFor d path h).1] := by
      simp only [sessionFor, hfound]
    generalize sessionFor d path h = made at hsession hnew hroster
    have hother : (made.2.session made.1).serverId ≠ id := by rwa [hnew]
    unfold sessionOf?
    rw [hroster, List.find?_append, List.find?_singleton]
    simp only [beq_false_of_ne hother, Bool.false_and, Bool.false_eq_true, if_false, Option.or_none]
    exact List.find?_congr fun s hs => by rw [hsession s hs]

/-! ## All definitions -/

theorem session_sessionsForAll (path : String) (ds : List ServerDefinition)
    (hs : s < h.sessions.length) : (sessionsForAll path ds h).2.session s = h.session s := by
  induction ds generalizing h with
  | nil => rfl
  | cons d ds ih =>
    have hs' := ((remembers_sessionFor d path h).identity hs).1
    exact (ih hs').trans (session_sessionFor d path hs)

/-- Where a definition leads to does not change when other sessions are made. -/
theorem LeadsTo.sessionFor (hleads : h.LeadsTo path d s) (hkeys : h.OnePerKey)
    (e : ServerDefinition) : (sessionFor e path h).2.LeadsTo path d s := by
  obtain ⟨hid, hscope⟩ := (remembers_sessionFor e path h).key (hkeys.known s hleads.listed)
  exact ⟨(roster_sessionFor e path h).subset hleads.listed, hid.trans hleads.id,
    by rw [hscope, scopeFor_of_roots (roots_sessionFor e path h), hleads.scope]⟩

theorem LeadsTo.sessionsForAll (hleads : h.LeadsTo path d s) (hkeys : h.OnePerKey)
    (ds : List ServerDefinition) : (sessionsForAll path ds h).2.LeadsTo path d s := by
  induction ds generalizing h with
  | nil => exact hleads
  | cons e ds ih => exact ih (hleads.sessionFor hkeys e) ((musters_sessionFor e path h).keys hkeys)

theorem leadsTo_sessionsForAll (hkeys : h.OnePerKey) (path : String)
    (ds : List ServerDefinition) :
    List.Forall₂ ((sessionsForAll path ds h).2.LeadsTo path) ds (sessionsForAll path ds h).1 := by
  induction ds generalizing h with
  | nil => exact .nil
  | cons d ds ih =>
    have hkeys' := (musters_sessionFor d path h).keys hkeys
    exact .cons ((leadsTo_sessionFor d path h).sessionsForAll hkeys' ds) (ih hkeys')

/-- Definitions with different ids lead to different sessions. -/
theorem nodup_of_leadsTo {ss : List Nat} (hleads : List.Forall₂ (h.LeadsTo path) ds ss)
    (hids : ds.Pairwise fun d e => d.id ≠ e.id) : ss.Nodup := by
  have hmap : ss.map (fun s => (h.session s).serverId) = ds.map (·.id) := by
    clear hids
    induction hleads with
    | nil => rfl
    | cons hfirst _ ih => rw [List.map_cons, List.map_cons, hfirst.id, ih]
  have hnodup : (ds.map (·.id)).Nodup := List.pairwise_map.mpr hids
  exact List.Nodup.of_map _ (hmap ▸ hnodup)

theorem mem_sessionsFound (hs : s ∈ h.sessionsFound path ds) :
    ∃ d ∈ ds, h.LeadsTo path d s := by
  obtain ⟨d, hd, hfound⟩ := List.mem_filterMap.mp hs
  obtain ⟨hlisted, hid, hscope⟩ := sessionOf?_eq_some hfound
  exact ⟨d, hd, hlisted, hid, hscope⟩

theorem sessionsFound_of_some (hfound : h.sessionOf? d.id (h.scopeFor d path) = some s) :
    h.sessionsFound path (d :: ds) = s :: h.sessionsFound path ds := by
  simp only [sessionsFound, List.filterMap_cons, hfound]

theorem sessionsFound_of_none (hnone : h.sessionOf? d.id (h.scopeFor d path) = none) :
    h.sessionsFound path (d :: ds) = h.sessionsFound path ds := by
  simp only [sessionsFound, List.filterMap_cons, hnone]

/-- What is found for the other definitions stays when a session is made. -/
theorem sessionsFound_sessionFor (hkeys : h.OnePerKey) (hids : ∀ e ∈ ds, d.id ≠ e.id) :
    (sessionFor d path h).2.sessionsFound path ds = h.sessionsFound path ds :=
  List.filterMap_congr fun e he => by
    rw [scopeFor_of_roots (roots_sessionFor d path h),
      sessionOf?_sessionFor hkeys.known (hids e he)]

theorem filter_sessionsFound_sessionFor (hkeys : h.OnePerKey) (hids : ∀ e ∈ ds, d.id ≠ e.id)
    (p : Session → Bool) :
    ((sessionFor d path h).2.sessionsFound path ds).filter
        (fun s => p ((sessionFor d path h).2.session s)) =
      (h.sessionsFound path ds).filter fun s => p (h.session s) := by
  rw [sessionsFound_sessionFor hkeys hids]
  refine List.filter_congr fun s hs => ?_
  obtain ⟨_, _, hleads⟩ := mem_sessionsFound hs
  rw [session_sessionFor d path (hkeys.known s hleads.listed)]

/-- Of the sessions that are made as needed, those with a property that no new session has are the
ones that would have been found. -/
theorem filter_sessionsForAll (hkeys : h.OnePerKey) (hids : ds.Pairwise fun d e => d.id ≠ e.id)
    {p : Session → Bool}
    (hnew : ∀ id serial scope folders connection,
      p (.new id serial scope folders connection) = false) :
    (sessionsForAll path ds h).1.filter (fun s => p ((sessionsForAll path ds h).2.session s)) =
      (h.sessionsFound path ds).filter fun s => p (h.session s) := by
  induction ds generalizing h with
  | nil => rfl
  | cons d ds ih =>
    rw [List.pairwise_cons] at hids
    have hkeys' := (musters_sessionFor d path h).keys hkeys
    have hfirst := session_sessionsForAll path ds
      (hkeys'.known _ (leadsTo_sessionFor d path h).listed)
    have hrest := (ih hkeys' hids.2).trans (filter_sessionsFound_sessionFor hkeys hids.1 p)
    simp only [sessionsForAll, List.filter_cons, hfirst, hrest]
    cases hfound : h.sessionOf? d.id (h.scopeFor d path) with
    | some s => rw [sessionFor_of_some hfound, sessionsFound_of_some hfound, List.filter_cons]
    | none =>
      rw [session_sessionFor_of_none hfound, sessionsFound_of_none hfound, hnew,
        if_neg Bool.false_ne_true]

/-! ## A document -/

theorem pairwise_id_definitionsFor (r : Registry) (language : Language) (path : String) :
    (r.definitionsFor language path).Pairwise fun d e => d.id ≠ e.id :=
  (r.pairwise_definitionsFor language path).imp fun hless hid =>
    absurd (hid ▸ hless) (Nat.lt_irrefl _)

/-- With whatever else is asked of them, the sessions that are looked up are those to which the
document would be routed, without the ones that do not run or do not have it. -/
theorem filter_startedSessionsFor (hkeys : h.OnePerKey) (document : DocumentRef)
    (p : Session → Bool) :
    (h.startedSessionsFor document).filter (fun s => p (h.session s)) =
      (sessionsFor document h).1.filter fun s =>
        p ((sessionsFor document h).2.session s) &&
          ((sessionsFor document h).2.session s).attends document.uri := by
  have hids := pairwise_id_definitionsFor h.registry document.language document.path
  rw [sessionsFor, filter_sessionsForAll hkeys hids
    (p := fun session => p session && session.attends document.uri)
    fun _ _ _ _ _ => Bool.and_false _]
  exact List.filter_filter

/-- The server that is to format a document is one of those that can do it. -/
theorem mem_of_formatter? {document : DocumentRef} {options params : Json} {range : Option Range}
    {method : String}
    (hformatter : h.formatter? document options range = some (s, method, params)) :
    s ∈ h.startedSessionsFor document := by
  have hfirst : ∀ can, (h.eligibleSessions document can).head? = some s →
      s ∈ h.startedSessionsFor document := fun can hhead =>
    List.mem_of_mem_filter (List.mem_of_head? hhead)
  rcases Option.or_eq_some_iff.mp hformatter with hranged | ⟨-, hwhole⟩
  · obtain ⟨_, -, hranged⟩ := Option.bind_eq_some_iff.mp hranged
    obtain ⟨first, hhead, hsame⟩ := Option.map_eq_some_iff.mp hranged
    exact hfirst _ ((Prod.mk.inj hsame).1 ▸ hhead)
  · obtain ⟨first, hhead, hsame⟩ := Option.map_eq_some_iff.mp hwhole
    exact hfirst _ ((Prod.mk.inj hsame).1 ▸ hhead)

end Hub

namespace Routing

open Lifecycle (Action run)
open Following (begin)

/-- In every run a document leads to one session of each definition that the registry finds for it,
and to none twice. What is looked up for it is this list without the sessions that do not run or do
not have the document, and a question is put to those of them that can answer it; the question makes
no session. Nothing is asked of a session to which the document does not lead. -/
theorem started_of_run {h : Hub} (hkeys : h.OnePerKey) {actions : List Action}
    (hactions : ∀ action ∈ actions, IsUsual action) (document : DocumentRef) :
    let h' := (run (begin h) actions).state
    let routed := Hub.sessionsFor document h'
    List.Forall₂ (routed.2.LeadsTo document.path)
        (h'.registry.definitionsFor document.language document.path) routed.1 ∧
      routed.1.Nodup ∧ (h'.startedSessionsFor document).Nodup ∧
      h'.startedSessionsFor document =
        routed.1.filter (fun s => (routed.2.session s).attends document.uri) ∧
      (∀ can, h'.eligibleSessions document can = routed.1.filter fun s =>
        (routed.2.session s).capabilities?.any can && (routed.2.session s).attends document.uri) ∧
      (∀ feature, (FeatureRequest.new feature document h').1.sessions =
          h'.eligibleSessions document feature.isSupported ∧
        (FeatureRequest.new feature document h').2.sessions = h'.sessions ∧
        (FeatureRequest.new feature document h').2.roster = h'.roster) ∧
      ∀ options range s method params,
        h'.formatter? document options range = some (s, method, params) →
          s ∈ h'.startedSessionsFor document := by
  intro h' routed
  have hkeys' : h'.OnePerKey := (houses_run (isHousing_begin h) hactions).1.keys hkeys
  have hleads := Hub.leadsTo_sessionsForAll hkeys' document.path
    (h'.registry.definitionsFor document.language document.path)
  have hnodup := Hub.nodup_of_leadsTo hleads
    (Hub.pairwise_id_definitionsFor h'.registry document.language document.path)
  have hstarted := Hub.filter_startedSessionsFor hkeys' document fun _ => true
  rw [List.filter_true] at hstarted
  refine ⟨hleads, hnodup, hstarted ▸ hnodup.filter _, hstarted, fun can => ?_,
    fun feature => ⟨rfl, rfl, rfl⟩, fun _ _ _ _ _ => Hub.mem_of_formatter?⟩
  exact Hub.filter_startedSessionsFor hkeys' document fun session => session.capabilities?.any can

/-- One of two servers runs and has the document. The other one was registered again, so the
document leads to a session that is still to be made, and comes first. -/
theorem started_of_run_replaced :
    let py : ServerDefinition := { ServerDefinition.new "py" .factory with scope := .project }
    let operations : List Registry.Operation := [.add py, .add (.new "lint" .factory),
      .associate ⟨"python", []⟩ "py" none none, .associate ⟨"python", []⟩ "lint" none none]
    let h := { Hub.new (operations.foldl Registry.Operation.apply .empty) ["/w"] default with
      sessions := [.new "py" 1 (.project "/w") ["/w"] .factory,
        { Session.new "lint" 2 .application ["/w"] .factory with
          state := .started, running := some ⟨0, default⟩, documents := [("file:///w/a", 0)] }]
      roster := [0, 1] }
    let actions : List Action := [.others (Hub.onRegistry (.add py)), .goOn 0]
    let document : DocumentRef := ⟨"file:///w/a", "/w/a", ⟨"python", []⟩⟩
    let h' := (run (begin h) actions).state
    let routed := Hub.sessionsFor document h'
    h.OnePerKey ∧ routed.1 = [2, 1] ∧ h'.startedSessionsFor document =
      routed.1.filter (fun s => (routed.2.session s).attends document.uri) ∧
      h'.startedSessionsFor document = [1] := by
  intro py operations h actions document h' routed
  have hkeys : h.OnePerKey := ⟨by decide +kernel, by decide +kernel⟩
  have hactions : ∀ action ∈ actions, IsUsual action := by
    simp only [actions, List.forall_mem_cons, IsUsual]
    exact ⟨.inr (.inl ⟨_, rfl⟩), trivial, List.forall_mem_nil _⟩
  obtain ⟨-, -, -, hstarted, -⟩ := started_of_run hkeys hactions document
  exact ⟨hkeys, by decide +kernel, hstarted, by decide +kernel⟩

end Routing

end LanguageHub
