import LanguageHub.Proofs.Hub.Following
import LanguageHub.Proofs.Wire.Framing
import Mathlib.Data.List.Pairwise

/-!
# One session for each key

A session is made for a definition's id and a scope: together they are its key. The roster never
has two sessions of one key, whatever is routed, and whatever is done to the registry. So to which
session a path leads is only a matter of its scope, as long as no session of the definition is taken
off the roster.

Laws: one session for each key, in every run; two paths have one session if and only if the
definition has one session for all of them, or they have one root.
-/

namespace LanguageHub

open Routine

/-! ## Paths -/

namespace Path

variable {a b c path : String}

theorem same_iff :
    Path.same a b = true ↔ isAbsolute a = isAbsolute b ∧ components a = components b := by
  simp [same]

/-- The root is a step, and no component is one like it. -/
theorem separator_not_mem_components (path : String) : "/" ∉ components path := by
  intro hmem
  obtain ⟨piece, hpiece, hslash⟩ := List.mem_map.mp hmem
  have hin : piece ∈ Text.splitOn '/' path.toList := by
    split at hpiece
    · rename_i rest hsplit
      rw [hsplit]
      exact (List.mem_cons.mp hpiece).elim (· ▸ List.mem_cons_self ..) fun hkept =>
        List.mem_cons_of_mem _ (List.mem_of_mem_filter hkept)
    · exact List.mem_of_mem_filter hpiece
  have hpiece' : piece = ['/'] := by
    have := congrArg String.toList hslash
    simpa using this
  exact Text.separator_not_mem_splitOn hin (hpiece' ▸ List.mem_singleton_self _)

theorem same_of_steps (hsteps : steps a = steps b) : Path.same a b = true := by
  rw [same_iff]
  unfold steps at hsteps
  split at hsteps <;> split at hsteps <;> rename_i ha hb
  · exact ⟨ha.trans hb.symm, List.tail_eq_of_cons_eq hsteps⟩
  · exact absurd (hsteps ▸ List.mem_cons_self ..) (separator_not_mem_components b)
  · exact absurd (hsteps ▸ List.mem_cons_self ..) (separator_not_mem_components a)
  · exact ⟨(eq_false_of_ne_true ha).trans (eq_false_of_ne_true hb).symm, hsteps⟩

end Path

/-! ## Scopes -/

namespace ScopeKey

variable {k k' k'' : ScopeKey}

theorem same_refl (k : ScopeKey) : k.same k = true := by
  cases k <;> simp [same, Path.same]

theorem same_symm (hsame : k.same k' = true) : k'.same k = true := by
  cases k <;> cases k' <;> simp_all [same, Path.same]

theorem same_trans (hsame : k.same k' = true) (hsame' : k'.same k'' = true) :
    k.same k'' = true := by
  cases k <;> cases k' <;> cases k'' <;> simp_all [same, Path.same]

end ScopeKey

namespace Hub

variable {h h' h'' : Hub}

/-! ## Roots -/

/-- The root is the deepest folder above the path, or the path's own directory where there is no
folder above. -/
def IsRootOf (h : Hub) (path root : String) : Prop :=
  (root ∈ h.roots ∧ Path.startsWith path root = true ∧ ∀ other ∈ h.roots,
    Path.startsWith path other = true →
      (Path.steps other).length ≤ (Path.steps root).length) ∨
  (∀ other ∈ h.roots, Path.startsWith path other = false) ∧ root = (Path.parent? path).getD ""

theorem foldl_deeper (roots : List String) (best : String) :
    ∃ root, roots.foldl deeper (some best) = some root ∧ (root = best ∨ root ∈ roots) ∧
      ∀ other ∈ best :: roots, (Path.steps other).length ≤ (Path.steps root).length := by
  induction roots generalizing best with
  | nil => exact ⟨best, rfl, .inl rfl, by simp⟩
  | cons next rest ih =>
    rw [List.foldl_cons, deeper]
    split
    · rename_i hless
      obtain ⟨root, hroot, hmem, hdeepest⟩ := ih best
      refine ⟨root, hroot, hmem.imp_right (List.mem_cons_of_mem _), ?_⟩
      rw [List.forall_mem_cons] at hdeepest ⊢
      exact ⟨hdeepest.1, List.forall_mem_cons.mpr
        ⟨Nat.le_trans (Nat.le_of_lt hless) hdeepest.1, hdeepest.2⟩⟩
    · rename_i hle
      obtain ⟨root, hroot, hmem, hdeepest⟩ := ih next
      refine ⟨root, hroot, .inr ?_, ?_⟩
      · exact hmem.elim (· ▸ List.mem_cons_self ..) (List.mem_cons_of_mem _)
      · rw [List.forall_mem_cons] at hdeepest
        exact List.forall_mem_cons.mpr
          ⟨Nat.le_trans (Nat.le_of_not_lt hle) hdeepest.1, List.forall_mem_cons.mpr hdeepest⟩

theorem isRootOf_rootFor (h : Hub) (path : String) : h.IsRootOf path (h.rootFor path) := by
  have hmem : ∀ root, root ∈ h.roots.filter (Path.startsWith path) ↔
      root ∈ h.roots ∧ Path.startsWith path root = true := fun root => List.mem_filter
  unfold rootFor
  cases habove : h.roots.filter (Path.startsWith path) with
  | nil =>
    refine .inr ⟨fun other hother => ?_, by simp⟩
    have hnone := (hmem other).not.mp (habove ▸ List.not_mem_nil)
    exact eq_false_of_ne_true fun hstarts => hnone ⟨hother, hstarts⟩
  | cons first rest =>
    obtain ⟨root, hroot, hamong, hdeepest⟩ := foldl_deeper rest first
    have hin : root ∈ first :: rest :=
      hamong.elim (· ▸ List.mem_cons_self ..) (List.mem_cons_of_mem _)
    rw [← habove] at hin hdeepest
    obtain ⟨hroots, hstarts⟩ := (hmem root).mp hin
    refine .inl ?_
    simp only [List.foldl_cons, deeper, hroot, Option.some_or, Option.getD_some]
    exact ⟨hroots, hstarts, fun other hother hother' =>
      hdeepest other ((hmem other).mpr ⟨hother, hother'⟩)⟩

/-- Two folders of which both are the deepest above a path are the same. -/
theorem IsRootOf.same {path root root' : String} (hroot : h.IsRootOf path root)
    (hroot' : h.IsRootOf path root') : Path.same root root' = true := by
  rcases hroot with ⟨hmem, hstarts, hdeepest⟩ | ⟨hnone, rfl⟩
  · rcases hroot' with ⟨hmem', hstarts', hdeepest'⟩ | ⟨hnone', -⟩
    · have hlength := Nat.le_antisymm (hdeepest' root hmem hstarts) (hdeepest root' hmem' hstarts')
      have hprefix := List.isPrefixOf_iff_prefix.mp hstarts
      have hprefix' := List.isPrefixOf_iff_prefix.mp hstarts'
      exact Path.same_of_steps
        ((List.prefix_of_prefix_length_le hprefix hprefix' (Nat.le_of_eq hlength)).eq_of_length
          hlength)
    · exact absurd hstarts (Bool.eq_false_iff.mp (hnone' root hmem))
  · rcases hroot' with ⟨hmem', hstarts', -⟩ | ⟨-, rfl⟩
    · exact absurd hstarts' (Bool.eq_false_iff.mp (hnone root' hmem'))
    · simp [Path.same]

theorem same_scopeFor (h : Hub) (d : ServerDefinition) (p q : String) :
    (h.scopeFor d p).same (h.scopeFor d q) = true ↔
      d.singleton = true ∨ d.scope = .application ∨
        Path.same (h.rootFor p) (h.rootFor q) = true := by
  unfold scopeFor
  split
  · rename_i hone
    simp only [ScopeKey.same, true_iff]
    exact hone.imp_right .inl
  · rename_i hmany
    rw [not_or] at hmany
    simp only [ScopeKey.same, hmany.1, hmany.2, Bool.false_eq_true, false_or]

theorem scopeFor_of_roots (hroots : h'.roots = h.roots) (d : ServerDefinition) (path : String) :
    h'.scopeFor d path = h.scopeFor d path := by
  unfold scopeFor rootFor
  rw [hroots]

/-! ## Keys -/

/-- Two sessions are for one definition's id and one scope. -/
def SameKey (h : Hub) (s s' : Nat) : Prop :=
  (h.session s).serverId = (h.session s').serverId ∧
    (h.session s).scope.same (h.session s').scope = true

instance (h : Hub) (s s' : Nat) : Decidable (h.SameKey s s') :=
  inferInstanceAs (Decidable ((h.session s).serverId = (h.session s').serverId ∧
    (h.session s).scope.same (h.session s').scope = true))

/-- The roster has sessions that are there, and no two of one key. -/
structure OnePerKey (h : Hub) : Prop where
  known : ∀ s ∈ h.roster, s < h.sessions.length
  distinct : h.roster.Pairwise fun s s' => ¬ h.SameKey s s'

theorem SameKey.symm {s s' : Nat} (hsame : h.SameKey s s') : h.SameKey s' s :=
  ⟨hsame.1.symm, ScopeKey.same_symm hsame.2⟩

/-- What has the key of a session on the roster, and is there itself, is that session. -/
theorem OnePerKey.eq (hkeys : h.OnePerKey) {s s' : Nat} (hs : s ∈ h.roster) (hs' : s' ∈ h.roster)
    (hsame : h.SameKey s s') : s = s' := by
  have hsymm : Std.Symm fun s s' => ¬ h.SameKey s s' := ⟨fun _ _ hdiffer hback =>
    hdiffer hback.symm⟩
  by_contra hne
  exact hkeys.distinct.forall hs hs' hne hsame

/-- Each session stays what it is for. -/
def Remembers (h h' : Hub) : Prop :=
  h.sessions.map Session.identity <+: h'.sessions.map Session.identity

theorem Remembers.identity (hremembers : h.Remembers h') {s : Nat} (hs : s < h.sessions.length) :
    s < h'.sessions.length ∧ (h'.session s).identity = (h.session s).identity := by
  have hlength := List.IsPrefix.length_le hremembers
  rw [List.length_map, List.length_map] at hlength
  have hs' : s < h'.sessions.length := Nat.lt_of_lt_of_le hs hlength
  have hget := List.IsPrefix.getElem hremembers (i := s) (by simpa using hs)
  simp only [List.getElem_map] at hget
  simp only [session, List.getElem?_eq_getElem hs, List.getElem?_eq_getElem hs', Option.getD_some]
  exact ⟨hs', hget.symm⟩

/-- What a session is for is its key and the object that it runs. -/
theorem Remembers.key (hremembers : h.Remembers h') {s : Nat} (hs : s < h.sessions.length) :
    (h'.session s).serverId = (h.session s).serverId ∧
      (h'.session s).scope = (h.session s).scope := by
  obtain ⟨hid, hrest⟩ := Prod.mk.inj (hremembers.identity hs).2
  exact ⟨hid, (Prod.mk.inj hrest).2⟩

theorem Remembers.sameKey (hremembers : h.Remembers h') {s s' : Nat} (hs : s < h.sessions.length)
    (hs' : s' < h.sessions.length) : h'.SameKey s s' ↔ h.SameKey s s' := by
  unfold SameKey
  rw [(hremembers.key hs).1, (hremembers.key hs).2, (hremembers.key hs').1, (hremembers.key hs').2]

/-- The roster may lose sessions, but none comes on it. -/
theorem Remembers.onePerKey (hremembers : h.Remembers h') (hroster : h'.roster.Sublist h.roster)
    (hkeys : h.OnePerKey) : h'.OnePerKey where
  known s hs := (hremembers.identity (hkeys.known s (hroster.subset hs))).1
  distinct := by
    refine (hkeys.distinct.sublist hroster).imp_of_mem fun hs hs' hdiffer hsame => hdiffer ?_
    exact (hremembers.sameKey (hkeys.known _ (hroster.subset hs))
      (hkeys.known _ (hroster.subset hs'))).mp hsame

/-- Sessions are remembered, and no key comes to have two sessions. -/
structure Musters (h h' : Hub) : Prop where
  remembers : h.Remembers h'
  keys : h.OnePerKey → h'.OnePerKey

theorem Musters.refl (h : Hub) : h.Musters h := ⟨List.prefix_refl _, id⟩

theorem Musters.trans (first : h.Musters h') (second : h'.Musters h'') : h.Musters h'' :=
  ⟨List.IsPrefix.trans first.remembers second.remembers, second.keys ∘ first.keys⟩

theorem Remembers.musters (hremembers : h.Remembers h') (hroster : h'.roster.Sublist h.roster) :
    h.Musters h' :=
  ⟨hremembers, hremembers.onePerKey hroster⟩

/-- The workspace folders stay as well. -/
structure Houses (h h' : Hub) : Prop extends h.Musters h' where
  roots : h'.roots = h.roots

theorem Houses.refl (h : Hub) : h.Houses h := ⟨.refl h, rfl⟩

theorem Houses.trans (first : h.Houses h') (second : h'.Houses h'') : h.Houses h'' :=
  ⟨first.toMusters.trans second.toMusters, second.roots.trans first.roots⟩

/-! ## What is done to the roster -/

theorem sessionOf?_eq_some {id : String} {scope : ScopeKey} {s : Nat}
    (hfound : h.sessionOf? id scope = some s) :
    s ∈ h.roster ∧ (h.session s).serverId = id ∧ (h.session s).scope.same scope = true := by
  have hkey := List.find?_some hfound
  simp only [Bool.and_eq_true, beq_iff_eq] at hkey
  exact ⟨List.mem_of_find?_eq_some hfound, hkey⟩

theorem sessionOf?_eq_none {id : String} {scope : ScopeKey} (hnone : h.sessionOf? id scope = none)
    {s : Nat} (hs : s ∈ h.roster) (hid : (h.session s).serverId = id) :
    (h.session s).scope.same scope = false := by
  have hother := List.find?_eq_none.mp hnone s hs
  simpa [hid] using hother

theorem remembers_sessionFor (d : ServerDefinition) (path : String) (h : Hub) :
    h.Remembers (sessionFor d path h).2 := by
  unfold sessionFor
  dsimp only
  split
  · exact List.prefix_refl _
  · simp only [Remembers, List.map_append, List.prefix_append]

theorem roots_sessionFor (d : ServerDefinition) (path : String) (h : Hub) :
    (sessionFor d path h).2.roots = h.roots := by
  unfold sessionFor
  dsimp only
  split <;> rfl

theorem roster_sessionFor (d : ServerDefinition) (path : String) (h : Hub) :
    h.roster <+: (sessionFor d path h).2.roster := by
  unfold sessionFor
  dsimp only
  split
  · exact List.prefix_refl _
  · exact List.prefix_append _ _

/-- The session for a path is on the roster, and has the key of the definition and the path. -/
theorem key_sessionFor (d : ServerDefinition) (path : String) (h : Hub) :
    (sessionFor d path h).1 ∈ (sessionFor d path h).2.roster ∧
      ((sessionFor d path h).2.session (sessionFor d path h).1).serverId = d.id ∧
      ((sessionFor d path h).2.session (sessionFor d path h).1).scope.same
        (h.scopeFor d path) = true := by
  unfold sessionFor
  dsimp only
  split
  · exact sessionOf?_eq_some ‹_›
  · simp only [session, List.getElem?_concat_length, Option.getD_some, List.mem_append,
      List.mem_singleton, or_true, true_and]
    exact ⟨rfl, ScopeKey.same_refl _⟩

theorem musters_sessionFor (d : ServerDefinition) (path : String) (h : Hub) :
    h.Musters (sessionFor d path h).2 := by
  refine ⟨remembers_sessionFor d path h, fun hkeys => ?_⟩
  have hremembers := remembers_sessionFor d path h
  obtain ⟨hmem, hid, hscope⟩ := key_sessionFor d path h
  revert hremembers hmem hid hscope
  unfold sessionFor
  dsimp only
  split
  · exact fun _ _ _ _ => hkeys
  · rename_i hnone
    intro hremembers _ hid hscope
    refine ⟨fun s hs => ?_, List.pairwise_append.mpr ⟨?_, List.pairwise_singleton .., ?_⟩⟩
    · rw [List.length_append, List.length_singleton]
      rcases List.mem_append.mp hs with hold | hnew
      · exact Nat.lt_succ_of_lt (hkeys.known s hold)
      · exact Nat.lt_succ_of_le (Nat.le_of_eq (List.mem_singleton.mp hnew))
    · exact hkeys.distinct.imp_of_mem fun hs hs' hdiffer hsame => hdiffer
        ((hremembers.sameKey (hkeys.known _ hs) (hkeys.known _ hs')).mp hsame)
    · -- A session with the new one's key would have been found.
      intro s hs s' hs' ⟨hsameId, hsameScope⟩
      obtain rfl := List.mem_singleton.mp hs'
      obtain ⟨hid', hscope'⟩ := hremembers.key (hkeys.known s hs)
      rw [hid', hid] at hsameId
      rw [hscope'] at hsameScope
      have hother := sessionOf?_eq_none hnone hs hsameId
      rw [ScopeKey.same_trans hsameScope hscope] at hother
      cases hother

theorem houses_sessionFor (d : ServerDefinition) (path : String) (h : Hub) :
    h.Houses (sessionFor d path h).2 :=
  ⟨musters_sessionFor d path h, roots_sessionFor d path h⟩

theorem houses_sessionsForAll (path : String) (ds : List ServerDefinition) (h : Hub) :
    h.Houses (sessionsForAll path ds h).2 := by
  induction ds generalizing h with
  | nil => exact .refl h
  | cons d ds ih => exact (houses_sessionFor d path h).trans (ih _)

theorem KeepsRoll.musters (hkept : h.KeepsRoll h') : h.Musters h' := by
  refine Remembers.musters ?_ (hkept.roster ▸ List.Sublist.refl _)
  rw [Remembers, hkept.identities]

theorem Serves.houses (hserves : h.Serves h') : h.Houses h' := by
  induction hserves with
  | keeps hkept hroots => exact ⟨hkept.musters, hroots⟩
  | routes document h => exact houses_sessionsForAll _ _ h
  | trans _ _ ih ih' => exact ih.trans ih'

theorem musters_dropSessions (id : String) (h : Hub) : h.Musters (dropSessions id h).2 :=
  Remembers.musters (List.prefix_refl _) List.filter_sublist

theorem houses_onRegistry (o : Registry.Operation) (h : Hub) : h.Houses (h.onRegistry o) :=
  ⟨Remembers.musters (List.prefix_refl _) (List.Sublist.refl _), rfl⟩

end Hub

/-! ## Following the registry -/

/-- All that the program does keeps one session for each key. -/
abbrev Housing {α : Type} (p : Program α) : Prop := p.Conducts Hub.Houses fun _ => True

theorem Serving.housing {α : Type} {p : Program α} (hp : Serving p) : Housing p :=
  hp.mono (fun _ _ => Hub.Serves.houses) fun _ _ => trivial

namespace Hub

theorem housing_follow (e : RegistryEvent) : Housing (follow e) := by
  cases he : e.lost? with
  | none => exact (serving_follow he).housing
  | some id =>
    rw [follow_of_lost he]
    exact .bind (f := stopAll) ⟨fun h => ⟨musters_dropSessions id h, rfl⟩, fun _ => trivial⟩
      fun sessions => (serving_stopAll sessions).housing

theorem housing_followNext (cursor : Nat) : Housing (followNext cursor) := by
  refine .bind (serving_waitUntil _).housing fun _ => .bind serving_get.housing fun h => ?_
  dsimp only
  split
  · exact (housing_follow _).bind fun _ => trivial
  · exact trivial

end Hub

/-- Every task keeps one session for each key, also a watcher. -/
theorem Job.housing_program (job : Job) :
    job.program.IsConducted Hub.Houses fun _ => True := by
  cases job with
  | watchRegistry cursor =>
    exact ⟨(Hub.housing_followNext cursor).bind fun _ => trivial,
      endsWith_bind fun _ _ _ => trivial⟩
  | read | watchConnection | stopWhenIdle | call =>
    exact IsConducted.mono (serving_program (by trivial)) (fun _ _ => Hub.Serves.houses)
      fun _ _ => trivial

/-! ## Every run -/

theorem Hub.onePerKey_new (registry : Registry) (roots : List String) (options : SessionOptions) :
    (Hub.new registry roots options).OnePerKey := ⟨nofun, .nil⟩

namespace Routing

open Lifecycle (Action step run)
open Following (begin)

variable {h : Hub} {m : Machine Job Hub}

/-- The session for a path is asked for. -/
def ask (d : ServerDefinition) (path : String) : Action :=
  .others fun h => (Hub.sessionFor d path h).2

/-- Any call may come, any session may be asked for, anything may be done to the registry, and the
others do what the tasks of calls may do as well. -/
def IsUsual : Action → Prop
  | .goOn _ | .call _ _ => True
  | .others change => (∀ h, Hub.Serves h (change h)) ∨ (∃ o, change = Hub.onRegistry o) ∨
    ∃ d path, change = fun h => (Hub.sessionFor d path h).2

theorem conducts_of_isUsual {action : Action} (haction : IsUsual action) :
    action.Conducts Hub.Houses fun _ => True := by
  cases action with
  | goOn place => trivial
  | call slot c => exact Job.housing_program _
  | others change =>
    intro h
    rcases haction with hserves | ⟨o, rfl⟩ | ⟨d, path, rfl⟩
    · exact (hserves h).houses
    · exact Hub.houses_onRegistry o h
    · exact Hub.houses_sessionFor d path h

/-- All tasks keep one session for each key. -/
abbrev IsHousing (m : Machine Job Hub) : Prop := m.IsConducted Hub.Houses fun _ => True

theorem isHousing_begin (h : Hub) : IsHousing (begin h) :=
  Machine.IsConducted.start (fun _ ht => absurd ht List.not_mem_nil) (Job.housing_program _)

theorem houses_run (hm : IsHousing m) {actions : List Action}
    (hactions : ∀ action ∈ actions, IsUsual action) :
    m.state.Houses (run m actions).state ∧ IsHousing (run m actions) :=
  have hconducts := fun action hmem => conducts_of_isUsual (hactions action hmem)
  ⟨Lifecycle.moves_run (fun job _ => Job.housing_program job) .refl .trans hm hconducts,
    Lifecycle.isConducted_run (fun job _ => Job.housing_program job) hm hconducts⟩

end Routing

/-- A session that was made for a path is also the one for another path, as long as it is on the
roster, if and only if both paths have one scope. -/
theorem Hub.sessionFor_eq_iff {h h' : Hub} {d : ServerDefinition} {p q : String}
    (hkeys : h.OnePerKey) (hhouses : (sessionFor d p h).2.Houses h')
    (hstays : (sessionFor d p h).1 ∈ h'.roster) :
    (sessionFor d p h).1 = (sessionFor d q h').1 ↔
      (h.scopeFor d p).same (h.scopeFor d q) = true := by
  have hkeys' := (musters_sessionFor d p h).keys hkeys
  have hkeys'' := hhouses.keys hkeys'
  obtain ⟨hfirst, hid, hscope⟩ := key_sessionFor d p h
  obtain ⟨hsecond, hid', hscope'⟩ := key_sessionFor d q h'
  have hroots := hhouses.roots.trans (roots_sessionFor d p h)
  rw [scopeFor_of_roots hroots] at hscope'
  -- Where the second session is found, the first one still has the key that it was made for.
  have hlater := remembers_sessionFor d q h'
  have hkept := hhouses.remembers.key (hkeys'.known _ hfirst)
  have hkept' := hlater.key (hkeys''.known _ hstays)
  rw [← hkept.1, ← hkept'.1] at hid
  rw [← hkept.2, ← hkept'.2] at hscope
  constructor
  · intro hsame
    rw [hsame] at hscope
    exact ScopeKey.same_trans (ScopeKey.same_symm hscope) hscope'
  · intro hsame
    refine ((musters_sessionFor d q h').keys hkeys'').eq
      ((roster_sessionFor d q h').subset hstays) hsecond ⟨hid.trans hid'.symm, ?_⟩
    exact ScopeKey.same_trans (ScopeKey.same_trans hscope hsame) (ScopeKey.same_symm hscope')

namespace Routing

open Lifecycle (Action step run)
open Following (begin)

/-- In every run the roster has one session for each key. When a session is asked for, and then
another one of the same definition, and no session of its id went off the roster in between, they
are one session exactly when the definition has only one, or both paths have one root, the deepest
workspace folder above them or else their directory. -/
theorem one_session_of_run {h : Hub} (hkeys : h.OnePerKey) {sooner later : List Action}
    (hsooner : ∀ action ∈ sooner, IsUsual action) (hlater : ∀ action ∈ later, IsUsual action)
    (d : ServerDefinition) (p q : String) :
    let m := run (begin h) sooner
    let m' := run (step m (ask d p)) later
    m.state.OnePerKey ∧ (∀ path, m.state.IsRootOf path (h.rootFor path)) ∧
      ((∀ s ∈ (step m (ask d p)).state.sessionsOf d.id, s ∈ m'.state.sessionsOf d.id) →
        ((Hub.sessionFor d p m.state).1 = (Hub.sessionFor d q m'.state).1 ↔
          d.singleton = true ∨ d.scope = .application ∨
            Path.same (h.rootFor p) (h.rootFor q) = true)) := by
  intro m m'
  obtain ⟨hhouses, hm⟩ := houses_run (isHousing_begin h) hsooner
  have hkeys' : m.state.OnePerKey := hhouses.keys hkeys
  have hroots : m.state.roots = h.roots := hhouses.roots
  have hrootFor : ∀ path, m.state.rootFor path = h.rootFor path := fun path => by
    rw [Hub.rootFor, hroots, Hub.rootFor]
  refine ⟨hkeys', fun path => hrootFor path ▸ m.state.isRootOf_rootFor path, fun hkept => ?_⟩
  obtain ⟨hfirst, hid, -⟩ := Hub.key_sessionFor d p m.state
  have hstays := hkept _ (List.mem_filter.mpr ⟨hfirst, beq_iff_eq.mpr hid⟩)
  have hm' : IsHousing (step m (ask d p)) := hm
  rw [Hub.sessionFor_eq_iff hkeys' (houses_run hm' hlater).1 (List.mem_of_mem_filter hstays),
    Hub.same_scopeFor, hrootFor, hrootFor]

/-- The folders are nested, and a document has made a session for the outer one. Two paths in the
inner one have one session, also after one was asked for the outer one. -/
theorem one_session_of_run_nested :
    let d : ServerDefinition := { ServerDefinition.new "py" .factory with scope := .project }
    let operations : List Registry.Operation := [.add d, .associate ⟨"python", []⟩ "py" none none]
    let h := Hub.new .empty ["/w", "/w/a"] default
    let sooner : List Action := operations.map (fun o => .others (Hub.onRegistry o)) ++
      [.call 0 (.connectDocument ⟨"file:///w/x", "/w/x", ⟨"python", []⟩⟩ "t"), .goOn 1]
    let m := run (begin h) sooner
    let m' := run (step m (ask d "/w/a/y")) [ask d "/w/b"]
    m'.state.roster = [0, 1] ∧
      (Hub.sessionFor d "/w/a/y" m.state).1 = (Hub.sessionFor d "/w/a/b/z" m'.state).1 := by
  intro d operations h sooner m m'
  have hsooner : ∀ action ∈ sooner, IsUsual action := by
    simp only [sooner, operations, List.map_cons, List.map_nil, List.cons_append, List.nil_append,
      List.forall_mem_cons, IsUsual]
    exact ⟨.inr (.inl ⟨_, rfl⟩), .inr (.inl ⟨_, rfl⟩), trivial, trivial, nofun⟩
  have hlater : ∀ action ∈ [ask d "/w/b"], IsUsual action := by
    intro action haction
    rw [List.mem_singleton.mp haction]
    exact .inr (.inr ⟨_, _, rfl⟩)
  obtain ⟨-, -, hsame⟩ := one_session_of_run (Hub.onePerKey_new .empty ["/w", "/w/a"] default)
    hsooner hlater d "/w/a/y" "/w/a/b/z"
  exact ⟨by decide +kernel, (hsame (by decide +kernel)).mpr (by decide +kernel)⟩

end Routing

end LanguageHub
