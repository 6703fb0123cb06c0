import LanguageHub.Feature.Request
import LanguageHub.Proofs.Payload.Locations
import LanguageHub.Proofs.Routine.Team

/-!
# Usages of every kind

A session asks its server for the usages of each kind that it supports, side by side. Whatever
order the answers come in, every location is listed with the kind that it was asked for.

Laws: what a session has to say about usages is what the answers say that it got, kind by kind.
-/

namespace LanguageHub

/-! ## What one kind adds -/

namespace Feature

/-- What an answer about the usages of a kind adds to them. One that failed, or that cannot be
read, adds none. -/
inductive Adds (kind : UsageKind) : Except HubError Json → List Usage → Prop
  | found {v : Json} {ls : List Location} (h : HasLocations kind v ls) :
      Adds kind (.ok v) (ls.map (Usage.mk kind))
  | unreadable {v : Json} (h : ∀ ls, ¬ HasLocations kind v ls) : Adds kind (.ok v) []
  | failed (e : HubError) : Adds kind (.error e) []

/-- What an answer comes to once it is read. -/
def readAnswer (kind : UsageKind) (answer : Except HubError Json) :
    UsageKind × Except HubError (List Location) :=
  (kind, answer.bind fun v =>
    match kind.locations? v with
    | some ls => .ok ls
    | none => .error .malformedPayload)

/-- The request for the usages of a kind, whose answer is still to be read. -/
def askFor (s : Nat) (uri : String) (position : Position) (cancellation : Nat)
    (kind : UsageKind) : Program (Except HubError Json) :=
  Session.ask s kind.method (kind.params uri position) (some cancellation) some

variable {s cancellation : Nat} {uri : String} {position : Position} {kind : UsageKind}

theorem usagesIn_eq_map (kind : UsageKind) : usagesIn s uri position cancellation kind =
    (askFor s uri position cancellation kind).map (readAnswer kind) := by
  change Routine.act id _ = Routine.act id _
  congr 1
  funext h
  dsimp only [Routine.bind]
  cases (h.session s).client? with
  | error e => rfl
  | ok c =>
    change ((Client.holding c _).bind _).bind _ = ((Client.holding c _).bind _).bind _
    simp only [Routine.bind_assoc]
    congr 1
    funext answer
    cases answer with
    | error e => rfl
    | ok v =>
      change Routine.done _ = Routine.done _
      simp only [readAnswer, Except.bind]
      cases kind.locations? v <;> rfl

/-- An answer that nobody cancelled adds its usages before those of the kinds after it. -/
theorem gather_cons (kind : UsageKind) {answer : Except HubError Json}
    (hanswer : answer ≠ .error .cancelled) :
    ∃ us, Adds kind answer us ∧ ∀ rest,
      gather (readAnswer kind answer :: rest) = (gather rest).map (us ++ ·) := by
  cases answer with
  | error e =>
    refine ⟨[], .failed e, fun rest => ?_⟩
    have hrest : gather (readAnswer kind (.error e) :: rest) = gather rest := by
      cases e <;> first | rfl | exact absurd rfl hanswer
    rw [hrest]
    cases gather rest <;> rfl
  | ok v =>
    cases hread : kind.locations? v with
    | none =>
      refine ⟨[], .unreadable fun ls hls => ?_, fun rest => ?_⟩
      · cases hread.symm.trans (locations?_iff.mpr hls)
      · simp only [readAnswer, Except.bind, hread, gather]
        cases gather rest <;> rfl
    | some ls =>
      refine ⟨_, .found (locations?_iff.mp hread), fun rest => ?_⟩
      simp only [readAnswer, Except.bind, hread, gather]

theorem gather_of_cancelled {kinds : List UsageKind} {answers : List (Except HubError Json)}
    (hlength : kinds.length = answers.length) (h : .error .cancelled ∈ answers) :
    gather (List.zipWith readAnswer kinds answers) = .error .cancelled := by
  induction answers generalizing kinds with
  | nil => cases h
  | cons answer answers ih =>
    obtain ⟨kind, kinds, rfl⟩ := List.exists_cons_of_length_eq_add_one hlength
    by_cases hanswer : answer = .error .cancelled
    · subst hanswer
      rfl
    · obtain ⟨us, -, hgather⟩ := gather_cons kind hanswer
      have hrest := ih (Nat.succ.inj hlength) (List.mem_of_ne_of_mem (Ne.symm hanswer) h)
      rw [List.zipWith_cons_cons, hgather, hrest]
      rfl

theorem gather_of_not_cancelled {kinds : List UsageKind} {answers : List (Except HubError Json)}
    (hlength : kinds.length = answers.length) (h : .error .cancelled ∉ answers) :
    ∃ lists, List.Forall₂ (fun x us => Adds x.1 x.2 us) (kinds.zip answers) lists ∧
      gather (List.zipWith readAnswer kinds answers) = .ok lists.flatten := by
  induction answers generalizing kinds with
  | nil =>
    rw [List.length_eq_zero_iff.mp hlength]
    exact ⟨[], .nil, rfl⟩
  | cons answer answers ih =>
    obtain ⟨kind, kinds, rfl⟩ := List.exists_cons_of_length_eq_add_one hlength
    obtain ⟨hanswer, hrest⟩ := not_or.mp (List.mem_cons.not.mp h)
    obtain ⟨us, hus, hgather⟩ := gather_cons kind (Ne.symm hanswer)
    obtain ⟨lists, hlists, heq⟩ := ih (Nat.succ.inj hlength) hrest
    refine ⟨us :: lists, .cons hus hlists, ?_⟩
    rw [List.zipWith_cons_cons, hgather, heq]
    rfl

/-! ## What a session has to say -/

/-- The kinds of usages that a session's server supports, in the order of the list of all. -/
def usageKinds (h : Hub) (s : Nat) : List UsageKind :=
  UsageKind.all.filter (·.isSupported (((h.session s).capabilities?).getD .none))

/-- The requests for all these kinds side by side, none of which is read yet. -/
def askForAll (s : Nat) (uri : String) (position : Position) (cancellation : Nat)
    (kinds : List UsageKind) (h : Hub) : Team Job Hub (Except HubError Json) :=
  .ofRoutines (kinds.map (askFor s uri position cancellation)) h []

/-- What they come to together. -/
def conclude (serverId : String) (results : List (UsageKind × Except HubError (List Location))) :
    ServerAnswer Json :=
  (serverId, (gather results).map (·.map Usage.toJson))

theorem ofRoutines_usagesIn (kinds : List UsageKind) (h : Hub) :
    Team.ofRoutines (kinds.map (usagesIn s uri position cancellation)) h [] =
      (askForAll s uri position cancellation kinds h).mapAt readAnswer kinds := by
  rw [askForAll, ← Team.ofRoutines_mapAt (List.length_map _).symm, List.zipWith_map_right,
    List.zipWith_self]
  exact congrArg (Team.ofRoutines · h []) (List.map_congr_left fun kind _ => usagesIn_eq_map kind)

theorem ofRoutine_requestTo (h : Hub) :
    Stage.ofRoutine ((usages position).requestTo uri cancellation s) h =
      ((askForAll s uri position cancellation (usageKinds h s) h).mapAt readAnswer
        (usageKinds h s)).stage.map (conclude (h.session s).serverId) := by
  rw [← ofRoutines_usagesIn, ← Routine.legFrom_all]
  change (((Routine.all _).bind _).bind _).legFrom h [] = _
  rw [Routine.bind_assoc]
  exact Routine.legFrom_map _ _ h []

theorem length_askForAll (kinds : List UsageKind) (h : Hub) (moves : List (Move Hub)) :
    kinds.length =
      ((askForAll s uri position cancellation kinds h).run moves).members.length := by
  rw [Team.length_run, askForAll, Team.length_ofRoutines, List.length_map]

theorem isSettled_askForAll (kinds : List UsageKind) (h : Hub) (moves : List (Move Hub)) :
    ((askForAll s uri position cancellation kinds h).run moves).IsSettled :=
  (Team.isSettled_ofRoutines _ h []).run moves

/-- A request for the usages of every kind has come as far as the requests for each of them. -/
theorem run_requestTo (h : Hub) (moves : List (Move Hub)) :
    (Stage.ofRoutine ((usages position).requestTo uri cancellation s) h).run moves =
      (((askForAll s uri position cancellation (usageKinds h s) h).run moves).mapAt readAnswer
        (usageKinds h s)).stage.map (conclude (h.session s).serverId) := by
  have hteam : (askForAll s uri position cancellation (usageKinds h s) h).IsSettled :=
    isSettled_askForAll _ h []
  have hlength : (usageKinds h s).length =
      (askForAll s uri position cancellation (usageKinds h s) h).members.length :=
    length_askForAll _ h []
  rw [ofRoutine_requestTo, Stage.run_map (Routine.isSettled_all hteam.mapAt),
    Team.stage_run hteam.mapAt, Team.run_mapAt hlength hteam]

/-- A session has something to say about usages once each request for those of a kind came to an
answer. In the order of the kinds that is what their answers add, unless one was cancelled. -/
theorem usages_of_run (s : Nat) (uri : String) (position : Position) (cancellation : Nat)
    (h : Hub) (moves : List (Move Hub)) :
    let kinds := [.declaration, .definition, .typeDefinition, .reference, .implementation].filter
      fun kind : UsageKind => kind.isSupported (((h.session s).capabilities?).getD .none)
    let team := (askForAll s uri position cancellation kinds h).run moves
    let stage := (Stage.ofRoutine ((usages position).requestTo uri cancellation s) h).run moves
    (team.results? = none → stage.result? = none) ∧
    ∀ answers, team.results? = some answers →
      answers.length = kinds.length ∧ stage.state = team.state ∧
      ∃ outcome, stage.result? = some ((h.session s).serverId, outcome) ∧
        (outcome = .error .cancelled ↔ .error .cancelled ∈ answers) ∧
        (.error .cancelled ∉ answers → ∃ lists,
          List.Forall₂ (fun x usages => Adds x.1 x.2 usages) (kinds.zip answers) lists ∧
          outcome = .ok (lists.flatten.map Usage.toJson)) := by
  intro kinds team stage
  have hstage : stage = (team.mapAt readAnswer kinds).stage.map (conclude (h.session s).serverId) :=
    run_requestTo h moves
  have hteam : team.IsSettled := isSettled_askForAll kinds h moves
  have hlength : kinds.length = team.members.length := length_askForAll kinds h moves
  have hresult : stage.result? = team.results?.map fun answers =>
      conclude (h.session s).serverId (List.zipWith readAnswer kinds answers) := by
    rw [hstage, Stage.result?_map (Routine.isSettled_all hteam.mapAt),
      Team.result?_stage hteam.mapAt, Team.results?_mapAt hlength hteam, Option.map_map]
    rfl
  refine ⟨fun hnone => by rw [hresult, hnone, Option.map_none], fun answers hanswers => ?_⟩
  have hplaces : kinds.length = answers.length :=
    hlength.trans (Team.forall₂_of_results? hanswers).length_eq
  refine ⟨hplaces.symm, by rw [hstage]; rfl, _, by rw [hresult, hanswers]; rfl, ⟨?_, ?_⟩, ?_⟩
  · intro houtcome
    by_contra hcalm
    obtain ⟨lists, -, hgather⟩ := gather_of_not_cancelled hplaces hcalm
    rw [hgather] at houtcome
    cases houtcome
  · intro hcancelled
    rw [gather_of_cancelled hplaces hcancelled]
    rfl
  · intro hcalm
    obtain ⟨lists, hlists, hgather⟩ := gather_of_not_cancelled hplaces hcalm
    exact ⟨lists, hlists, by rw [hgather]; rfl⟩

/-- The last request is answered first, with a list, then the first one with a single location, and
the one between them fails. -/
theorem usages_of_run_unordered :
    let capabilities : ServerCapabilities := ⟨.mkObj [("definitionProvider", .bool true),
      ("typeDefinitionProvider", .bool true), ("referencesProvider", .bool true)]⟩
    let h := { Hub.new .empty [] default with
      clients := [.new "py" 1 [] ⟨1000⟩ 0]
      links := [⟨"py", "", .fresh⟩]
      sessions := [{ Session.new "py" 1 .application [] .factory with
        state := .started, running := some ⟨0, capabilities⟩ }] }
    let place : Json := Location.toJson ⟨"file:///b", ⟨0, 1⟩, ⟨0, 2⟩⟩
    let delivered (r : Response) : Move Hub :=
      .others (Hub.onClient 0 (·.deliver (r.id.getD default) r))
    let moves := List.replicate 7 .goOn ++ [
      delivered ⟨"2.0", some (.number 3), some (.arr [place]), none⟩,
      delivered ⟨"2.0", some (.number 1), some place, none⟩,
      delivered ⟨"2.0", some (.number 2), none, some ⟨-32603, "busy", none⟩⟩] ++
        List.replicate 5 .goOn
    let team := (askForAll 0 "file:///a" ⟨0, 0⟩ 0 (usageKinds h 0) h).run moves
    let stage := (Stage.ofRoutine ((usages ⟨0, 0⟩).requestTo "file:///a" 0 0) h).run moves
    ∃ answers outcome, team.results? = some answers ∧ answers.length = 3 ∧
      stage.result? = some ("py", outcome) ∧ .error .cancelled ∉ answers ∧
      outcome.toOption.map (·.map (·.textAt? "kind")) =
        some [some "definition", some "reference"] := by
  intro capabilities h place delivered moves team stage
  have hcame : team.results?.isSome = true := by decide +kernel
  have hkinds : (stage.result?.bind (·.2.toOption)).map (·.map (·.textAt? "kind")) =
      some [some "definition", some "reference"] := by decide +kernel
  obtain ⟨answers, hanswers⟩ := Option.isSome_iff_exists.mp hcame
  obtain ⟨hlength, -, outcome, houtcome, hcancelled, -⟩ :=
    (usages_of_run 0 "file:///a" ⟨0, 0⟩ 0 h moves).2 answers hanswers
  rw [houtcome] at hkinds
  refine ⟨answers, outcome, hanswers, hlength, houtcome, fun hmem => ?_, hkinds⟩
  rw [hcancelled.mpr hmem] at hkinds
  cases hkinds

end Feature

end LanguageHub
