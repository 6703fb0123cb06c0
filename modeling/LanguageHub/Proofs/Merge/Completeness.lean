import LanguageHub.Proofs.Merge.Progress
import Mathlib.Data.List.Infix

/-!
# Merges are complete

A call that nobody cancels comes to everything that its requests came to, in the order of the
requests: each answer is a contribution or a failure, and each failure is reported unless the
server says that it was cancelled. The order in which the requests end plays no part.
-/

namespace LanguageHub.Merge

open Routine

variable {α : Type} {method : String} {c : Nat}

/-! ## What answers come to -/

/-- What an answer contributes. -/
def contribution? : ServerAnswer α → Option (Contribution α)
  | (serverId, .ok items) => some ⟨serverId, items⟩
  | (_, .error _) => none

/-- The failure that an answer is. -/
def failure? : ServerAnswer α → Option ServerFailure
  | (_, .ok _) => none
  | (serverId, .error error) => some ⟨serverId, error⟩

/-- What is reported about an answer. -/
def report? (method : String) : ServerAnswer α → Option EventKind
  | (_, .ok _) => none
  | (serverId, .error error) =>
    if error.isCancelled then none else some (.requestFailed serverId method error.message)

theorem contributions_ofAnswers (answers : List (ServerAnswer α)) :
    (Merged.ofAnswers answers).contributions = answers.filterMap contribution? := by
  induction answers with
  | nil => rfl
  | cons a rest ih =>
    obtain ⟨serverId, error | items⟩ := a
    · exact ih
    · exact congrArg (Contribution.mk serverId items :: ·) ih

theorem failures_ofAnswers (answers : List (ServerAnswer α)) :
    (Merged.ofAnswers answers).failures = answers.filterMap failure? := by
  induction answers with
  | nil => rfl
  | cons a rest ih =>
    obtain ⟨serverId, error | items⟩ := a
    · exact congrArg (ServerFailure.mk serverId error :: ·) ih
    · exact ih

theorem report_ofAnswers (answers : List (ServerAnswer α)) (h : Hub) :
    report method (Merged.ofAnswers answers).reported h =
      (answers.filterMap (report? method)).foldl (fun h kind => h.emit kind) h := by
  rw [report, Merged.reported, failures_ofAnswers]
  induction answers generalizing h with
  | nil => rfl
  | cons a rest ih =>
    obtain ⟨serverId, error | items⟩ := a
    · by_cases hcancelled : error.isCancelled = true
      · simpa [failure?, report?, hcancelled] using ih h
      · simpa [failure?, report?, hcancelled] using
          ih (h.emit (.requestFailed serverId method error.message))
    · exact ih h

/-! ## A call that is not cancelled -/

/-- A call that nobody cancels gathers what its requests come to. -/
theorem run_gathered {ts : Stage Job Hub (List (ServerAnswer α))} (hts : ts.rest.IsSettled)
    {moves : List (Move Hub)}
    (hlive : ∀ seen, seen <+: moves →
      ((gathered method c ts).run seen).state.isCancelled c = false) :
    (gathered method c ts).run moves = gathered method c (ts.run moves) := by
  induction moves generalizing ts with
  | nil => rfl
  | cons move rest ih =>
    have hnow : (gathered method c ts).state.isCancelled c = false :=
      hlive [] (List.nil_prefix)
    have hstep : (gathered method c ts).step move = gathered method c (ts.step move) := by
      cases hresult : ts.result? with
      | some answers => exact step_gathered_of_some hresult move
      | none =>
        rw [gathered_of_none hresult] at hnow
        exact step_gathered hts hnow move
    change ((gathered method c ts).step move).run rest = gathered method c ((ts.step move).run rest)
    rw [hstep]
    refine ih (Stage.isSettled_step hts move) fun seen hseen => ?_
    have hlater := hlive (move :: seen) (List.cons_prefix_cons.mpr ⟨rfl, hseen⟩)
    change (((gathered method c ts).step move).run seen).state.isCancelled c = false at hlater
    rwa [hstep] at hlater

/-- Nobody cancels the call, from its start until it ends or the schedule does. -/
structure IsLive (method : String) (c : Nat) (requests : List (Program (ServerAnswer α)))
    (h : Hub) (moves : List (Move Hub)) : Prop where
  start : h.isCancelled c = false
  run : ∀ seen, seen <+: moves →
    ((Stage.ofRoutine (call method c requests) h).run seen).state.isCancelled c = false

/-- How a call stands that nobody cancelled, by what its requests have come to. -/
theorem run_call_gathered {requests : List (Program (ServerAnswer α))} (hsome : requests ≠ [])
    {h : Hub} {moves : List (Move Hub)} (hlive : IsLive method c requests h moves) :
    (Stage.ofRoutine (merge method c requests) h).run moves =
      gathered method c ((Team.ofRoutines requests h []).run moves).stage := by
  have hsettled := Team.isSettled_ofRoutines requests h []
  have hstart : Stage.ofRoutine (merge method c requests) h =
      gathered method c (Team.ofRoutines requests h []).stage := by
    rw [Stage.ofRoutine, legFrom_merge, if_neg (by simp [hlive.start])]
  rw [← Team.stage_run hsettled, hstart]
  refine run_gathered (isSettled_all hsettled) fun seen hseen => ?_
  have hnow := hlive.run seen hseen
  rwa [run_call hsome, hstart] at hnow

/-- A call that nobody cancels ends when the last of its requests does, and then it comes to
all their answers, each at its place: the successes are contributions, the others failures,
and of these the ones that no server calls cancelled are reported, in the same order. -/
theorem call_complete (method : String) (c : Nat) (requests : List (Program (ServerAnswer α)))
    (hsome : requests ≠ []) (h : Hub) (moves : List (Move Hub))
    (hlive : IsLive method c requests h moves) :
    let team := (Team.ofRoutines requests h []).run moves
    let stage := (Stage.ofRoutine (call method c requests) h).run moves
    (team.results? = none → stage.result? = none) ∧
    ∀ answers, team.results? = some answers →
      (∀ outcomes, List.Forall₂ (fun p a => p.EndsWith (· = a)) requests outcomes →
        answers = outcomes) ∧
      ∃ merged, stage.result? = some (.ok merged) ∧
        merged.contributions = answers.filterMap contribution? ∧
        merged.failures = answers.filterMap failure? ∧
        merged.contributions.length + merged.failures.length = requests.length ∧
        stage.state = (answers.filterMap (report? method)).foldl (fun h kind => h.emit kind)
          team.state := by
  have hsettled : ((Team.ofRoutines requests h []).run moves).IsSettled :=
    (Team.isSettled_ofRoutines requests h []).run moves
  have hgathered := run_call_gathered hsome hlive
  have hresult : ((Stage.ofRoutine (call method c requests) h).run moves).result? =
      (gathered method c ((Team.ofRoutines requests h []).run moves).stage).result? := by
    rw [run_call hsome, ← hgathered]
    exact result?_onAbandon _ _
  refine ⟨fun hnone => ?_, fun answers hanswers => ⟨fun outcomes hends => ?_, ?_⟩⟩
  · rw [hresult]
    exact result?_gathered (by rw [Team.result?_stage hsettled, hnone])
  · exact Team.results?_eq_of_endsWith hends hanswers
  · have hconcluded : gathered method c ((Team.ofRoutines requests h []).run moves).stage =
        concluded method c answers ((Team.ofRoutines requests h []).run moves).state
          ((Team.ofRoutines requests h []).run moves).jobs := by
      rw [gathered, Team.result?_stage hsettled, hanswers]
      rfl
    have hend := hlive.run moves (List.prefix_refl moves)
    rw [hconcluded, result?_concluded] at hresult
    simp only [run_call hsome, hgathered, hconcluded] at hend ⊢
    have hcalm : ((Team.ofRoutines requests h []).run moves).state.isCancelled c = false := by
      by_contra hcancelled
      rw [concluded, if_pos (by simpa using hcancelled)] at hend
      exact hcancelled hend
    refine ⟨.ofAnswers answers, ?_, contributions_ofAnswers answers, failures_ofAnswers answers,
      ?_, ?_⟩
    · rw [run_call hsome, hgathered, hconcluded] at hresult
      simpa [hcalm] using hresult
    · rw [Merged.length_ofAnswers, Team.length_of_results? hanswers]
    · rw [concluded, if_neg (by simp [hcalm])]
      exact report_ofAnswers answers _

/-- The first of two servers answers after the second one has failed. -/
theorem call_complete_late_answer :
    let slow : Program (ServerAnswer String) :=
      .await (·.hasPassed ⟨10⟩) id (.done ("slow", .ok ["a", "b"]))
    let broken : Program (ServerAnswer String) := .done ("broken", .error .connectionClosed)
    let h := { Hub.new .empty [] default with cancellations := [.new] }
    let moves := [.goOn, .others fun h => { h with clock := ⟨10⟩ }, .goOn]
    IsLive "m" 0 [slow, broken] h moves ∧
    ∃ merged, ((Stage.ofRoutine (call "m" 0 [slow, broken]) h).run moves).result? =
        some (.ok merged) ∧
      merged.contributions = [⟨"slow", ["a", "b"]⟩] ∧
      merged.failures = [⟨"broken", .connectionClosed⟩] := by
  intro slow broken h moves
  have hlive : IsLive "m" 0 [slow, broken] h moves := by
    refine ⟨rfl, fun seen hseen => ?_⟩
    have hmem := (List.mem_inits _ _).mpr hseen
    simp only [moves, List.inits, List.mem_cons, List.map_cons, List.map_nil,
      List.not_mem_nil, or_false] at hmem
    rcases hmem with rfl | rfl | rfl | rfl <;> decide +kernel
  have hcomplete := (call_complete "m" 0 [slow, broken] (by simp) h moves hlive).2
    [("slow", .ok ["a", "b"]), ("broken", .error .connectionClosed)] rfl
  obtain ⟨-, merged, hresult, hcontributions, hfailures, -⟩ := hcomplete
  exact ⟨hlive, merged, hresult, hcontributions, hfailures⟩

end LanguageHub.Merge
