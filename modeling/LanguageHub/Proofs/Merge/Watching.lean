import LanguageHub.Proofs.Merge.Cancellation
import LanguageHub.Proofs.Merge.Vigil

/-!
# Watched calls

A call whose editor is asked while it waits goes as it might go by itself, with the questions
among what the others do. So what holds of cancelled calls holds of it, and once the editor has
said yes it is cancelled.
-/

namespace LanguageHub

open Routine

/-! ## A vigil is a schedule -/

/-- What an editor's questions keep, whatever it says. -/
structure CancelCheck.Keeps (check : CancelCheck) (c : Nat) (inv : Hub → Prop) : Prop where
  ask : ∀ h, inv h → inv (check.ask h).2
  cancel : ∀ h, inv h → inv (h.cancel c)
  startTimer : ∀ h d, inv h → inv (Hub.startTimer d h).2

namespace Vigil

section Schedules

variable {α : Type} (check : CancelCheck) (c : Nat)

/-- A step of the vigil is what might happen around the program by itself. -/
theorem exists_moves_step (v : Vigil α) (move : Move Hub) :
    ∃ moves, (v.step check c move).program = v.program.run moves ∧
      ∀ inv, check.Keeps c inv → move.Preserve inv → ∀ m ∈ moves, m.Preserve inv := by
  cases move with
  | others change => exact ⟨[.others change], rfl, by simp⟩
  | goOn =>
    have hturn : ∃ moves, v.program.step .goOn = v.program.run moves ∧
        ∀ inv, check.Keeps c inv → (Move.goOn : Move Hub).Preserve inv →
          ∀ m ∈ moves, m.Preserve inv := ⟨[.goOn], rfl, by simp⟩
    simp only [step]
    split
    · exact hturn
    · split
      · exact hturn
      · split
        · rename_i hdue
          by_cases hyes : (check.ask v.program.state).1 = true
          · refine ⟨[.others fun h => (check.ask h).2.cancel c], ?_, ?_⟩
            · simp [ask, hyes, Stage.run, Stage.step_others hdue.1]
            · intro inv hcheck _ m hm
              obtain rfl := List.mem_singleton.mp hm
              exact fun h hinv => hcheck.cancel _ (hcheck.ask h hinv)
          · refine ⟨[.others fun h => ((check.ask h).2.startTimer CancelCheck.interval).2], ?_, ?_⟩
            · simp [ask, hyes, Stage.run, Stage.step_others hdue.1]
            · intro inv hcheck _ m hm
              obtain rfl := List.mem_singleton.mp hm
              exact fun h hinv => hcheck.startTimer _ _ (hcheck.ask h hinv)
        · exact ⟨[], rfl, by simp⟩

/-- A vigil is what might happen around the program by itself. -/
theorem exists_moves (v : Vigil α) (moves : List (Move Hub)) :
    ∃ moves', (v.run check c moves).program = v.program.run moves' ∧
      ∀ inv, check.Keeps c inv → (∀ m ∈ moves, m.Preserve inv) → ∀ m ∈ moves', m.Preserve inv := by
  induction moves generalizing v with
  | nil => exact ⟨[], rfl, by simp⟩
  | cons move rest ih =>
    obtain ⟨first, hfirst, hkeepFirst⟩ := exists_moves_step check c v move
    obtain ⟨others, hothers, hkeepOthers⟩ := ih (v.step check c move)
    refine ⟨first ++ others, ?_, fun inv hcheck hmoves m hm => ?_⟩
    · rw [Stage.run_append, ← hfirst]
      exact hothers
    · rw [List.forall_mem_cons] at hmoves
      rcases List.mem_append.mp hm with hm | hm
      · exact hkeepFirst inv hcheck hmoves.1 m hm
      · exact hkeepOthers inv hcheck hmoves.2 m hm

end Schedules

/-! ## What the editor says counts -/

variable {α : Type} {check : CancelCheck} {c : Nat}

/-- Once the editor has said yes it is not asked again, and the program is cancelled. -/
structure Heeds (c : Nat) (v : Vigil α) : Prop where
  known : c < v.program.state.cancellations.length
  told : true ∈ v.answers → v.next = none ∧ v.program.state.isCancelled c = true

/-- What the steps of a vigil leave alone. -/
structure Respected (check : CancelCheck) (c : Nat) (v : Vigil α) : Prop where
  program : Merge.Respects c (v.program.rest.Preserves ·)
  check : Merge.Respects c (check.Keeps c ·)

theorem isCancelled_cancel {h : Hub} (hc : c < h.cancellations.length) :
    (h.cancel c).isCancelled c = true := by
  simp [Hub.isCancelled, Hub.cancel, Hub.onCancellation, Hub.cancellation, hc, Cancellation.cancel]

theorem Heeds.ask {v : Vigil α} (hv : v.Heeds c) (hcheck : Merge.Respects c (check.Keeps c ·))
    (hnext : v.next ≠ none) (more : Nat) : (v.ask check c more).Heeds c := by
  have hknown := hcheck.2.ask _ hv.known
  unfold Vigil.ask
  split
  · exact ⟨hcheck.2.cancel _ hknown, fun _ => ⟨rfl, isCancelled_cancel hknown⟩⟩
  · refine ⟨hcheck.2.startTimer _ _ hknown, fun htold => ?_⟩
    have hbefore : true ∈ v.answers := by simpa using htold
    exact absurd (hv.told hbefore).1 hnext

theorem Heeds.step {v : Vigil α} (hv : v.Heeds c) (hrespected : v.Respected check c)
    {move : Move Hub} (hmove : Merge.Respects c (move.Preserve ·)) :
    (v.step check c move).Heeds c := by
  have hprogram : ∀ {move : Move Hub}, Merge.Respects c (move.Preserve ·) → ∀ next,
      (true ∈ v.answers → next = none) →
      (⟨v.program.step move, next, v.answers⟩ : Vigil α).Heeds c := fun hmove next hnext =>
    ⟨Stage.kept_step hrespected.program.2 hv.known hmove.2, fun htold =>
      ⟨hnext htold, Stage.kept_step hrespected.program.1 (hv.told htold).2 hmove.1⟩⟩
  cases move with
  | others change => exact hprogram hmove v.next fun htold => (hv.told htold).1
  | goOn =>
    simp only [Vigil.step]
    split
    · rename_i hnone
      exact hprogram hmove v.next fun _ => hnone
    · rename_i more tick hsome
      have hcalm : true ∉ v.answers := fun htold => by simp [(hv.told htold).1] at hsome
      split
      · exact hprogram hmove _ fun htold => absurd htold hcalm
      · split
        · exact hv.ask hrespected.check (by simp [hsome]) more
        · exact hv

theorem Respected.step {v : Vigil α} (hrespected : v.Respected check c) (move : Move Hub) :
    (v.step check c move).Respected check c := by
  refine ⟨?_, hrespected.check⟩
  obtain ⟨moves, hprogram, -⟩ := exists_moves_step check c v move
  rw [hprogram]
  exact ⟨Stage.preserves_run hrespected.program.1 moves,
    Stage.preserves_run hrespected.program.2 moves⟩

theorem Heeds.run {v : Vigil α} (hv : v.Heeds c) (hrespected : v.Respected check c)
    {moves : List (Move Hub)} (hmoves : ∀ move ∈ moves, Merge.Respects c (move.Preserve ·)) :
    (v.run check c moves).Heeds c := by
  induction moves generalizing v with
  | nil => exact hv
  | cons move rest ih =>
    rw [List.forall_mem_cons] at hmoves
    exact ih (hv.step hrespected hmoves.1) (hrespected.step move) hmoves.2

end Vigil

/-! ## All or nothing -/

namespace Merge

variable {α : Type} {method : String} {c : Nat} {requests : List (Program (ServerAnswer α))}
  {h : Hub} {moves : List (Move Hub)}

/-- The call adds no events of its own: since `h` only such were sent as its requests and
whatever else `keeps` them send. -/
def AddsNothing (requests : List (Program (ServerAnswer α))) (h : Hub)
    (keeps : (Hub → Prop) → Prop) (st : CallStage α) : Prop :=
  ∀ kind, (∀ p ∈ requests, p.Preserves (SentOnly kind h.events ·.events)) →
    keeps (SentOnly kind h.events ·.events) → SentOnly kind h.events st.state.events

theorem cancel_respects : Respects c fun inv => ∀ h, inv h → inv (Hub.cancel c h) := by
  have hlength : ∀ h : Hub, (h.cancel c).cancellations.length = h.cancellations.length := by
    simp [Hub.cancel, Hub.onCancellation]
  refine ⟨fun h hcancelled => Vigil.isCancelled_cancel ?_, fun h hknown =>
    Nat.lt_of_lt_of_eq hknown (hlength h).symm⟩
  -- What is not in the table is not cancelled.
  by_contra hunknown
  simp [Hub.isCancelled, Hub.cancellation, List.getElem?_eq_none (Nat.le_of_not_lt hunknown),
    Cancellation.new] at hcancelled

theorem keeps_of_respects {check : CancelCheck}
    (hask : Respects c fun inv => ∀ h, inv h → inv (check.ask h).2) :
    Respects c (check.Keeps c ·) :=
  ⟨⟨hask.1, cancel_respects.1, fun _ _ h => h⟩, ⟨hask.2, cancel_respects.2, fun _ _ h => h⟩⟩

theorem respects_call (method : String)
    (hrequests : ∀ p ∈ requests, Respects c (p.Preserves ·)) :
    Respects c ((call method c requests).Preserves ·) :=
  ⟨preserves_call (fun _ _ h => h) (fun _ _ h => h) cancel_respects.1
      fun p hp => (hrequests p hp).1,
    preserves_call (fun _ _ h => h) (fun _ _ h => h) cancel_respects.2
      fun p hp => (hrequests p hp).2⟩

/-- A call that was cancelled on the way is still cancelled. -/
theorem isCancelled_of_prefix (hrequests : ∀ p ∈ requests, Respects c (p.Preserves ·))
    (hmoves : ∀ move ∈ moves, Respects c (move.Preserve ·)) {seen : List (Move Hub)}
    (hseen : seen <+: moves)
    (hcancelled :
      ((Stage.ofRoutine (call method c requests) h).run seen).state.isCancelled c = true) :
    ((Stage.ofRoutine (call method c requests) h).run moves).state.isCancelled c = true := by
  obtain ⟨later, rfl⟩ := hseen
  rw [Stage.run_append]
  have hcall : (Stage.ofRoutine (call method c requests) h).rest.Preserves
      (·.isCancelled c = true) := (respects_call method hrequests).1.legFrom h []
  exact Stage.kept_run (Stage.preserves_run hcall seen) hcancelled fun move hmove =>
    (hmoves move (List.mem_append_right _ hmove)).1

theorem heeds_vigil (hrequests : ∀ p ∈ requests, Respects c (p.Preserves ·))
    (hmoves : ∀ move ∈ moves, Respects c (move.Preserve ·)) (hknown : c < h.cancellations.length)
    {check : CancelCheck} (hask : Respects c fun inv => ∀ h, inv h → inv (check.ask h).2) :
    ((Vigil.ofProgram (call method c requests) h).run check c moves).Heeds c := by
  have hcall := respects_call method hrequests
  refine Vigil.Heeds.run ⟨?_, fun htold => by cases htold⟩ ⟨⟨?_, ?_⟩, ?_⟩ hmoves
  · exact hcall.2.kept_legFrom hknown []
  · exact hcall.1.legFrom h []
  · exact hcall.2.legFrom h []
  · exact keeps_of_respects hask

/-- Cancelling a call is all or nothing, at whatever moment and by whomever it is done. However
requests and others take turns, a call that is cancelled when it ends comes to just that, and
one that is not comes to a merged answer; once cancelled it stays so, adds no event, and does
end. A call whose editor is asked goes by the editor's answers: it comes to a merged answer only
if all were no, and is cancelled once one was yes. -/
theorem cancellation_all_or_nothing (method : String) (c : Nat)
    (requests : List (Program (ServerAnswer α))) (hsome : requests ≠ []) (h : Hub)
    (hknown : c < h.cancellations.length)
    (hrequests : ∀ p ∈ requests, Respects c (p.Preserves ·)) (moves : List (Move Hub))
    (hmoves : ∀ move ∈ moves, Respects c (move.Preserve ·)) :
    let awaited := (Stage.ofRoutine (call method c requests) h).run
    (AllOrNothing c (awaited moves) ∧
      ((∃ seen, seen <+: moves ∧ (awaited seen).state.isCancelled c = true) →
        (awaited moves).state.isCancelled c = true ∧ Ends c (awaited moves) ∧
        AddsNothing requests h (fun inv => ∀ move ∈ moves, move.Preserve inv)
          (awaited moves))) ∧
    ∀ check : CancelCheck, Respects c (fun inv => ∀ h, inv h → inv (check.ask h).2) →
      let watched := (Stage.ofRoutine (check.watch c (call method c requests)) h).run moves
      let vigil := (Vigil.ofProgram (call method c requests) h).run check c moves
      watched = vigil.stage check c ∧ AllOrNothing c watched ∧
      (∀ m, watched.result? = some (.ok m) → ∀ answer ∈ vigil.answers, answer = false) ∧
      (true ∈ vigil.answers → watched.state.isCancelled c = true ∧ Ends c watched ∧
        AddsNothing requests h
          (fun inv => (∀ move ∈ moves, move.Preserve inv) ∧ ∀ h, inv h → inv (check.ask h).2)
          watched) := by
  intro awaited
  have hkeep : ∀ p ∈ requests, p.Preserves (·.isCancelled c = true) := fun p hp =>
    (hrequests p hp).1
  have hkeepMoves : ∀ move ∈ moves, move.Preserve (·.isCancelled c = true) := fun move hmove =>
    (hmoves move hmove).1
  have hcall := allOrNothing_run method (h := h) hsome hkeep hkeepMoves
  refine ⟨⟨hcall.1, fun ⟨seen, hseen, hearly⟩ => ?_⟩, fun check hask => ?_⟩
  · have hcancelled := isCancelled_of_prefix hrequests hmoves hseen hearly
    exact ⟨hcancelled, hcall.2 hcancelled, fun kind hkind hkinds =>
      sentOnly_run hsome hkeep hkeepMoves hkind hkinds hcancelled⟩
  · intro watched vigil
    obtain ⟨moves', hprogram, hpreserve⟩ :=
      Vigil.exists_moves check c (.ofProgram (call method c requests) h) moves
    have hkeeps := keeps_of_respects hask
    have hinner := allOrNothing_run method (h := h) hsome hkeep
      (hpreserve _ hkeeps.1 hkeepMoves)
    have hstage : watched = vigil.stage check c := by
      rw [← Vigil.stage_run check c (isSettled_legFrom _ h []), ← Vigil.stage_ofProgram]
    have hresult : watched.result? = vigil.program.result? := by
      rw [hstage, Vigil.result?_stage]
    have hstate : watched.state = vigil.program.state := by
      rw [hstage]
      rfl
    have hall : AllOrNothing c watched := by
      refine ⟨fun r hr hcancelled => ?_, fun r hr hlive => ?_⟩
      · rw [hresult, hprogram] at hr
        rw [hstate, hprogram] at hcancelled
        exact hinner.1.cancelled r hr hcancelled
      · rw [hresult, hprogram] at hr
        rw [hstate, hprogram] at hlive
        exact hinner.1.whole r hr hlive
    have htold : true ∈ vigil.answers → vigil.next = none ∧ watched.state.isCancelled c = true := by
      rw [hstate]
      exact (heeds_vigil hrequests hmoves hknown hask).told
    refine ⟨hstage, hall, fun m hm answer hanswer => ?_, fun hyes => ?_⟩
    · cases answer with
      | false => rfl
      | true => cases hall.cancelled _ hm (htold hanswer).2
    · obtain ⟨hnone, hcancelled⟩ := htold hyes
      have halone : watched = (Stage.ofRoutine (call method c requests) h).run moves' := by
        rw [hstage, ← Vigil.stage_of_none check c hnone]
        exact hprogram
      rw [halone] at hcancelled ⊢
      exact ⟨hcancelled, hinner.2 hcancelled, fun kind hkind hkinds =>
        sentOnly_run hsome hkeep (hpreserve _ hkeeps.1 hkeepMoves) hkind
          (hpreserve _ ⟨hkinds.2, fun _ h => h, fun _ _ h => h⟩ hkinds.1) hcancelled⟩

/-- The editor says yes to the second question, when one answer is there already. -/
theorem cancellation_all_or_nothing_second_question :
    let quick : Program (ServerAnswer String) := .done ("quick", .ok ["a"])
    let slow : Program (ServerAnswer String) :=
      .await (·.hasPassed ⟨60000000⟩) id (.done ("slow", .ok ["b"]))
    let h := { Hub.new .empty [] default with cancellations := [.new], host := ⟨0, some 2⟩ }
    let moves := [.goOn, .others fun h => { h with clock := ⟨50000000⟩ }, .goOn,
      .others fun h => { h with clock := ⟨70000000⟩ }, .goOn, .goOn]
    (∀ p ∈ [quick, slow], Respects 0 (p.Preserves ·)) ∧
    (∀ move ∈ moves, Respects 0 (Move.Preserve · move)) ∧
    (Respects 0 fun inv => ∀ h, inv h → inv (CancelCheck.host.ask h).2) ∧
    ((Vigil.ofProgram (call "m" 0 [quick, slow]) h).run .host 0 moves).answers = [false, true] ∧
    ((Stage.ofRoutine (CancelCheck.host.watch 0 (call "m" 0 [quick, slow])) h).run moves).result? =
      some (.error .cancelled) := by
  intro quick slow h moves
  have hrequests : ∀ p ∈ [quick, slow], Respects 0 (p.Preserves ·) := by
    simp [quick, slow, Respects, Preserves]
  have hmoves : ∀ move ∈ moves, Respects 0 (Move.Preserve · move) := by
    simp only [moves, List.forall_mem_cons]
    exact ⟨⟨trivial, trivial⟩, ⟨fun _ h => h, fun _ h => h⟩, ⟨trivial, trivial⟩,
      ⟨fun _ h => h, fun _ h => h⟩, ⟨trivial, trivial⟩, ⟨trivial, trivial⟩, by simp⟩
  have hask : Respects 0 fun inv => ∀ h, inv h → inv (CancelCheck.host.ask h).2 :=
    ⟨fun _ h => h, fun _ h => h⟩
  have hanswers : ((Vigil.ofProgram (call "m" 0 [quick, slow]) h).run .host 0 moves).answers =
      [false, true] := by decide +kernel
  have hends : ((Stage.ofRoutine (CancelCheck.host.watch 0 (call "m" 0 [quick, slow])) h).run
      moves).result?.isSome = true := by decide +kernel
  have hall := (cancellation_all_or_nothing "m" 0 [quick, slow] (by simp) h (by decide) hrequests
    moves hmoves).2 .host hask
  obtain ⟨r, hr⟩ := Option.isSome_iff_exists.mp hends
  obtain ⟨hcancelled, -⟩ := hall.2.2.2 (by rw [hanswers]; simp)
  refine ⟨hrequests, hmoves, hask, hanswers, ?_⟩
  rw [hr, hall.2.1.cancelled r hr hcancelled]

end Merge

end LanguageHub
