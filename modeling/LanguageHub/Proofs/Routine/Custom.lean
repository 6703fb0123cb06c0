import LanguageHub.Proofs.Routine.Leg

/-!
# Customs

A custom says what routines may do at any time under a pact, and what they must reckon with
meanwhile, whether it comes from other tasks or from routines beside them in their own task. What
such a routine knows when it makes a change is what nobody can have changed since it learned it.

Laws: what the parts of a routine may do, the whole may do, also side by side and when it is
stopped early.
-/

namespace LanguageHub

open Routine Pact

/-- What may be done under a pact at any time, and what may have happened meanwhile. -/
structure Custom {Job σ : Type} (P : Pact Job σ) where
  does : P.World → σ → Prop
  /-- What a routine may leave behind that is dropped. -/
  leaves : P.World → σ → Prop
  hears : P.World → P.World → Prop
  does_of_leaves : ∀ {w s}, P.inv w → leaves w s → does w s
  leaves_same : ∀ {w}, P.inv w → leaves w (P.state w)
  leaves_trans : ∀ {w s s'}, P.inv w → leaves w s → leaves (P.move w s) s' → leaves w s'
  stays : ∀ {w}, P.inv w → P.move w (P.state w) = w
  inv_of_does : ∀ {w s}, P.inv w → does w s → P.inv (P.move w s)
  hears_refl : ∀ w, hears w w
  hears_trans : ∀ {w w' w''}, hears w w' → hears w' w'' → hears w w''
  hears_of_does : ∀ {w s}, P.inv w → does w s → hears w (P.move w s)
  hears_of_rely : ∀ {w w'}, P.rely w w' → hears w w'
  sound_set : ∀ {m : Moment P} {s}, m.Sound → does m.now s → (m.set s).Sound
  sound_resume : ∀ {w}, P.inv w → (Moment.resume w : Moment P).Sound

namespace Routine

variable {Job σ α β γ : Type} {P : Pact Job σ} {C : Custom P} {w w' : P.World}

/-- From this world on the routine keeps to the custom. -/
def Obeys (C : Custom P) : Routine Job σ α → P.World → Prop
  | done _, _ => True
  | act update next, w =>
    C.does w (update (P.state w)) ∧
      (next (P.state w)).Obeys C (P.move w (update (P.state w)))
  | spawn _ _, _ => False
  | await ready abandon next, w => ∀ w', P.inv w' → C.hears w w' →
    C.leaves w' (abandon (P.state w')) ∧ (ready (P.state w') = true → next.Obeys C w')

/-- Whatever happens from this world on, the routine may begin and keeps to the custom. -/
def Abides (C : Custom P) (p : Routine Job σ α) (w : P.World) : Prop :=
  ∀ w', P.inv w' → C.hears w w' → p.Obeys C w'

variable {p : Routine Job σ α} {q : Routine Job σ β}

theorem Abides.later (h : p.Abides C w) (hears : C.hears w w') : p.Abides C w' :=
  fun w'' hinv hears' => h w'' hinv (C.hears_trans hears hears')

theorem Abides.obeys (h : p.Abides C w) (hw : P.inv w) : p.Obeys C w := h w hw (C.hears_refl w)

/-- A routine that keeps to the custom keeps the pact; what such changes keep and what holds
whenever it goes on holds in the end. -/
theorem keeps_of_obeys (kept : Moment P → Prop) {m : Moment P}
    (hkept : ∀ (m : Moment P) s, m.Sound → C.does m.now s → kept m → kept (m.set s))
    (hresume : ∀ w, kept (.resume w)) (h : p.Obeys C m.now) (hm : m.Sound) :
    p.Keeps (fun _ _ => True) m fun m' _ =>
      m'.Sound ∧ C.hears m.now m'.now ∧ (kept m → kept m') := by
  induction p generalizing m with
  | done a => exact ⟨hm, C.hears_refl _, id⟩
  | act update next ih =>
    intro _
    have hsound : (m.set (update m.state)).Sound := C.sound_set hm h.1
    refine (ih m.state (m := m.set (update m.state)) h.2 hsound).mono fun m' _ hgoal => ?_
    exact ⟨hgoal.1, C.hears_trans (C.hears_of_does hm.inv h.1) hgoal.2.1,
      fun hbefore => hgoal.2.2 (hkept m _ hm h.1 hbefore)⟩
  | spawn job next ih => exact h.elim
  | await ready abandon next ih =>
    refine ⟨hm, fun w hw hrely => ⟨trivial, fun hready => ?_⟩⟩
    have hears := C.hears_of_rely hrely
    refine (ih (m := .resume w) ((h w hw hears).2 hready) (C.sound_resume hw)).mono
      fun m' _ hgoal => ?_
    exact ⟨hgoal.1, C.hears_trans hears hgoal.2.1, fun _ => hgoal.2.2 (hresume w)⟩

/-! ## Steps -/

theorem abides_pure (a : α) : (pure a : Routine Job σ α).Abides C w := fun _ _ _ => trivial

theorem abides_modify {f : σ → σ}
    (h : ∀ w', P.inv w' → C.hears w w' → C.does w' (f (P.state w'))) :
    (modify f : Routine Job σ Unit).Abides C w := fun w' hw hears => ⟨h w' hw hears, trivial⟩

theorem obeys_modifyGet {f : σ → α × σ} {next : α → Routine Job σ β}
    (h : C.does w (f (P.state w)).2)
    (hnext : (next (f (P.state w)).1).Obeys C (P.move w (f (P.state w)).2)) :
    (modifyGet f >>= next).Obeys C w := ⟨h, hnext⟩

theorem abides_modifyGet {f : σ → α × σ} {next : α → Routine Job σ β}
    (h : ∀ w', P.inv w' → C.hears w w' → C.does w' (f (P.state w')).2 ∧
      (next (f (P.state w')).1).Abides C (P.move w' (f (P.state w')).2)) :
    (modifyGet f >>= next).Abides C w := fun w' hw hears =>
  ⟨(h w' hw hears).1, (h w' hw hears).2.obeys (C.inv_of_does hw (h w' hw hears).1)⟩

theorem obeys_same {next : σ → Routine Job σ α} (hw : P.inv w)
    (h : (next (P.state w)).Obeys C w) : (act id next).Obeys C w := by
  refine ⟨C.does_of_leaves hw (C.leaves_same hw), ?_⟩
  change (next (P.state w)).Obeys C (P.move w (P.state w))
  rwa [C.stays hw]

/-- What follows the state may depend on how it is at the moment. -/
theorem obeys_get {next : σ → Routine Job σ α} (hw : P.inv w)
    (h : (next (P.state w)).Obeys C w) : (get >>= next).Obeys C w := obeys_same hw h

theorem obeys_gets {f : σ → β} {next : β → Routine Job σ α} (hw : P.inv w)
    (h : (next (f (P.state w))).Obeys C w) : (gets f >>= next).Obeys C w := by
  change (get >>= fun s => next (f s)).Obeys C w
  exact obeys_get hw h

theorem abides_get {next : σ → Routine Job σ α}
    (h : ∀ w', P.inv w' → C.hears w w' → (next (P.state w')).Abides C w') :
    (get >>= next).Abides C w := fun w' hw hears => obeys_get hw ((h w' hw hears).obeys hw)

theorem abides_gets {f : σ → β} {next : β → Routine Job σ α}
    (h : ∀ w', P.inv w' → C.hears w w' → (next (f (P.state w'))).Abides C w') :
    (gets f >>= next).Abides C w := by
  change (get >>= fun s => next (f s)).Abides C w
  exact abides_get h

theorem abides_waitUntil {ready : σ → Bool} {next : Unit → Routine Job σ α}
    (h : ∀ w', P.inv w' → C.hears w w' → ready (P.state w') = true → (next ()).Abides C w') :
    (waitUntil ready >>= next).Abides C w := fun _ _ hears w' hw hears' =>
  ⟨C.leaves_same hw, fun hready => (h w' hw (C.hears_trans hears hears') hready).obeys hw⟩

/-! ## One after the other -/

theorem Obeys.bind {f : α → Routine Job σ β} (h : p.Obeys C w) (hw : P.inv w)
    (hf : ∀ a, (f a).Abides C w) : (p.bind f).Obeys C w := by
  induction p generalizing w with
  | done a => exact (hf a).obeys hw
  | act update next ih =>
    exact ⟨h.1, ih _ h.2 (C.inv_of_does hw h.1) fun a => (hf a).later (C.hears_of_does hw h.1)⟩
  | spawn job next ih => exact h.elim
  | await ready abandon next ih =>
    exact fun w' hw' hears => ⟨(h w' hw' hears).1, fun hready =>
      ih ((h w' hw' hears).2 hready) hw' fun a => (hf a).later hears⟩

theorem Abides.bind {f : α → Routine Job σ β} (h : p.Abides C w) (hf : ∀ a, (f a).Abides C w) :
    (p >>= f).Abides C w := fun w' hw hears =>
  (h w' hw hears).bind hw fun a => (hf a).later hears

theorem Obeys.map (h : p.Obeys C w) (hw : P.inv w) (f : α → β) : (p.map f).Obeys C w :=
  h.bind hw fun _ => abides_pure _

/-! ## Cleaning up -/

section Cleaning

variable {cleanup : σ → σ}
  (hclean : ∀ w', P.inv w' → C.hears w w' → C.leaves w' (cleanup (P.state w')))

include hclean

theorem Obeys.ensuring (h : p.Obeys C w) (hw : P.inv w) : (p.ensuring cleanup).Obeys C w := by
  induction p generalizing w with
  | done a => exact ⟨C.does_of_leaves hw (hclean w hw (C.hears_refl w)), trivial⟩
  | act update next ih =>
    have hears := C.hears_of_does hw h.1
    exact ⟨h.1, ih _ (fun w' hw' hears' => hclean w' hw' (C.hears_trans hears hears'))
      h.2 (C.inv_of_does hw h.1)⟩
  | spawn job next ih => exact h.elim
  | await ready abandon next ih =>
    refine fun w' hw' hears => ⟨?_, fun hready => ih
      (fun w'' hw'' hears' => hclean w'' hw'' (C.hears_trans hears hears'))
      ((h w' hw' hears).2 hready) hw'⟩
    have hdropped := (h w' hw' hears).1
    have hdoes := C.does_of_leaves hw' hdropped
    have hcleaned := hclean _ (C.inv_of_does hw' hdoes)
      (C.hears_trans hears (C.hears_of_does hw' hdoes))
    rw [P.state_move] at hcleaned
    exact C.leaves_trans hw' hdropped hcleaned

theorem Abides.ensuring (h : p.Abides C w) : (p.ensuring cleanup).Abides C w :=
  fun w' hw hears => Obeys.ensuring
    (fun w'' hw' hears' => hclean w'' hw' (C.hears_trans hears hears')) (h w' hw hears) hw

theorem Obeys.onAbandon (h : p.Obeys C w) (hw : P.inv w) : (p.onAbandon cleanup).Obeys C w := by
  induction p generalizing w with
  | done a => trivial
  | act update next ih =>
    have hears := C.hears_of_does hw h.1
    exact ⟨h.1, ih _ (fun w' hw' hears' => hclean w' hw' (C.hears_trans hears hears'))
      h.2 (C.inv_of_does hw h.1)⟩
  | spawn job next ih => exact h.elim
  | await ready abandon next ih =>
    refine fun w' hw' hears => ⟨?_, fun hready => ih
      (fun w'' hw'' hears' => hclean w'' hw'' (C.hears_trans hears hears'))
      ((h w' hw' hears).2 hready) hw'⟩
    have hcleaned := hclean w' hw' hears
    have hdoes := C.does_of_leaves hw' hcleaned
    have hdropped := (h _ (C.inv_of_does hw' hdoes)
      (C.hears_trans hears (C.hears_of_does hw' hdoes))).1
    rw [P.state_move] at hdropped
    exact C.leaves_trans hw' hcleaned hdropped

theorem Abides.onAbandon (h : p.Abides C w) : (p.onAbandon cleanup).Abides C w :=
  fun w' hw hears => Obeys.onAbandon
    (fun w'' hw' hears' => hclean w'' hw' (C.hears_trans hears hears')) (h w' hw hears) hw

end Cleaning

/-! ## Side by side -/

/-- A routine that waits has nothing to fear from what happens before it goes on. -/
theorem abides_await {ready : σ → Bool} {abandon : σ → σ} {next : Routine Job σ α}
    (h : (await ready abandon next).Obeys C w) : (await ready abandon next).Abides C w :=
  fun _ _ hears w' hw' hears' => h w' hw' (C.hears_trans hears hears')

/-- Where a routine waits, what the other one does is something that it hears. -/
theorem Obeys.whileWaiting {ready : σ → Bool} {abandon : σ → σ}
    {wake : Routine Job σ β → Routine Job σ γ} {finish : β → Routine Job σ γ}
    (hdrop : ∀ w', P.inv w' → C.hears w w' → C.leaves w' (abandon (P.state w')))
    (hwake : ∀ w' q, P.inv w' → C.hears w w' → ready (P.state w') = true → q.Abides C w' →
      (wake q).Obeys C w')
    (hfinish : ∀ w' b, P.inv w' → C.hears w w' → ready (P.state w') = true →
      (finish b).Obeys C w')
    (h : q.Obeys C w) (hw : P.inv w) :
    (Routine.whileWaiting ready abandon wake finish q).Obeys C w := by
  induction q generalizing w with
  | done b =>
    exact fun w' hw' hears => ⟨hdrop w' hw' hears, fun hready => hfinish w' b hw' hears hready⟩
  | act update next ih =>
    have hears := C.hears_of_does hw h.1
    exact ⟨h.1, ih _ (fun w' hw' hears' => hdrop w' hw' (C.hears_trans hears hears'))
      (fun w' q hw' hears' => hwake w' q hw' (C.hears_trans hears hears'))
      (fun w' b hw' hears' => hfinish w' b hw' (C.hears_trans hears hears'))
      h.2 (C.inv_of_does hw h.1)⟩
  | spawn job next ih => exact h.elim
  | await ready' abandon' next ih =>
    refine fun w' hw' hears => ⟨?_, fun hready => ?_⟩
    · have hfirst := hdrop w' hw' hears
      have hdoes := C.does_of_leaves hw' hfirst
      have hsecond := (h _ (C.inv_of_does hw' hdoes)
        (C.hears_trans hears (C.hears_of_does hw' hdoes))).1
      rw [P.state_move] at hsecond
      exact C.leaves_trans hw' hfirst hsecond
    refine obeys_same hw' ?_
    split
    · rename_i hwakes
      exact hwake w' _ hw' hears hwakes ((abides_await h).later hears)
    · rename_i hsleeps
      rw [Bool.or_eq_true] at hready
      exact ih (fun w'' hw'' hears' => hdrop w'' hw'' (C.hears_trans hears hears'))
        (fun w'' q hw'' hears' => hwake w'' q hw'' (C.hears_trans hears hears'))
        (fun w'' b hw'' hears' => hfinish w'' b hw'' (C.hears_trans hears hears'))
        ((h w' hw' hears).2 (hready.resolve_left hsleeps)) hw'

theorem Obeys.both (hp : p.Obeys C w) (hq : q.Abides C w) (hw : P.inv w) :
    (Routine.both p q).Obeys C w := by
  induction p generalizing q w with
  | done a => exact (hq.obeys hw).map hw _
  | act update next ih =>
    exact ⟨hp.1, ih _ hp.2 (hq.later (C.hears_of_does hw hp.1)) (C.inv_of_does hw hp.1)⟩
  | spawn job next ih => exact hp.elim
  | await ready abandon next ih =>
    refine Obeys.whileWaiting (fun w' hw' hears => (hp w' hw' hears).1)
      (fun w' q hw' hears hready hq => ih ((hp w' hw' hears).2 hready) hq hw')
      (fun w' b hw' hears hready => ((hp w' hw' hears).2 hready).map hw' _) (hq.obeys hw) hw

theorem abides_all {ps : List (Routine Job σ α)} (hps : ∀ p ∈ ps, p.Abides C w) :
    (all ps).Abides C w := by
  induction ps with
  | nil => exact abides_pure []
  | cons p ps ih =>
    rw [List.forall_mem_cons] at hps
    intro w' hw hears
    exact ((hps.1 w' hw hears).both ((ih hps.2).later hears) hw).map hw _

/-! ## Stopping early -/

/-- Dropped where it is, a routine leaves behind what it may. -/
theorem Obeys.leaves_abandon (h : p.Obeys C w) (hw : P.inv w) :
    C.leaves w (p.abandon (P.state w)) := by
  cases p with
  | await ready abandon next => exact (h w hw (C.hears_refl w)).1
  | _ => exact C.leaves_same hw

theorem Obeys.pauseAt_bind {f : Paused Job σ α → Routine Job σ β} {stop : σ → Bool}
    (hpaused : ∀ w' rest, P.inv w' → C.hears w w' → rest.Abides C w' →
      (f (.paused rest)).Obeys C w')
    (hfinished : ∀ w' a, P.inv w' → C.hears w w' → (f (.finished a)).Obeys C w')
    (h : p.Obeys C w) (hw : P.inv w) : ((pauseAt stop p).bind f).Obeys C w := by
  induction p generalizing w with
  | done a => exact hfinished w a hw (C.hears_refl w)
  | act update next ih =>
    have hears := C.hears_of_does hw h.1
    exact ⟨h.1, ih _ (fun w' rest hw' hears' => hpaused w' rest hw' (C.hears_trans hears hears'))
      (fun w' a hw' hears' => hfinished w' a hw' (C.hears_trans hears hears'))
      h.2 (C.inv_of_does hw h.1)⟩
  | spawn job next ih => exact h.elim
  | await ready abandon next ih =>
    refine fun w' hw' hears => ⟨(h w' hw' hears).1, fun hready => obeys_same hw' ?_⟩
    dsimp only
    split
    · exact hpaused w' _ hw' hears ((abides_await h).later hears)
    · rename_i hgoes
      rw [Bool.or_eq_true] at hready
      exact ih (fun w'' rest hw'' hears' => hpaused w'' rest hw'' (C.hears_trans hears hears'))
        (fun w'' a hw'' hears' => hfinished w'' a hw'' (C.hears_trans hears hears'))
        ((h w' hw' hears).2 (hready.resolve_left hgoes)) hw'

/-- A routine that may be paused, and what follows then or at its end. -/
theorem Abides.pauseWhen_bind {f : Paused Job σ α → Routine Job σ β} {stop : σ → Bool}
    (h : p.Abides C w)
    (hpaused : ∀ w' rest, P.inv w' → C.hears w w' → rest.Abides C w' →
      (f (.paused rest)).Obeys C w')
    (hfinished : ∀ w' a, P.inv w' → C.hears w w' → (f (.finished a)).Obeys C w') :
    (pauseWhen stop p >>= f).Abides C w := by
  refine fun w' hw hears => obeys_same hw ?_
  dsimp only
  split
  · exact hpaused w' p hw hears (h.later hears)
  · exact Obeys.pauseAt_bind
      (fun w'' rest hw'' hears' => hpaused w'' rest hw'' (C.hears_trans hears hears'))
      (fun w'' a hw'' hears' => hfinished w'' a hw'' (C.hears_trans hears hears'))
      (h w' hw hears) hw

theorem Abides.untilStopped (h : p.Abides C w) (stop : σ → Bool) :
    (p.untilStopped stop).Abides C w :=
  h.pauseWhen_bind
    (fun _ _ hw _ hrest => ⟨C.does_of_leaves hw ((hrest.obeys hw).leaves_abandon hw), trivial⟩)
    fun _ _ _ _ => trivial

theorem Obeys.giveUpWhen (h : p.Obeys C w) (hw : P.inv w) (isLate : σ → Bool) :
    (giveUpWhen isLate p).Obeys C w := by
  induction p generalizing w with
  | done a => trivial
  | act update next ih => exact ⟨h.1, ih _ h.2 (C.inv_of_does hw h.1)⟩
  | spawn job next ih => exact h.elim
  | await ready abandon next ih =>
    refine fun w' hw' hears => ⟨(h w' hw' hears).1, fun _ => obeys_same hw' ?_⟩
    split
    · rename_i hready
      exact ih ((h w' hw' hears).2 hready) hw'
    · exact ⟨C.does_of_leaves hw' (h w' hw' hears).1, trivial⟩

theorem Abides.giveUpWhen (h : p.Abides C w) (isLate : σ → Bool) :
    (giveUpWhen isLate p).Abides C w := fun w' hw hears => (h w' hw hears).giveUpWhen hw isLate

end Routine

end LanguageHub
