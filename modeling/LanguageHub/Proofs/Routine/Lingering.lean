import LanguageHub.Proofs.Routine.Conduct
import LanguageHub.Proofs.Routine.Stopping

/-!
# Routines that linger

A routine that watches over something calm does not end while it stays calm: it goes on waiting,
or it starts a job that watches instead, or it puts an end to the calm itself. Then the watch is
kept by some task of the machine for as long as the calm lasts.
-/

namespace LanguageHub

namespace Routine

variable {Job σ α β : Type} {calm gone : σ → Prop} {good : Job → Prop}

/-- While it is calm whenever the routine goes on, it does not end before it has started a job
that is good; when the calm ends by a change of its own, it is gone for good. -/
def Lingers (calm gone : σ → Prop) (good : Job → Prop) : Routine Job σ α → Prop
  | done _ => False
  | act update next => ∀ s, calm s →
      calm (update s) ∧ (next s).Lingers calm gone good ∨
        gone (update s) ∧ (next s).Preserves gone
  | spawn job next => good job ∨ next.Lingers calm gone good
  | await _ _ next => next.Lingers calm gone good

variable {p : Routine Job σ α}

/-- What only keeps the calm may come first. -/
theorem Preserves.lingers {f : α → Routine Job σ β} (hp : p.Preserves calm)
    (hf : ∀ a, (f a).Lingers calm gone good) : (p.bind f).Lingers calm gone good := by
  induction p with
  | done a => exact hf a
  | act update next ih => exact fun s hs => .inl ⟨hp.1 s hs, ih s (hp.2 s)⟩
  | spawn job next ih => exact .inr (ih hp)
  | await ready abandon next ih => exact ih hp.2

/-- What comes after it leaves gone what is gone. -/
theorem Lingers.bind {f : α → Routine Job σ β} (hp : p.Lingers calm gone good)
    (hf : ∀ a, (f a).Preserves gone) : (p.bind f).Lingers calm gone good := by
  induction p with
  | done a => exact hp.elim
  | act update next ih =>
    intro s hs
    rcases hp s hs with ⟨hcalm, hnext⟩ | ⟨hgone, hnext⟩
    · exact .inl ⟨hcalm, ih s hnext⟩
    · exact .inr ⟨hgone, hnext.bind hf⟩
  | spawn job next ih => exact hp.imp_right ih
  | await ready abandon next ih => exact ih hp

theorem Lingers.ensuring (hp : p.Lingers calm gone good) {cleanup : σ → σ}
    (hcleanup : ∀ s, gone s → gone (cleanup s)) :
    (p.ensuring cleanup).Lingers calm gone good := by
  induction p with
  | done a => exact hp.elim
  | act update next ih =>
    intro s hs
    rcases hp s hs with ⟨hcalm, hnext⟩ | ⟨hgone, hnext⟩
    · exact .inl ⟨hcalm, ih s hnext⟩
    · exact .inr ⟨hgone, hnext.ensuring hcleanup⟩
  | spawn job next ih => exact hp.imp_right ih
  | await ready abandon next ih => exact ih hp

theorem Lingers.resumed (hp : p.Lingers calm gone good) : p.resumed.Lingers calm gone good := by
  cases p with
  | _ => exact hp

theorem mem_jobs_legFrom (p : Routine Job σ α) (s : σ) {jobs : List Job} {job : Job}
    (hjob : job ∈ jobs) : job ∈ (p.legFrom s jobs).jobs := by
  induction p generalizing s jobs with
  | done a => exact hjob
  | act update next ih => exact ih _ _ hjob
  | spawn job' next ih => exact ih _ (List.mem_append_left _ hjob)
  | await ready abandon next ih => exact hjob

/-- A leg that leaves it calm has started a good job, or the routine lingers on. -/
theorem Lingers.legFrom (hp : p.Lingers calm gone good) (hgone : ∀ s, gone s → ¬ calm s) {s : σ}
    (hs : calm s) (jobs : List Job) (hcalm : calm (p.legFrom s jobs).state) :
    (∃ job ∈ (p.legFrom s jobs).jobs, good job) ∨
      (p.legFrom s jobs).rest.Lingers calm gone good := by
  induction p generalizing s jobs with
  | done a => exact hp.elim
  | act update next ih =>
    rcases hp s hs with ⟨hnow, hnext⟩ | ⟨hnow, hnext⟩
    · exact ih s hnext hnow jobs hcalm
    · exact absurd hcalm (hgone _ (hnext.kept_legFrom hnow jobs))
  | spawn job next ih =>
    rcases hp with hgood | hnext
    · exact .inl ⟨job, mem_jobs_legFrom next s (by simp), hgood⟩
    · exact ih hnext hs _ hcalm
  | await ready abandon next ih => exact .inr hp

/-- What may be left of a routine after some of its legs. -/
inductive Leaves (p : Routine Job σ α) : Routine Job σ α → Prop where
  | whole : Leaves p p
  | leg {q : Routine Job σ α} (s : σ) (h : Leaves p q) : Leaves p (q.resumed.legFrom s []).rest

end Routine

namespace Machine

open Routine

variable {Job σ : Type} {calm gone : σ → Prop} {good : Job → Prop}
  {program : Job → Routine Job σ (Option Job)} {m : Machine Job σ} {i : Nat} {t : RunningTask Job σ}

theorem exists_mem_startAll (program : Job → Routine Job σ (Option Job)) {jobs : List Job}
    {job : Job} (hjob : job ∈ jobs) :
    ∃ t ∈ (jobs.foldl (start program) m).tasks, t.rest = program job := by
  induction jobs generalizing m with
  | nil => cases hjob
  | cons first rest ih =>
    rcases List.mem_cons.mp hjob with rfl | hrest
    · exact ⟨_, mem_startAll rest (List.mem_append_right _ (List.mem_singleton_self _)), rfl⟩
    · exact ih hrest

/-- What watches is left of such a routine, and lingers. -/
structure Watches (kin : Routine Job σ (Option Job) → Prop) (calm gone : σ → Prop)
    (good : Job → Prop) (p : Routine Job σ (Option Job)) : Prop where
  kin : kin p
  lingers : p.Lingers calm gone good

variable {kin : Routine Job σ (Option Job) → Prop}

/-- After a leg some task watches, if the leg started a job that does or its rest does. -/
theorem exists_watching_of_leg (ht : m.tasks[i]? = some t) (hready : t.rest.isReady m.state = true)
    (hgood : ∀ job, good job → Watches kin calm gone good (program job))
    (hleg : (∃ job ∈ (t.rest.resumed.legFrom m.state []).jobs, good job) ∨
      Watches kin calm gone good (t.rest.resumed.legFrom m.state []).rest) :
    ∃ t' ∈ (m.advance program i).tasks, Watches kin calm gone good t'.rest := by
  rw [advance_of_ready ht hready]
  rcases hleg with ⟨job, hjob, hwatches⟩ | hwatches
  · obtain ⟨t', ht', hrest⟩ := exists_mem_startAll program hjob
    exact ⟨t', ht', hrest ▸ hgood job hwatches⟩
  · refine ⟨⟨t.id, (t.rest.resumed.legFrom m.state []).rest⟩, mem_startAll _
      (List.mem_append_right _ ?_), hwatches⟩
    -- The rest is not done, since it lingers.
    unfold following
    split
    · rename_i hdone
      exact (hdone ▸ hwatches.lingers : Lingers calm gone good (.done none)).elim
    · rename_i hdone
      exact (hdone ▸ hwatches.lingers : Lingers calm gone good (.done (some _))).elim
    · exact List.mem_singleton_self _

/-- As long as it stays calm, some task watches. -/
theorem exists_watching_advance (hkin : ∀ p s, kin p → kin (p.resumed.legFrom s []).rest)
    (hgood : ∀ job, good job → Watches kin calm gone good (program job))
    (hgone : ∀ s, gone s → ¬ calm s) (i : Nat)
    (hm : ∃ t ∈ m.tasks, Watches kin calm gone good t.rest) (hcalm : calm m.state)
    (hcalm' : calm (m.advance program i).state) :
    ∃ t ∈ (m.advance program i).tasks, Watches kin calm gone good t.rest := by
  obtain ⟨t, ht, hwatches⟩ := hm
  cases hi : m.tasks[i]? with
  | none => exact ⟨t, by rwa [advance_of_none hi], hwatches⟩
  | some u =>
    by_cases hready : u.rest.isReady m.state = true
    · obtain ⟨j, hj, rfl⟩ := List.getElem_of_mem ht
      by_cases hij : j = i
      · subst hij
        obtain rfl : m.tasks[j] = u := by simpa [List.getElem?_eq_getElem hj] using hi
        refine exists_watching_of_leg hi hready hgood ?_
        rw [state_advance hi hready] at hcalm'
        exact (hwatches.lingers.resumed.legFrom hgone hcalm [] hcalm').imp_right
          fun hlingers => ⟨hkin _ _ hwatches.kin, hlingers⟩
      · refine ⟨m.tasks[j], ?_, hwatches⟩
        rw [advance_of_ready hi hready]
        exact mem_startAll _ (List.mem_append_left _
          (List.mem_eraseIdx_iff_getElem.mpr ⟨j, hj, hij, rfl⟩))
    · exact ⟨t, by rwa [advance_of_not_ready hi hready], hwatches⟩

end Machine

end LanguageHub
