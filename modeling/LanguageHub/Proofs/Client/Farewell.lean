import LanguageHub.Proofs.Client.Parting
import Mathlib.Algebra.GroupWithZero.Nat

/-!
# A closed client runs out of calls

When the reader of a closed client is done, no new call comes to anything, and those that are there
go on until they end. Each turn of the one who has the stream, or of a call that waits, brings the
end closer.

Laws: nothing ever waits at the client again; what the calls come to has one of few causes; calls
that come later are refused and change nothing; and in a fair run all calls end.
-/

namespace LanguageHub

open Routine Client

namespace Switchboard

/-! ## Ranks -/

/-- How many turns a message takes at most, beside those in which it waits. -/
def Writing.rank (w : Writing) : Nat :=
  match w.sent? with
  | none => w.size + 1
  | some (rounds, _) => rounds + 1

def Standing.rank : Standing → Nat
  | .ended _ => 0
  | .writing _ w => w.rank + 2
  | _ => 1

/-- The next turn brings the task on, as long as the link can be written. -/
def Standing.IsReady (l : Lock) : Standing → Prop
  | .fresh _ _ _ => True
  | .listening _ _ _ _ => True
  | .writing _ w => l.holder = some w.ticket
  | _ => False

section Turns

variable {f f' : Front} {st st' : Standing} {e : Errand} {w w' : Writing}

theorem rank_of_writes (h : Writes w f f' (.inl w')) : w'.rank < w.rank ∨
    w' = w ∧ f' = f ∧ (f.lock.holder = some w.ticket → f.isWritable = false) := by
  cases h with
  | queues hnew hheld =>
    refine .inr ⟨rfl, rfl, fun hholder => ?_⟩
    rw [(Lock.isHeldBy_iff _ _).mpr hholder] at hheld
    cases hheld
  | begins hnew hheld =>
    have hpos := size_pos w
    have hsize : Writing.size { w with sent? := some (w.size - 1, 0) } = w.size := rfl
    refine .inl ?_
    simp only [Writing.rank, hnew]
    omega
  | waits hsent hfull => exact .inr ⟨rfl, rfl, fun _ => hfull⟩
  | grows hsent hdue hcount hmore =>
    refine .inl ?_
    simp only [Writing.rank, hsent]
    omega

/-- A turn brings a task closer to its end, or changes nothing at all. -/
theorem rank_of_progress (hfits : Fits f e st) (hread : e = .listen → ∃ x, st = .ended x)
    (hclosed : f.isOpen = false) (hempty : f.ledger.pending = []) (hgo : Progress f st f' st') :
    st'.rank < st.rank ∨ st' = st ∧ f' = f ∧ (st.IsReady f.lock → f.isWritable = false) := by
  have hwrites : ∀ {purpose w w' f'}, Writes w f f' (.inl w') →
      (Standing.writing purpose w').rank < (Standing.writing purpose w).rank ∨
        Standing.writing purpose w' = .writing purpose w ∧ f' = f ∧
          ((Standing.writing purpose w).IsReady f.lock → f.isWritable = false) := by
    intro purpose w w' f' hwrites
    rcases rank_of_writes hwrites with hless | ⟨rfl, rfl, hfull⟩
    · exact .inl (Nat.add_lt_add_right hless 2)
    · exact .inr ⟨rfl, rfl, hfull⟩
  have hends : ∀ {x purpose w}, (Standing.ended x).rank < (Standing.writing purpose w).rank :=
    fun {_ _ _} => Nat.succ_pos _
  cases hfits with
  | fresh serverId q id =>
    cases hgo with
    | refused _ _ _ _ => exact .inl Nat.one_pos
    | enrols hopen hmark => cases hopen.symm.trans hclosed
  | asking q id mark w =>
    cases hgo with
    | writes hw => exact hwrites hw
    | written hw hnext =>
      cases hnext with
      | asked _ _ _ deadline => exact .inl (Nat.lt_of_lt_of_le Nat.one_lt_two (Nat.le_add_left ..))
      | failed _ _ _ e => exact .inl hends
  | listening q id mark deadline =>
    cases hgo with
    | waits hpending hgoes =>
      rw [hempty] at hpending
      cases hpending
    -- A closed client tells nobody that a call was cancelled.
    | recalls hwithdrawn hopen => cases hopen.symm.trans hclosed
    | _ => exact .inl Nat.one_pos
  | recalling q id mark w hwithdrawn =>
    cases hgo with
    | writes hw => exact hwrites hw
    | written hw hnext =>
      cases hnext
      exact .inl hends
  | telling method params w =>
    cases hgo with
    | writes hw => exact hwrites hw
    | written hw hnext =>
      cases hnext
      exact .inl hends
  | reading st hst =>
    obtain ⟨x, rfl⟩ := hread rfl
    cases hst
  | _ =>
    cases hgo
    exact .inr ⟨rfl, rfl, False.elim⟩

end Turns

/-! ## The lineup of a closed client -/

def Lineup.rank (l : Lineup) : Nat := (l.places.map (·.standing.rank)).sum

theorem rank_goOn {c : Nat} {l : Lineup} {i : Nat} {p : Place} (hi : l.places[i]? = some p) :
    (l.step c (.goOn i)).rank + p.standing.rank =
      l.rank + (p.standing.go c l.hub).2.rank := by
  obtain ⟨hbefore, hafter⟩ := perm_cons_eraseIdx hi
  simp only [Lineup.step, hi, Lineup.rank]
  rw [(hbefore.map _).sum_nat, ((hafter _).map _).sum_nat]
  simp only [List.map_cons, List.sum_cons]
  omega

/-- The client is closed, and its reader is done. -/
structure Deserted (found : List (RequestId × Response)) (remains : RequestId → Prop) (c : Nat)
    (l : Lineup) : Prop where
  stands : l.Stands c fun f ps => Orderly f ps ∧ Parting found remains f ps
  silent : ∀ p ∈ l.places, p.errand = .listen → ∃ e, p.standing = .ended e
  ended : ∃ p ∈ l.places, p.errand = .listen ∧ p.standing = .ended (.listened false)

namespace Deserted

variable {found : List (RequestId × Response)} {remains : RequestId → Prop} {c : Nat} {l : Lineup}
  {turn : Turn}

theorem not_isDue (h : Deserted found remains c l) : Errand.isDue .listen l.results = false := by
  obtain ⟨p, hp, herrand, hover⟩ := h.ended
  refine List.all_eq_false.mpr ⟨(p.errand, p.standing.result?), List.mem_map_of_mem hp, ?_⟩
  rw [herrand, hover]
  decide

theorem over_of_begins (h : Deserted found remains c l) {e : Errand} (he : e.isDue l.results = true)
    {f' : Front} {st : Standing} (hbegins : Begins (front c l.hub) e f' st) :
    e ≠ .listen ∧ f' = front c l.hub ∧ ∃ x, st = .ended x := by
  have hclosed := h.stands.holds.2.isClosed
  cases hbegins with
  | refused q _ => exact ⟨nofun, rfl, _, rfl⟩
  | withdrawn q hopen hwithdrawn => exact ⟨nofun, rfl, _, rfl⟩
  | keepsSilent method params _ => exact ⟨nofun, rfl, _, rfl⟩
  | takes q serverId hopen => cases hopen.symm.trans hclosed
  | tells method params hopen => cases hopen.symm.trans hclosed
  | listens => cases he.symm.trans h.not_isDue

theorem step (h : Deserted found remains c l) (hturn : turn.IsProper c) :
    Deserted found remains c (l.step c turn) where
  stands := h.stands.step (kept_orderly.and (kept_parting found remains)) hturn
  silent := by
    cases turn with
    | begin e =>
      simp only [Lineup.step]
      split
      · rename_i hdue
        obtain ⟨f', hnext, hbegins⟩ := begins_begin (.of_served h.stands.served) e
        intro p hp herrand
        rcases List.mem_append.mp hp with hp | hp
        · exact h.silent p hp herrand
        · obtain rfl := List.mem_singleton.mp hp
          exact (h.over_of_begins hdue hbegins).2.2
      · exact h.silent
    | goOn i =>
      simp only [Lineup.step]
      cases hi : l.places[i]? with
      | none => exact h.silent
      | some p =>
        intro q hq herrand
        rcases List.mem_or_eq_of_mem_set hq with hq | rfl
        · exact h.silent q hq herrand
        · obtain ⟨e, he⟩ := h.silent p (List.mem_of_getElem? hi) herrand
          exact ⟨e, by rw [he]; rfl⟩
    | others change => exact h.silent
  ended := by
    obtain ⟨p, hp, herrand, hover⟩ := h.ended
    cases turn with
    | begin e =>
      simp only [Lineup.step]
      split
      · exact ⟨p, List.mem_append_left _ hp, herrand, hover⟩
      · exact ⟨p, hp, herrand, hover⟩
    | goOn i =>
      simp only [Lineup.step]
      cases hi : l.places[i]? with
      | none => exact ⟨p, hp, herrand, hover⟩
      | some q =>
        obtain ⟨hbefore, hafter⟩ := perm_cons_eraseIdx hi
        rcases List.mem_cons.mp (hbefore.mem_iff.mp hp) with rfl | hp
        · refine ⟨_, (hafter _).mem_iff.mpr List.mem_cons_self, herrand, ?_⟩
          rw [hover]
          rfl
        · exact ⟨p, (hafter _).mem_iff.mpr (List.mem_cons_of_mem _ hp), herrand, hover⟩
    | others change => exact ⟨p, hp, herrand, hover⟩

theorem run (h : Deserted found remains c l) {turns : List Turn}
    (hturns : ∀ turn ∈ turns, turn.IsProper c) : Deserted found remains c (l.run c turns) := by
  induction turns generalizing l with
  | nil => exact h
  | cons turn rest ih =>
    rw [List.forall_mem_cons] at hturns
    exact ih (h.step hturns.1) hturns.2

/-- A turn brings the end closer, or leaves everybody in place. -/
theorem rank_step (h : Deserted found remains c l) (hturn : turn.IsProper c) :
    (l.step c turn).rank < l.rank ∨ (l.step c turn).rank = l.rank ∧
      (∀ (i : Nat) (p : Place), l.places[i]? = some p → (l.step c turn).places[i]? = some p) ∧
        (front c (l.step c turn).hub).lock = (front c l.hub).lock := by
  obtain ⟨hserved, horderly, hparting⟩ := h.stands
  cases turn with
  | begin e =>
    simp only [Lineup.step]
    split
    · rename_i hdue
      obtain ⟨f', hnext, hbegins⟩ := begins_begin (.of_served hserved) e
      obtain ⟨-, rfl, x, hx⟩ := h.over_of_begins hdue hbegins
      refine .inr ⟨?_, fun i p hi => ?_, by rw [hnext.front]⟩
      · simp [Lineup.rank, hx, Standing.rank]
      · rw [List.getElem?_append_left (List.getElem?_eq_some_iff.mp hi).1]
        exact hi
    · exact .inr ⟨rfl, fun _ _ hi => hi, rfl⟩
  | goOn i =>
    cases hi : l.places[i]? with
    | none =>
      have hsame : l.step c (.goOn i) = l := by simp only [Lineup.step, hi]
      rw [hsame]
      exact .inr ⟨rfl, fun _ _ hj => hj, rfl⟩
    | some p =>
      obtain ⟨f', hnext, hgo⟩ := progress_go (.of_served hserved) p.standing
      have hp := List.mem_of_getElem? hi
      rcases rank_of_progress (horderly.fits p hp) (h.silent p hp) hparting.isClosed hparting.empty
        hgo with hless | ⟨hsame, rfl, -⟩
      · have hrank := rank_goOn (c := c) hi
        exact .inl (by omega)
      · have hset : l.places.set i { p with standing := (p.standing.go c l.hub).2 } = l.places := by
          rw [hsame]
          obtain ⟨hbound, rfl⟩ := List.getElem?_eq_some_iff.mp hi
          exact List.set_getElem_self hbound
        simp only [Lineup.step, hi]
        refine .inr ⟨?_, fun j q hj => ?_, by rw [hnext.front]⟩
        · simp only [Lineup.rank, hset]
        · rw [hset]
          exact hj
  | others change =>
    exact .inr ⟨rfl, fun _ _ hi => hi, (hturn l.hub hserved).2.lock⟩

/-- The turn of a task that is ready brings the end closer. -/
theorem rank_ready (h : Deserted found remains c l) {i : Nat} {p : Place}
    (hi : l.places[i]? = some p) (hready : p.standing.IsReady (front c l.hub).lock)
    (hwritable : (front c l.hub).isWritable = true) : (l.step c (.goOn i)).rank < l.rank := by
  obtain ⟨hserved, horderly, hparting⟩ := h.stands
  obtain ⟨f', hnext, hgo⟩ := progress_go (.of_served hserved) p.standing
  have hp := List.mem_of_getElem? hi
  have hrank := rank_goOn (c := c) hi
  rcases rank_of_progress (horderly.fits p hp) (h.silent p hp) hparting.isClosed hparting.empty
    hgo with hless | ⟨-, -, hfull⟩
  · omega
  · cases hwritable.symm.trans (hfull hready)

/-- As long as somebody is under way, somebody is ready. -/
theorem exists_ready (h : Deserted found remains c l) (hrank : l.rank ≠ 0) :
    ∃ (i : Nat) (p : Place), l.places[i]? = some p ∧ p.standing.IsReady (front c l.hub).lock := by
  obtain ⟨hserved, horderly, hparting⟩ := h.stands
  by_cases hwriting : ∃ p ∈ l.places, ∃ w, p.standing.writing? = some w
  · -- The ticket at the head of the line is that of a task.
    obtain ⟨p, hp, w, hw⟩ := hwriting
    obtain ⟨q, hq, v, hv, hholder⟩ := horderly.stream.exists_holder hp hw
    obtain ⟨i, hi⟩ := List.mem_iff_getElem?.mp hq
    refine ⟨i, q, hi, ?_⟩
    cases hst : q.standing with
    | writing purpose u =>
      rw [hst] at hv
      obtain rfl := Option.some.inj hv
      exact hholder
    | _ =>
      rw [hst] at hv
      cases hv
  · -- Nobody writes, and whoever is under way otherwise is ready.
    obtain ⟨p, hp, hbusy⟩ : ∃ p ∈ l.places, p.standing.rank ≠ 0 := by
      by_contra hall
      push Not at hall
      refine hrank (List.sum_eq_zero_iff_forall_eq_nat.mpr fun n hn => ?_)
      obtain ⟨p, hp, rfl⟩ := List.mem_map.mp hn
      exact hall p hp
    obtain ⟨i, hi⟩ := List.mem_iff_getElem?.mp hp
    refine ⟨i, p, hi, ?_⟩
    have hfit := horderly.fits p hp
    have hread := h.silent p hp
    have hidle : ∀ w, p.standing.writing? ≠ some w := fun w hw => hwriting ⟨p, hp, w, hw⟩
    generalize p.standing = st at hfit hread hidle hbusy
    generalize p.errand = e at hfit hread
    cases hfit with
    | fresh serverId q id => trivial
    | listening q id mark deadline => trivial
    | reading st hst =>
      obtain ⟨x, rfl⟩ := hread rfl
      cases hst
    | asking q id mark w => exact absurd rfl (hidle w)
    | recalling q id mark w hwithdrawn => exact absurd rfl (hidle w)
    | telling method params w => exact absurd rfl (hidle w)
    | _ => exact absurd rfl hbusy

end Deserted

/-! ## Endless schedules -/

def Lineup.course (c : Nat) (l : Lineup) (schedule : Nat → Turn) (n : Nat) : Lineup :=
  l.run c ((List.range n).map schedule)

theorem Lineup.course_succ (c : Nat) (l : Lineup) (schedule : Nat → Turn) (n : Nat) :
    l.course c schedule (n + 1) = (l.course c schedule n).step c (schedule n) := by
  simp [Lineup.course, List.range_succ, Lineup.run, List.foldl_append]

def course (c : Nat) (d : Switchboard) (schedule : Nat → Turn) (n : Nat) : Switchboard :=
  d.run c ((List.range n).map schedule)

theorem course_succ (c : Nat) (d : Switchboard) (schedule : Nat → Turn) (n : Nat) :
    d.course c schedule (n + 1) = (d.course c schedule n).step c (schedule n) := by
  simp [course, List.range_succ, run, List.foldl_append]

/-- Whoever is not done gets a turn sooner or later when something can be written. -/
def Fair (c : Nat) (d : Switchboard) (schedule : Nat → Turn) : Prop :=
  ∀ (n i : Nat) (task : Task), (d.course c schedule n).tasks[i]? = some task →
    task.rest.result? = none → ∃ m, n ≤ m ∧ schedule m = .goOn i ∧
      ((d.course c schedule m).hub.linkOf c).isWritable = true

namespace Deserted

variable {found : List (RequestId × Response)} {remains : RequestId → Prop} {c : Nat} {l : Lineup}
  {schedule : Nat → Turn}

theorem course (h : Deserted found remains c l) (hproper : ∀ n, (schedule n).IsProper c) (n : Nat) :
    Deserted found remains c (l.course c schedule n) := by
  induction n with
  | zero => exact h
  | succ n ih =>
    rw [Lineup.course_succ]
    exact ih.step (hproper n)

theorem board_course (h : Deserted found remains c l) (hproper : ∀ n, (schedule n).IsProper c)
    (n : Nat) : (l.course c schedule n).board c = (l.board c).course c schedule n := by
  refine board_run h.stands.served fun turn hturn => ?_
  obtain ⟨k, -, rfl⟩ := List.mem_map.mp hturn
  exact hproper k

theorem closer_or_still (h : Deserted found remains c l) (hproper : ∀ n, (schedule n).IsProper c)
    (n k : Nat) : (∃ m, (l.course c schedule m).rank < (l.course c schedule n).rank) ∨
      (l.course c schedule (n + k)).rank = (l.course c schedule n).rank ∧
      (∀ (i : Nat) (p : Place), (l.course c schedule n).places[i]? = some p →
        (l.course c schedule (n + k)).places[i]? = some p) ∧
      (front c (l.course c schedule (n + k)).hub).lock =
        (front c (l.course c schedule n).hub).lock := by
  induction k with
  | zero => exact .inr ⟨rfl, fun _ _ hi => hi, rfl⟩
  | succ k ih =>
    rcases ih with hcloser | ⟨hrank, hplaces, hlock⟩
    · exact .inl hcloser
    · rcases (h.course hproper (n + k)).rank_step (hproper (n + k)) with
        hless | ⟨hsame, hstill, hheld⟩
      · rw [← Lineup.course_succ, hrank] at hless
        exact .inl ⟨_, hless⟩
      · rw [← Lineup.course_succ] at hsame hstill hheld
        exact .inr ⟨hsame.trans hrank, fun i p hi => hstill i p (hplaces i p hi),
          hheld.trans hlock⟩

theorem closer (h : Deserted found remains c l) (hproper : ∀ n, (schedule n).IsProper c)
    (hfair : Fair c (l.board c) schedule) {n : Nat} (hrank : (l.course c schedule n).rank ≠ 0) :
    ∃ m, (l.course c schedule m).rank < (l.course c schedule n).rank := by
  obtain ⟨i, p, hi, hready⟩ := (h.course hproper n).exists_ready hrank
  have htask : ((l.board c).course c schedule n).tasks[i]? = some (p.task c) := by
    rw [← h.board_course hproper n, Lineup.board, List.getElem?_map, hi]
    rfl
  have hbusy : (p.task c).rest.result? = none := by
    refine (result?_standing p.standing).trans ?_
    cases hst : p.standing with
    | ended e =>
      rw [hst] at hready
      exact hready.elim
    | _ => rfl
  -- If nobody moved until the ready task gets its turn, it is still ready then.
  obtain ⟨m, hm, hturn, hwritable⟩ := hfair n i _ htask hbusy
  obtain ⟨k, rfl⟩ := Nat.exists_eq_add_of_le hm
  rcases h.closer_or_still hproper n k with hcloser | ⟨hsame, hplaces, hlock⟩
  · exact hcloser
  · rw [← h.board_course hproper] at hwritable
    have hless := (h.course hproper (n + k)).rank_ready (hplaces i p hi) (hlock ▸ hready) hwritable
    rw [← hturn, ← Lineup.course_succ, hsame] at hless
    exact ⟨_, hless⟩

theorem exists_end (h : Deserted found remains c l) (hproper : ∀ n, (schedule n).IsProper c)
    (hfair : Fair c (l.board c) schedule) : ∃ n, (l.course c schedule n).rank = 0 := by
  suffices hall : ∀ r n, (l.course c schedule n).rank = r →
      ∃ m, (l.course c schedule m).rank = 0 from hall _ 0 rfl
  intro r
  induction r using Nat.strongRecOn with
  | ind r ih =>
    intro n hn
    by_cases hzero : r = 0
    · exact ⟨n, hn.trans hzero⟩
    · obtain ⟨m, hless⟩ := h.closer hproper hfair (n := n) (by rwa [hn])
      exact ih _ (hn ▸ hless) m rfl

end Deserted

theorem over_of_rank {l : Lineup} (hrank : l.rank = 0) {p : Place} (hp : p ∈ l.places) :
    p.standing.result?.isSome = true := by
  have hzero := List.sum_eq_zero_iff_forall_eq_nat.mp hrank _ (List.mem_map_of_mem hp)
  cases hst : p.standing with
  | ended e => rfl
  | _ =>
    rw [hst] at hzero
    cases hzero

/-! ## After the reader is done -/

/-- What is so at every moment after the reader of a closed client is done. -/
structure Silenced (c : Nat) (d d' : Switchboard) : Prop where
  isClosed : (d'.hub.client c).isOpen = false
  /-- Nothing waits for an answer. -/
  empty : (d'.hub.client c).pending = []
  /-- What a call comes to that was under way has a cause. -/
  causes : ∀ task ∈ d.tasks, ∀ id, task.id? = some id → task.rest.result? = none →
    ∀ task' ∈ d'.tasks, task'.id? = some id → ∀ r, task'.rest.result? = some (.asked r) →
      ∃ q, task'.errand = .ask q ∧ Cause (d.hub.client c).answers (front c d'.hub) q id r
  /-- A call that waits for its answer ends in its next turn. -/
  wakes : ∀ q id mark deadline,
    let st := ((Standing.listening q id mark deadline).program c).advance d'.hub []
    ∃ r, st.result? = some (.asked r) ∧
      Cause (d'.hub.client c).answers (front c st.state) q id r
  /-- A call that is about to register its request is refused and changes nothing. -/
  late : ∀ serverId q id, ((pursue c serverId q id).map Ending.asked).advance d'.hub [] =
    ⟨d'.hub, [], .done (.asked (.error .connectionClosed))⟩
  refuses : ∀ q, ((Errand.ask q).program c).legFrom d'.hub [] =
    ⟨d'.hub, [], .done (.asked (.error .connectionClosed))⟩

section Moments

variable {c : Nat} {h : Hub}

theorem register_closed (hclosed : (h.client c).isOpen = false) (hserved : IsServed c h)
    (id : RequestId) : h.fromClient c (·.register id) = (false, h) := by
  have hregister : (h.client c).register id = (false, h.client c) := by
    unfold register
    rw [hclosed, if_neg (by decide)]
  have hsame : h.onClient c (fun _ => h.client c) = h := by
    have hclients : h.clients.modify c (fun _ => h.client c) = h.clients := by
      refine List.ext_getElem? fun i => ?_
      rw [List.getElem?_modify]
      split
      · rename_i hi
        subst hi
        simp [Hub.client, List.getElem?_eq_getElem hserved.client]
      · simp
    unfold Hub.onClient
    rw [hclients]
  simp only [Hub.fromClient, hregister, hsame]

theorem late_of_closed (hclosed : (h.client c).isOpen = false) (hserved : IsServed c h)
    (serverId : String) (q : Question) (id : RequestId) :
    ((pursue c serverId q id).map Ending.asked).advance h [] =
      ⟨h, [], .done (.asked (.error .connectionClosed))⟩ := by
  rw [advance_fresh, enrol, register_closed hclosed hserved]
  rfl

theorem refuses_of_closed (hclosed : (h.client c).isOpen = false) (hserved : IsServed c h)
    (q : Question) : ((Errand.ask q).program c).legFrom h [] =
      ⟨h, [], .done (.asked (.error .connectionClosed))⟩ := by
  rw [legFrom_errand _ hserved.kept, Errand.begin, if_pos hclosed]
  rfl

theorem wakes_of_empty (hclosed : (h.client c).isOpen = false) (hserved : IsServed c h)
    (hempty : (h.client c).pending = []) (q : Question) (id : RequestId)
    (mark : Option (Nat × Nat)) (deadline : Duration) :
    let st := ((Standing.listening q id mark deadline).program c).advance h []
    ∃ r, st.result? = some (.asked r) ∧ Cause (h.client c).answers (front c st.state) q id r := by
  intro st
  obtain ⟨f', hnext, hgo⟩ := progress_go (.of_served hserved) (.listening q id mark deadline)
  have hst : st = ⟨((Standing.listening q id mark deadline).go c h).1, [],
      ((Standing.listening q id mark deadline).go c h).2.program c⟩ :=
    advance_program _ hserved.kept
  have hcause : ∀ r, ((Standing.listening q id mark deadline).go c h).2.result? =
      some (.asked r) → Cause (h.client c).answers f' q id r := fun _ =>
    cause_of_progress (.listening q id mark deadline) hgo rfl rfl hempty (List.Subset.refl _)
  rw [hst, Stage.result?, result?_standing, hnext.front]
  generalize ((Standing.listening q id mark deadline).go c h).2 = next at hgo hcause
  cases hgo with
  | waits hpending hgoes =>
    rw [show (front c h).ledger.pending = [] from hempty] at hpending
    cases hpending
  | recalls hwithdrawn hopen => cases hopen.symm.trans hclosed
  | withdraws hwithdrawn _ => exact ⟨_, rfl, hcause _ rfl⟩
  | collects hsettled => exact ⟨_, rfl, hcause _ rfl⟩
  | expires hpending => exact ⟨_, rfl, hcause _ rfl⟩

end Moments

def Remains (l : Lineup) (id : RequestId) : Prop :=
  ∃ p ∈ l.places, p.id? = some id ∧ p.standing.result? = none

variable {c : Nat} {h : Hub} {turns : List Turn}

theorem deserted_lineupOf (hnew : IsNew c h) (hturns : ∀ turn ∈ turns, turn.IsProper c)
    (hclosed : ((lineupOf c h turns).hub.client c).isOpen = false)
    (hread : ∀ p ∈ (lineupOf c h turns).places, p.errand = .listen →
      p.standing.result?.isSome = true) :
    Deserted ((lineupOf c h turns).hub.client c).answers (Remains (lineupOf c h turns)) c
      (lineupOf c h turns) := by
  have hdismissed : Dismissed (front c h) [] := by
    intro hno
    cases hno.symm.trans hnew.isOpen
  obtain ⟨hserved, horderly, hreader⟩ := stands_lineupOf
    (kept_orderly.and (kept_dismissed.weaken Orderly.fits)) hnew ⟨orderly_new hnew, hdismissed⟩
    hturns
  generalize lineupOf c h turns = l at hclosed hread hserved horderly hreader
  have hsilent : ∀ p ∈ l.places, p.errand = .listen → ∃ e, p.standing = .ended e := by
    intro p hp herrand
    have hover := hread p hp herrand
    cases hst : p.standing with
    | ended e => exact ⟨e, rfl⟩
    | _ =>
      rw [hst] at hover
      cases hover
  obtain ⟨p, hp, herrand, hended⟩ := hreader hclosed
  obtain ⟨hover, hempty⟩ : p.standing = .ended (.listened false) ∧
      (front c l.hub).ledger.pending = [] := by
    refine hended.resolve_left fun hclosing => ?_
    obtain ⟨e, he⟩ := hsilent p hp herrand
    cases hclosing.symm.trans he
  refine ⟨⟨hserved, horderly, ⟨hclosed, hempty, List.Subset.refl _, ?_⟩⟩, hsilent,
    p, hp, herrand, hover⟩
  -- Who remains is not over, and nobody else has the id.
  rintro other hother q id - hid ⟨own, hown, hid', hbusy⟩ r hr
  rw [horderly.tables.eq_of_id? hown hid' hother hid, hbusy] at hr
  cases hr

theorem silenced_of_deserted {l l' : Lineup}
    (hl : Deserted (l.hub.client c).answers (Remains l) c l') :
    Silenced c (l.board c) (l'.board c) := by
  obtain ⟨hserved, horderly, hparting⟩ := hl.stands
  refine ⟨hparting.isClosed, hparting.empty, ?_,
    wakes_of_empty hparting.isClosed hserved hparting.empty,
    late_of_closed hparting.isClosed hserved, refuses_of_closed hparting.isClosed hserved⟩
  intro task htask id hid hbusy task' htask' hid' r hr
  obtain ⟨p, hp, -, hown, hresult⟩ := exists_place htask
  obtain ⟨p', hp', herrand, hown', hresult'⟩ := exists_place htask'
  have hover := hresult'.symm.trans hr
  obtain ⟨q, hq⟩ : ∃ q, p'.errand = .ask q := by
    have hfit := horderly.fits p' hp'
    cases hst : p'.standing with
    | ended e =>
      rw [hst] at hfit hover
      obtain rfl := Option.some.inj hover
      generalize p'.errand = e at hfit
      cases hfit with
      | asked q r hr => exact ⟨q, rfl⟩
      | reading st hst => cases hst
    | _ =>
      rw [hst] at hover
      cases hover
  refine ⟨q, herrand.trans hq, ?_⟩
  exact hparting.causes p' hp' q id hq (hown'.symm.trans hid')
    ⟨p, hp, hown.symm.trans hid, hresult.symm.trans hbusy⟩ r hover

/-- Once the reader of a closed client is done, nothing waits at the client for ever after, whatever
happens; what the calls under way come to has a cause, later calls are refused, and in a fair
schedule everybody comes to an end. -/
theorem silenced_of_run (hnew : IsNew c h) (hturns : ∀ turn ∈ turns, turn.IsProper c)
    (hclosed : (((ofHub h).run c turns).hub.client c).isOpen = false)
    (hread : ∀ task ∈ ((ofHub h).run c turns).tasks, task.errand = .listen →
      task.rest.result?.isSome) :
    (∀ more, (∀ turn ∈ more, turn.IsProper c) →
      Silenced c ((ofHub h).run c turns) (((ofHub h).run c turns).run c more)) ∧
    ∀ schedule : Nat → Turn, (∀ n, (schedule n).IsProper c) →
      Fair c ((ofHub h).run c turns) schedule →
        ∃ n, ∀ task ∈ (((ofHub h).run c turns).course c schedule n).tasks,
          task.rest.result?.isSome := by
  rw [run_eq_board hnew hturns] at hclosed hread ⊢
  have hdeserted := deserted_lineupOf hnew hturns hclosed fun p hp herrand => by
    obtain ⟨task, htask, herrand', -, hresult⟩ := exists_task (c := c) hp
    exact hresult ▸ hread task htask (herrand'.trans herrand)
  refine ⟨fun more hmore => ?_, fun schedule hproper hfair => ?_⟩
  · rw [← board_run hdeserted.stands.served hmore]
    exact silenced_of_deserted (hdeserted.run hmore)
  · obtain ⟨n, hrank⟩ := hdeserted.exists_end hproper hfair
    refine ⟨n, fun task htask => ?_⟩
    rw [← hdeserted.board_course hproper] at htask
    obtain ⟨p, hp, -, -, hresult⟩ := exists_place htask
    rw [hresult]
    exact over_of_rank hrank hp

def hangUp (c : Nat) (h : Hub) : Hub :=
  (h.fromLink (h.client c).link fun l => ((), { l with hasEnded := true })).2

theorem isElsewhere_hangUp (c : Nat) : IsElsewhere c (hangUp c) := by
  intro h hserved
  have hshows := (Shows.of_served hserved).fromLink fun l => ((), { l with hasEnded := true })
  refine ⟨hshows.served, ?_⟩
  rw [hangUp, hshows.front]
  exact .refl _

theorem step_goOn_over {d : Switchboard} (hover : ∀ task ∈ d.tasks, task.rest.result?.isSome = true)
    (i : Nat) : d.step c (.goOn i) = d := by
  simp only [step]
  cases hi : d.tasks[i]? with
  | none => rfl
  | some task =>
    obtain ⟨hbound, rfl⟩ := List.getElem?_eq_some_iff.mp hi
    have hdone := hover d.tasks[i] (List.getElem_mem hbound)
    have hsame : d.tasks[i].rest.advance d.hub [] = ⟨d.hub, [], d.tasks[i].rest⟩ := by
      cases hrest : d.tasks[i].rest with
      | done e => rfl
      | _ =>
        rw [hrest] at hdone
        cases hdone
    dsimp only
    rw [hsame]
    exact congrArg (Switchboard.mk d.hub) (List.set_getElem_self hbound)

/-- The server hangs up while a call is about to write its request. -/
theorem silenced_of_run_unanswered :
    let h := { Hub.new .empty [] default with
      clients := [Client.new "a" 0 [] ⟨1⟩ 0], links := [⟨"a", "", .fresh⟩] }
    let turns := [.begin (.ask ⟨"m", .null, none, ⟨1000⟩⟩), .begin .listen, .goOn 0,
      .others (hangUp 0), .goOn 1, .goOn 1]
    let d := (ofHub h).run 0 turns
    IsNew 0 h ∧ (∀ turn ∈ turns, turn.IsProper 0) ∧ (d.hub.client 0).isOpen = false ∧
      (∀ task ∈ d.tasks, task.errand = .listen → task.rest.result?.isSome) ∧
      Silenced 0 d (d.run 0 [.goOn 0]) ∧ Fair 0 d (fun _ => .goOn 0) ∧
      ∃ n, ∀ task ∈ (d.course 0 (fun _ => .goOn 0) n).tasks, task.rest.result?.isSome := by
  intro h turns d
  have hnew : IsNew 0 h :=
    ⟨⟨by decide, by decide, rfl⟩, rfl, rfl, rfl, rfl, fun i => by cases i <;> rfl⟩
  have hturns : ∀ turn ∈ turns, turn.IsProper 0 := by
    simp [turns, Turn.IsProper, Errand.IsProper, isElsewhere_hangUp]
  have hclosed : (d.hub.client 0).isOpen = false := by decide +kernel
  have hreaders : ∀ task ∈ d.tasks,
      letsListen task.errand none = true ∨ task.rest.result?.isSome = true := by decide +kernel
  have hread : ∀ task ∈ d.tasks, task.errand = .listen → task.rest.result?.isSome := by
    intro task htask herrand
    refine (hreaders task htask).resolve_left fun hlets => ?_
    rw [herrand] at hlets
    cases hlets
  have hstart : ∀ n < 3, ((d.course 0 (fun _ => .goOn 0) n).hub.linkOf 0).isWritable = true ∧
      ∀ task ∈ (d.course 0 (fun _ => .goOn 0) n).tasks.tail, task.rest.result?.isSome = true := by
    decide +kernel
  have hend : ∀ n, ∀ task ∈ (d.course 0 (fun _ => .goOn 0) (3 + n)).tasks,
      task.rest.result?.isSome = true := by
    intro n
    induction n with
    | zero => decide +kernel
    | succ n ih =>
      rw [← Nat.add_assoc, course_succ, step_goOn_over ih]
      exact ih
  have hfair : Fair 0 d fun _ => .goOn 0 := by
    intro n i task htask hbusy
    rcases Nat.lt_or_ge n 3 with hearly | hlate
    · obtain ⟨hwritable, hothers⟩ := hstart n hearly
      refine ⟨n, Nat.le_refl n, ?_, hwritable⟩
      cases i with
      | zero => rfl
      | succ i =>
        have hmem := hothers task (List.mem_of_getElem? (List.getElem?_tail.trans htask))
        rw [hbusy] at hmem
        cases hmem
    · obtain ⟨k, rfl⟩ := Nat.exists_eq_add_of_le hlate
      have hover := hend k task (List.mem_of_getElem? htask)
      rw [hbusy] at hover
      cases hover
  obtain ⟨hsilenced, hends⟩ := silenced_of_run hnew hturns hclosed hread
  have hmore : ∀ turn ∈ [Turn.goOn 0], turn.IsProper 0 := by
    simp [Turn.IsProper]
  exact ⟨hnew, hturns, hclosed, hread, hsilenced _ hmore, hfair,
    hends _ (fun _ => trivial) hfair⟩

end Switchboard

end LanguageHub
