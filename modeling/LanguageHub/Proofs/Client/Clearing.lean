import LanguageHub.Proofs.Client.Front
import Mathlib.Data.List.Perm.Basic

/-!
# Calls clean up

Every id that waits for an answer and every request that counts as under way belongs to a call that
is. A call that is over has taken out what it put in, whichever way it ended.

Laws: the switchboard and its lineup come to the same; what the turns of single tasks keep, new
tasks begin with and everything else leaves alone holds of both after every run.
-/

namespace LanguageHub

open Routine Client

namespace Switchboard

/-!
## What holds of a lineup throughout

It is said of the tasks in any order, so that the one whose turn it is may stand first.
-/

/-- What happens elsewhere as far as the tasks see it: at most requests end with it, answers are
lost, the link fails and calls are cancelled. The stream is left to the tasks. -/
structure Elsewhere (f f' : Front) : Prop where
  next : f'.ledger.next = f.ledger.next
  pending : f'.ledger.pending ⊆ f.ledger.pending
  answers : f'.ledger.answers ⊆ f.ledger.answers
  isOpen : f'.isOpen = f.isOpen
  frames : f'.frames = f.frames
  isDue : f.isDue = true → f'.isDue = true
  lock : f'.lock = f.lock
  tracked : ∀ i, f'.tracked i ⊆ f.tracked i
  isCancelled : ∀ i, f.isCancelled i = true → f'.isCancelled i = true

theorem Elsewhere.refl (f : Front) : Elsewhere f f where
  next := rfl
  pending := List.Subset.refl _
  answers := List.Subset.refl _
  isOpen := rfl
  frames := rfl
  isDue h := h
  lock := rfl
  tracked _ := List.Subset.refl _
  isCancelled _ h := h

def IsElsewhere (c : Nat) (change : Hub → Hub) : Prop :=
  ∀ h, IsServed c h → IsServed c (change h) ∧ Elsewhere (front c h) (front c (change h))

/-- Only calls cancel requests. -/
def Errand.IsProper : Errand → Prop
  | .tell method _ => method ≠ "$/cancelRequest"
  | _ => True

def Turn.IsProper (c : Nat) : Turn → Prop
  | .begin e => e.IsProper
  | .goOn _ => True
  | .others change => IsElsewhere c change

/-- A client that was not asked anything yet. -/
structure IsNew (c : Nat) (h : Hub) : Prop where
  served : IsServed c h
  ledger : (front c h).ledger = ⟨1, [], []⟩
  isOpen : (front c h).isOpen = true
  frames : (front c h).frames = []
  lock : (front c h).lock.tickets = []
  tracked : ∀ i, (front c h).tracked i = []

/-- The id of the request for which a task is there, while it is under way. -/
def Standing.id? : Standing → Option RequestId
  | .fresh _ _ id => some id
  | .writing (.request _ id _) _ => some id
  | .writing (.recalling id _) _ => some id
  | .listening _ id _ _ => some id
  | _ => none

variable {c : Nat} {A P : Front → List Place → Prop}

/-- Every turn before and after which `A` holds keeps this, wherever the task stands among the
others. -/
structure Kept (A P : Front → List Place → Prop) : Prop where
  perm : ∀ {f ps ps'}, ps.Perm ps' → P f ps → P f ps'
  go : ∀ {f f' st' rest} {p : Place}, A f (p :: rest) → A f' ({ p with standing := st' } :: rest) →
    P f (p :: rest) → Progress f p.standing f' st' → P f' ({ p with standing := st' } :: rest)
  begin : ∀ {f f' e st ps}, A f ps → A f' (⟨e, st.id?, st⟩ :: ps) → P f ps → e.IsProper →
    Begins f e f' st → P f' (⟨e, st.id?, st⟩ :: ps)
  elsewhere : ∀ {f f' ps}, A f ps → P f ps → Elsewhere f f' → P f' ps

/-- What is kept on its own may be used for more. -/
theorem Kept.and (hA : Kept (fun _ _ => True) A) (hP : Kept A P) :
    Kept (fun _ _ => True) fun f ps => A f ps ∧ P f ps where
  perm hperm h := ⟨hA.perm hperm h.1, hP.perm hperm h.2⟩
  go _ _ h hgo := by
    have hnext := hA.go trivial trivial h.1 hgo
    exact ⟨hnext, hP.go h.1 hnext h.2 hgo⟩
  begin _ _ h hproper hbegins := by
    have hnext := hA.begin trivial trivial h.1 hproper hbegins
    exact ⟨hnext, hP.begin h.1 hnext h.2 hproper hbegins⟩
  elsewhere _ h helse := ⟨hA.elsewhere trivial h.1 helse, hP.elsewhere h.1 h.2 helse⟩

theorem Kept.weaken {B : Front → List Place → Prop} (hP : Kept A P)
    (hB : ∀ {f ps}, B f ps → A f ps) : Kept B P where
  perm := hP.perm
  go h h' := hP.go (hB h) (hB h')
  begin h h' := hP.begin (hB h) (hB h')
  elsewhere h := hP.elsewhere (hB h)

structure Lineup.Stands (c : Nat) (P : Front → List Place → Prop) (l : Lineup) : Prop where
  served : IsServed c l.hub
  holds : P (front c l.hub) l.places

theorem idOf_begins {h : Hub} {e : Errand} {f' : Front} {st : Standing}
    (hbegins : Begins (front c h) e f' st) : idOf c e h st.result?.isSome = st.id? := by
  cases hbegins <;> rfl

theorem perm_cons_eraseIdx {ps : List Place} {i : Nat} {p : Place} (hi : ps[i]? = some p) :
    ps.Perm (p :: ps.eraseIdx i) ∧
      ∀ p', (ps.set i p').Perm (p' :: ps.eraseIdx i) := by
  obtain ⟨hbound, rfl⟩ := List.getElem?_eq_some_iff.mp hi
  exact ⟨(List.getElem_cons_eraseIdx_perm hbound).symm,
    fun p' => List.set_perm_cons_eraseIdx hbound p'⟩

namespace Lineup.Stands

variable {l : Lineup}

theorem step (hP : Kept (fun _ _ => True) P) (h : l.Stands c P) {turn : Turn}
    (hturn : turn.IsProper c) : (l.step c turn).Stands c P := by
  have hshows : Shows c l.hub (front c l.hub) := .of_served h.served
  cases turn with
  | begin e =>
    simp only [Lineup.step]
    split
    · obtain ⟨f', hnext, hbegins⟩ := begins_begin hshows e
      refine ⟨hnext.served, ?_⟩
      rw [hnext.front, idOf_begins hbegins]
      exact hP.perm (List.perm_append_singleton _ _).symm
        (hP.begin trivial trivial h.holds hturn hbegins)
    · exact h
  | goOn i =>
    simp only [Lineup.step]
    cases hi : l.places[i]? with
    | none => exact h
    | some p =>
      obtain ⟨f', hnext, hgo⟩ := progress_go hshows p.standing
      obtain ⟨hbefore, hafter⟩ := perm_cons_eraseIdx hi
      refine ⟨hnext.served, ?_⟩
      rw [hnext.front]
      exact hP.perm (hafter _).symm (hP.go trivial trivial (hP.perm hbefore h.holds) hgo)
  | others change =>
    obtain ⟨hserved, helse⟩ := hturn l.hub h.served
    exact ⟨hserved, hP.elsewhere trivial h.holds helse⟩

theorem run (hP : Kept (fun _ _ => True) P) (h : l.Stands c P) {turns : List Turn}
    (hturns : ∀ turn ∈ turns, turn.IsProper c) : (l.run c turns).Stands c P := by
  induction turns generalizing l with
  | nil => exact h
  | cons turn rest ih =>
    rw [List.forall_mem_cons] at hturns
    exact ih (h.step hP hturns.1) hturns.2

end Lineup.Stands

theorem kept_true : Kept A fun _ _ => True :=
  ⟨fun _ _ => trivial, fun _ _ _ _ => trivial, fun _ _ _ _ _ => trivial, fun _ _ _ => trivial⟩

/-- The switchboard goes as its lineup does. -/
theorem board_run {l : Lineup} (hserved : IsServed c l.hub) {turns : List Turn}
    (hturns : ∀ turn ∈ turns, turn.IsProper c) :
    (l.run c turns).board c = (l.board c).run c turns := by
  induction turns generalizing l with
  | nil => rfl
  | cons turn rest ih =>
    rw [List.forall_mem_cons] at hturns
    have hstands : l.Stands c fun _ _ => True := ⟨hserved, trivial⟩
    change ((l.step c turn).run c rest).board c = ((l.board c).step c turn).run c rest
    rw [ih (hstands.step kept_true hturns.1).served hturns.2, board_step l hserved.kept turn]

section

variable {h : Hub} {turns : List Turn}

def lineupOf (c : Nat) (h : Hub) (turns : List Turn) : Lineup := Lineup.run c ⟨h, []⟩ turns

theorem run_eq_board (hnew : IsNew c h) (hturns : ∀ turn ∈ turns, turn.IsProper c) :
    (ofHub h).run c turns = (lineupOf c h turns).board c :=
  (board_run (l := ⟨h, []⟩) hnew.served hturns).symm

theorem stands_lineupOf (hP : Kept (fun _ _ => True) P) (hnew : IsNew c h)
    (hstart : P (front c h) []) (hturns : ∀ turn ∈ turns, turn.IsProper c) :
    (lineupOf c h turns).Stands c P :=
  Lineup.Stands.run hP ⟨hnew.served, hstart⟩ hturns

end

/-! ## What a task put in -/

/-- The id that waits for an answer on behalf of a task. -/
def Standing.awaited? : Standing → Option RequestId
  | .writing (.request _ id _) _ => some id
  | .listening _ id _ _ => some id
  | _ => none

/-- The mark with which the request of a task counts as under way. -/
def Standing.mark? : Standing → Option (Nat × Nat)
  | .writing (.request _ _ mark) _ => mark
  | .writing (.recalling _ mark) _ => mark
  | .listening _ _ mark _ => mark
  | _ => none

/-- A task takes out what it put in before it lets it go. -/
structure Tidies (f : Front) (st : Standing) (f' : Front) (st' : Standing) : Prop where
  next : f'.ledger.next = f.ledger.next
  id? : ∀ id, st'.id? = some id → st.id? = some id
  pending : ∀ id ∈ f'.ledger.pending, st'.awaited? = some id ∨
    id ∈ f.ledger.pending ∧ (st.awaited? = some id → st'.awaited? = some id)
  tracked : ∀ i, ∀ entry ∈ f'.tracked i,
    st'.mark? = some (i, entry.1) ∧ st'.id? = some entry.2.requestId ∨
      entry ∈ f.tracked i ∧
        (st.mark? = some (i, entry.1) → st'.mark? = st.mark? ∧ st'.id? = st.id?)

structure Front.SameTables (f f' : Front) : Prop where
  ledger : f'.ledger = f.ledger
  tracked : f'.tracked = f.tracked
  isOpen : f'.isOpen = f.isOpen
  isCancelled : f'.isCancelled = f.isCancelled

section Turns

variable {f f' f₁ : Front} {st st' : Standing} {w w' : Writing} {r : Except HubError Unit}
  {purpose : Purpose}

theorem Tidies.of_same (hledger : f'.ledger = f.ledger) (htracked : f'.tracked = f.tracked)
    (hid : st'.id? = st.id?) (hawaited : st'.awaited? = st.awaited?)
    (hmark : st'.mark? = st.mark?) : Tidies f st f' st' where
  next := by rw [hledger]
  id? id := by
    rw [hid]
    exact fun h => h
  pending id hmem := by
    rw [hledger] at hmem
    rw [hawaited]
    exact .inr ⟨hmem, fun h => h⟩
  tracked i entry hmem := by
    rw [htracked] at hmem
    exact .inr ⟨hmem, fun _ => ⟨hmark, hid⟩⟩

/-- Before, more may have been waiting. -/
theorem Tidies.mono (h : Tidies f₁ st f' st') (hnext : f₁.ledger.next = f.ledger.next)
    (hpending : f₁.ledger.pending ⊆ f.ledger.pending) (htracked : f₁.tracked = f.tracked) :
    Tidies f st f' st' where
  next := h.next.trans hnext
  id? := h.id?
  pending id hmem := (h.pending id hmem).imp_right (And.imp_left fun hold => hpending hold)
  tracked i entry hmem := by
    rw [← htracked]
    exact h.tracked i entry hmem

theorem Writes.same {next : Writing ⊕ Except HubError Unit} (h : Writes w f f' next) :
    f.SameTables f' := by
  cases h <;> exact ⟨rfl, rfl, rfl, rfl⟩

theorem Hears.same (h : Hears f f' st) : f.SameTables f' := by
  cases h <;> exact ⟨rfl, rfl, rfl, rfl⟩

theorem tidies_hears (h : Hears f f' st') (hid : st.id? = none) (hawaited : st.awaited? = none)
    (hmark : st.mark? = none) : Tidies f st f' st' := by
  have hnothing : st'.id? = none ∧ st'.awaited? = none ∧ st'.mark? = none := by
    cases h <;> exact ⟨rfl, rfl, rfl⟩
  exact .of_same h.same.ledger h.same.tracked (hnothing.1.trans hid.symm)
    (hnothing.2.1.trans hawaited.symm) (hnothing.2.2.trans hmark.symm)

theorem deliver_next (l : Ledger) (id : RequestId) (r : Response) :
    (l.deliver id r).next = l.next := by
  unfold Ledger.deliver
  split <;> rfl

theorem deliver_shrinks {l : Ledger} {id : RequestId} {r : Response} :
    (l.deliver id r).pending ⊆ l.pending ∧
      (l.pending = [] → (l.deliver id r).answers = l.answers) := by
  unfold Ledger.deliver
  split
  · rename_i hmem
    refine ⟨fun id' hid' => (List.mem_filter.mp hid').1, fun hnone => ?_⟩
    rw [hnone] at hmem
    cases hmem
  · exact ⟨List.Subset.refl _, fun _ => rfl⟩

theorem mem_tracked_unmark {mark : Option (Nat × Nat)} {i : Nat} {entry : Nat × PendingRequest}
    (h : entry ∈ (f.unmark mark).tracked i) : entry ∈ f.tracked i ∧ mark ≠ some (i, entry.1) := by
  cases mark with
  | none => exact ⟨h, nofun⟩
  | some m =>
    obtain ⟨k, token⟩ := m
    simp only [Front.unmark] at h
    split at h
    · rename_i hk
      obtain ⟨hmem, hne⟩ := List.mem_filter.mp h
      refine ⟨hmem, fun heq => ?_⟩
      obtain ⟨-, htoken⟩ := Prod.mk.inj (Option.some.inj heq)
      simp [htoken] at hne
    · rename_i hk
      refine ⟨h, fun heq => hk ?_⟩
      exact (congrArg Prod.fst (Option.some.inj heq)).symm

/-- A call that ends takes its mark with it, and its id does not wait any more. -/
theorem tidies_over {mark : Option (Nat × Nat)} {e : Ending}
    (hnext : f'.ledger.next = f.ledger.next)
    (hpending : ∀ id ∈ f'.ledger.pending, id ∈ f.ledger.pending ∧ st.awaited? ≠ some id)
    (htracked : f'.tracked = f.tracked) (hmark : st.mark? = mark) :
    Tidies f st (f'.unmark mark) (.ended e) where
  next := by rw [Front.unmark_ledger, hnext]
  id? := nofun
  pending id hmem := by
    rw [Front.unmark_ledger] at hmem
    obtain ⟨hold, hother⟩ := hpending id hmem
    exact .inr ⟨hold, fun hown => absurd hown hother⟩
  tracked i entry hmem := by
    obtain ⟨hold, hother⟩ := mem_tracked_unmark hmem
    rw [htracked] at hold
    exact .inr ⟨hold, fun hown => absurd (hmark.symm.trans hown) hother⟩

theorem mem_forget {l : Ledger} {id id' : RequestId} (h : id' ∈ (l.forget id).pending) :
    id' ∈ l.pending ∧ some id ≠ some id' := by
  obtain ⟨hmem, hne⟩ := List.mem_filter.mp h
  exact ⟨hmem, fun heq => by simp [Option.some.inj heq] at hne⟩

theorem tidies_follows (h : Follows f purpose r f' st') : Tidies f (.writing purpose w) f' st' := by
  cases h with
  | asked q id mark deadline => exact .of_same rfl rfl rfl rfl rfl
  | failed q id mark e =>
    exact tidies_over rfl (fun id' hmem => mem_forget hmem) rfl rfl
  | recalled id mark written => exact tidies_over rfl (fun id' hmem => ⟨hmem, nofun⟩) rfl rfl
  | told written => exact .of_same rfl rfl rfl rfl rfl
  | answered bodies stop written hnext => exact tidies_hears hnext rfl rfl rfl

theorem tidies_of_progress (h : Progress f st f' st') : Tidies f st f' st' := by
  cases h with
  | refused serverId q id hclosed =>
    exact ⟨rfl, nofun, fun id' hmem => .inr ⟨hmem, nofun⟩, fun i entry hmem => .inr ⟨hmem, nofun⟩⟩
  | @enrols serverId q id mark tracked hopen hmark =>
    refine ⟨rfl, fun id' hid => hid, fun id' hmem => ?_, fun i entry hmem => ?_⟩
    · rcases List.mem_append.mp hmem with hold | hnew
      · exact .inr ⟨hold, nofun⟩
      · obtain rfl := List.mem_singleton.mp hnew
        exact .inl rfl
    · rcases hmark i entry hmem with hold | ⟨hnew, hentry⟩
      · exact .inr ⟨hold, nofun⟩
      · exact .inl ⟨hnew, by rw [hentry]; rfl⟩
  | @writes purpose w w' f' hwrites =>
    exact .of_same hwrites.same.ledger hwrites.same.tracked (by cases purpose <;> rfl)
      (by cases purpose <;> rfl) (by cases purpose <;> rfl)
  | @written purpose w f₁ f' r st hwrites hnext =>
    have hledger := hwrites.same.ledger
    exact (tidies_follows (w := w) hnext).mono (by rw [hledger])
      (by rw [hledger]; exact List.Subset.refl _) hwrites.same.tracked
  | waits hpending hgoes => exact .of_same rfl rfl rfl rfl rfl
  | recalls hwithdrawn hopen =>
    refine ⟨rfl, fun id' hid => hid, fun id' hmem => ?_, fun i entry hmem => ?_⟩
    · obtain ⟨hold, hother⟩ := mem_forget hmem
      exact .inr ⟨hold, fun hown => absurd hown hother⟩
    · exact .inr ⟨hmem, fun _ => ⟨rfl, rfl⟩⟩
  | withdraws hwithdrawn hclosed => exact tidies_over rfl (fun id' hmem => mem_forget hmem) rfl rfl
  | @collects q id mark deadline hsettled =>
    refine tidies_over rfl (fun id' hmem => ⟨hmem, ?_⟩) rfl rfl
    rintro ⟨⟩
    exact hsettled hmem
  | expires hpending => exact tidies_over rfl (fun id' hmem => mem_forget hmem) rfl rfl
  | idles => exact .of_same rfl rfl rfl rfl rfl
  | reads hnext => exact tidies_hears hnext rfl rfl rfl
  | closes => exact .of_same rfl rfl rfl rfl rfl
  | hands hnext =>
    exact (tidies_hears hnext rfl rfl rfl).mono (deliver_next ..) deliver_shrinks.1 rfl
  | clears => exact ⟨rfl, nofun, nofun, fun i entry hmem => .inr ⟨hmem, nofun⟩⟩
  | rests e => exact .of_same rfl rfl rfl rfl rfl

end Turns

/-! ## The tables -/

def idsOf (ps : List Place) : List RequestId := ps.filterMap (·.id?)

/-- Everything in the tables belongs to a task that is under way. -/
structure Tables (f : Front) (ps : List Place) : Prop where
  owns : ∀ p ∈ ps, ∀ id, p.standing.id? = some id → p.id? = some id
  distinct : (idsOf ps).Nodup
  taken : ∀ id ∈ idsOf ps, ∃ n : Nat, n < f.ledger.next ∧ id = .number n
  pending : ∀ id ∈ f.ledger.pending, ∃ p ∈ ps, p.standing.awaited? = some id
  tracked : ∀ i, ∀ entry ∈ f.tracked i, ∃ p ∈ ps,
    p.standing.mark? = some (i, entry.1) ∧ p.standing.id? = some entry.2.requestId

theorem id?_of_awaited? {st : Standing} {id : RequestId} (h : st.awaited? = some id) :
    st.id? = some id := by
  cases st with
  | writing purpose w =>
    cases purpose with
    | request q id' mark => exact h
    | _ => cases h
  | listening q id' mark deadline => exact h
  | _ => cases h

namespace Tables

variable {f f' : Front} {ps ps' rest : List Place} {p : Place} {st' : Standing}

theorem perm (hperm : ps.Perm ps') (h : Tables f ps) : Tables f ps' where
  owns p hp := h.owns p (hperm.mem_iff.mpr hp)
  distinct := (hperm.filterMap _).nodup_iff.mp h.distinct
  taken id hid := h.taken id ((hperm.filterMap _).mem_iff.mpr hid)
  pending id hid := by
    obtain ⟨p, hp, hawaited⟩ := h.pending id hid
    exact ⟨p, hperm.mem_iff.mp hp, hawaited⟩
  tracked i entry hentry := by
    obtain ⟨p, hp, hmark⟩ := h.tracked i entry hentry
    exact ⟨p, hperm.mem_iff.mp hp, hmark⟩

theorem ne_id? (h : Tables f (p :: rest)) {id : RequestId} (hid : p.id? = some id) {q : Place}
    (hq : q ∈ rest) : q.id? ≠ some id := by
  intro hsame
  have hnodup := h.distinct
  unfold idsOf at hnodup
  rw [List.filterMap_cons_some hid] at hnodup
  exact (List.nodup_cons.mp hnodup).1 (List.mem_filterMap.mpr ⟨q, hq, hsame⟩)

theorem eq_of_id? (h : Tables f ps) {id : RequestId} (hp : p ∈ ps) (hid : p.id? = some id)
    {q : Place} (hq : q ∈ ps) (hsame : q.id? = some id) : q = p := by
  obtain ⟨before, after, rfl⟩ := List.append_of_mem hp
  have hfirst := h.perm List.perm_middle
  rcases List.mem_cons.mp (List.perm_middle.mem_iff.mp hq) with heq | hother
  · exact heq
  · exact absurd hsame (hfirst.ne_id? hid hother)

theorem go (h : Tables f (p :: rest)) (htidies : Tidies f p.standing f' st') :
    Tables f' ({ p with standing := st' } :: rest) where
  owns q hq id hid := by
    rcases List.mem_cons.mp hq with rfl | hq
    · exact h.owns p List.mem_cons_self id (htidies.id? id hid)
    · exact h.owns q (List.mem_cons_of_mem _ hq) id hid
  distinct := h.distinct
  taken id hid := by
    rw [htidies.next]
    exact h.taken id hid
  pending id hid := by
    rcases htidies.pending id hid with hown | ⟨hold, hsame⟩
    · exact ⟨_, List.mem_cons_self, hown⟩
    · obtain ⟨q, hq, hawaited⟩ := h.pending id hold
      rcases List.mem_cons.mp hq with rfl | hq
      · exact ⟨_, List.mem_cons_self, hsame hawaited⟩
      · exact ⟨q, List.mem_cons_of_mem _ hq, hawaited⟩
  tracked i entry hentry := by
    rcases htidies.tracked i entry hentry with hown | ⟨hold, hsame⟩
    · exact ⟨_, List.mem_cons_self, hown⟩
    · obtain ⟨q, hq, hmark, hid⟩ := h.tracked i entry hold
      rcases List.mem_cons.mp hq with rfl | hq
      · obtain ⟨hmark', hid'⟩ := hsame hmark
        exact ⟨_, List.mem_cons_self, hmark'.trans hmark, hid'.trans hid⟩
      · exact ⟨q, List.mem_cons_of_mem _ hq, hmark, hid⟩

theorem join (h : Tables f ps) (hledger : f'.ledger = f.ledger) (htracked : f'.tracked = f.tracked)
    (e : Errand) (st' : Standing) (hid : st'.id? = none) :
    Tables f' (⟨e, st'.id?, st'⟩ :: ps) where
  owns p hp id hown := by
    rcases List.mem_cons.mp hp with rfl | hp
    · exact hown
    · exact h.owns p hp id hown
  distinct := by
    simpa [idsOf, hid] using h.distinct
  taken id hmem := by
    rw [hledger]
    exact h.taken id (by simpa [idsOf, hid] using hmem)
  pending id hmem := by
    rw [hledger] at hmem
    obtain ⟨p, hp, hawaited⟩ := h.pending id hmem
    exact ⟨p, List.mem_cons_of_mem _ hp, hawaited⟩
  tracked i entry hentry := by
    rw [htracked] at hentry
    obtain ⟨p, hp, hmark⟩ := h.tracked i entry hentry
    exact ⟨p, List.mem_cons_of_mem _ hp, hmark⟩

/-- A call begins with an id that no other has. -/
theorem take (h : Tables f ps) (serverId : String) (q : Question) :
    Tables { f with ledger := f.ledger.take } (⟨.ask q, some (.number f.ledger.next),
      .fresh serverId q (.number f.ledger.next)⟩ :: ps) where
  owns p hp id hown := by
    rcases List.mem_cons.mp hp with rfl | hp
    · exact hown
    · exact h.owns p hp id hown
  distinct := by
    refine List.nodup_cons.mpr ⟨fun hmem => ?_, h.distinct⟩
    obtain ⟨n, hn, heq⟩ := h.taken _ hmem
    have hsame : (f.ledger.next : Int) = n := RequestId.number.inj heq
    omega
  taken id hmem := by
    rcases List.mem_cons.mp hmem with rfl | hmem
    · exact ⟨f.ledger.next, Nat.lt_succ_self _, rfl⟩
    · obtain ⟨n, hn, heq⟩ := h.taken id hmem
      exact ⟨n, Nat.lt_succ_of_lt hn, heq⟩
  pending id hmem := by
    obtain ⟨p, hp, hawaited⟩ := h.pending id hmem
    exact ⟨p, List.mem_cons_of_mem _ hp, hawaited⟩
  tracked i entry hentry := by
    obtain ⟨p, hp, hmark⟩ := h.tracked i entry hentry
    exact ⟨p, List.mem_cons_of_mem _ hp, hmark⟩

theorem elsewhere (h : Tables f ps) (helse : Elsewhere f f') : Tables f' ps where
  owns := h.owns
  distinct := h.distinct
  taken id hmem := by
    rw [helse.next]
    exact h.taken id hmem
  pending id hmem := h.pending id (helse.pending hmem)
  tracked i entry hentry := h.tracked i entry (helse.tracked i hentry)

end Tables

theorem kept_tables : Kept (fun _ _ => True) Tables where
  perm hperm h := h.perm hperm
  go _ _ h hgo := h.go (tidies_of_progress hgo)
  begin _ _ h _ hbegins := by
    cases hbegins with
    | takes q serverId hopen => exact h.take serverId q
    | refused q hclosed => exact h.join rfl rfl _ (.ended _) rfl
    | withdrawn q hopen hwithdrawn => exact h.join rfl rfl _ (.ended _) rfl
    | tells method params hopen => refine h.join ?_ ?_ _ (.writing .notice _) rfl <;> rfl
    | keepsSilent method params hclosed => exact h.join rfl rfl _ (.ended _) rfl
    | listens => exact h.join rfl rfl _ .idle rfl
  elsewhere _ h helse := h.elsewhere helse

theorem tables_new {c : Nat} {h : Hub} (hnew : IsNew c h) : Tables (front c h) [] where
  owns p hp := absurd hp List.not_mem_nil
  distinct := List.nodup_nil
  taken id hid := absurd hid List.not_mem_nil
  pending id hmem := by
    rw [hnew.ledger] at hmem
    exact absurd hmem List.not_mem_nil
  tracked i entry hentry := by
    rw [hnew.tracked i] at hentry
    exact absurd hentry List.not_mem_nil

end Switchboard

end LanguageHub
