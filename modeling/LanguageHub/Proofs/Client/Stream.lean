import LanguageHub.Proofs.Client.Clearing
import LanguageHub.Proofs.Hub.Tickets

/-!
# The stream of a client

Whoever comes for the stream of a client takes a ticket, and the one with the oldest writes alone.
So the frames on the link are those of the tasks one after the other.

Laws: the tickets for the stream are those of the tasks that write, and only a writer changes its
own frame.
-/

namespace LanguageHub

open Routine Client

namespace Switchboard

/-! ## Frames of one writer -/

open Link (begun)

theorem size_pos (w : Writing) : 0 < w.size := w.message.frame_pos

theorem extend_begun (m : Message) (size sent count : Nat) (F : List Outgoing)
    (hcount : 0 < count) :
    extend m size sent count (F ++ begun m size sent) = F ++ begun m size (sent + count) := by
  have hnonzero : sent + count ≠ 0 := by omega
  simp only [extend, begun, if_neg hnonzero]
  split
  · rename_i hzero
    simp [hzero]
  · exact Link.grow_append_singleton ..

def Writing.sent (w : Writing) : Nat := (w.sent?.map (·.2)).getD 0

/-- A writer that has the stream is in the midst of its message. -/
def Writing.IsUnderway (w : Writing) (f : Front) : Prop :=
  ∀ rounds sent, w.sent? = some (rounds, sent) →
    f.lock.holder = some w.ticket ∧ sent < w.size ∧ w.size ≤ sent + (rounds + 1) ∧
      ∃ F, f.frames = F ++ begun w.message w.size sent

section Writers

variable {f f' : Front} {w w' : Writing} {r : Except HubError Unit}
  {next : Writing ⊕ Except HubError Unit}

/-- How much of the message was accepted after a writer's turn. -/
def sentAfter (w : Writing) : Writing ⊕ Except HubError Unit → Nat
  | .inl w' => w'.sent
  | .inr (.ok _) => w.size
  | .inr (.error _) => w.sent

/-- A writer changes no frames but its own. -/
theorem Writes.frames (h : Writes w f f' next) (hw : w.IsUnderway f) :
    ∃ F, f.frames = F ++ begun w.message w.size w.sent ∧
      f'.frames = F ++ begun w.message w.size (sentAfter w next) := by
  cases h with
  | queues hnew hheld =>
    have hnone : w.sent = 0 := by simp [Writing.sent, hnew]
    exact ⟨f.frames, by simp [begun, hnone], by simp [sentAfter, begun, hnone]⟩
  | begins hnew hheld =>
    have hnone : w.sent = 0 := by simp [Writing.sent, hnew]
    exact ⟨f.frames, by simp [begun, hnone], by simp [sentAfter, begun, Writing.sent]⟩
  | @waits rounds sent hsent hfull =>
    obtain ⟨-, -, -, F, hF⟩ := hw rounds sent hsent
    have hsame : w.sent = sent := by simp [Writing.sent, hsent]
    exact ⟨F, by rw [hsame, hF], by rw [sentAfter, hsame, hF]⟩
  | @fails rounds sent reason hsent hdue =>
    obtain ⟨-, -, -, F, hF⟩ := hw rounds sent hsent
    have hsame : w.sent = sent := by simp [Writing.sent, hsent]
    exact ⟨F, by rw [hsame, hF], by rw [sentAfter, hsame]; exact hF⟩
  | @grows rounds sent count isWritable isDue hsent hdue hcount hmore =>
    obtain ⟨-, hless, -, F, hF⟩ := hw _ sent hsent
    have hsame : w.sent = sent := by simp [Writing.sent, hsent]
    refine ⟨F, by rw [hsame, hF], ?_⟩
    dsimp only
    rw [hF, extend_begun _ _ _ _ _ (hcount hless).1]
    rfl
  | @ends rounds sent count isWritable isDue hsent hdue hcount hlast =>
    obtain ⟨-, hless, hrounds, F, hF⟩ := hw _ sent hsent
    have hsame : w.sent = sent := by simp [Writing.sent, hsent]
    obtain ⟨hpos, hfits⟩ := hcount hless
    have hwhole : sent + count = w.size := by omega
    refine ⟨F, by rw [hsame, hF], ?_⟩
    dsimp only
    rw [hF, extend_begun _ _ _ _ _ hpos, hwhole]
    rfl

end Writers

/-! ## Tickets -/

def Standing.writing? : Standing → Option Writing
  | .writing _ w => some w
  | _ => none

def Place.ticket? (p : Place) : Option Nat := p.standing.writing?.map (·.ticket)

/-- The tickets for the stream are those of the tasks that write. -/
structure Stream (f : Front) (ps : List Place) : Prop where
  valid : f.lock.Valid
  tickets : (ps.filterMap (·.ticket?)).Perm f.lock.tickets
  underway : ∀ p ∈ ps, ∀ w, p.standing.writing? = some w → w.IsUnderway f

theorem isUnderway_new {w : Writing} {f : Front} (hnew : w.sent? = none) : w.IsUnderway f := by
  intro rounds sent hsent
  rw [hnew] at hsent
  cases hsent

theorem ticket?_of_writing? {p : Place} {w : Writing} (hw : p.standing.writing? = some w) :
    p.ticket? = some w.ticket := by
  simp only [Place.ticket?, hw, Option.map_some]

theorem ticket?_of_idle {p : Place} (hidle : p.standing.writing? = none) : p.ticket? = none := by
  simp only [Place.ticket?, hidle, Option.map_none]

namespace Stream

variable {f f' : Front} {ps ps' rest : List Place} {p : Place} {st' : Standing} {w w' : Writing}

theorem perm (hperm : ps.Perm ps') (h : Stream f ps) : Stream f ps' where
  valid := h.valid
  tickets := (hperm.filterMap _).symm.trans h.tickets
  underway p hp := h.underway p (hperm.mem_iff.mpr hp)

theorem same (h : Stream f (p :: rest)) (hframes : f'.frames = f.frames) (hlock : f'.lock = f.lock)
    (hwriting : st'.writing? = p.standing.writing?) :
    Stream f' ({ p with standing := st' } :: rest) where
  valid := by
    rw [hlock]
    exact h.valid
  tickets := by
    have hticket : Place.ticket? { p with standing := st' } = p.ticket? := by
      simp only [Place.ticket?, hwriting]
    have hsame : ({ p with standing := st' } :: rest).filterMap (·.ticket?) =
        (p :: rest).filterMap (·.ticket?) := by
      simp only [List.filterMap_cons, hticket]
    rw [hlock, hsame]
    exact h.tickets
  underway q hq w hw := by
    intro rounds sent hsent
    rw [hframes, hlock]
    rcases List.mem_cons.mp hq with rfl | hq
    · exact h.underway p List.mem_cons_self w (hwriting.symm.trans hw) rounds sent hsent
    · exact h.underway q (List.mem_cons_of_mem _ hq) w hw rounds sent hsent

theorem queue (h : Stream f (p :: rest)) {m : Message} (hframes : f'.frames = f.frames)
    (hlock : f'.lock = f.lock.enter.2) (hidle : p.standing.writing? = none)
    (hwriting : st'.writing? = some ⟨m, f.lock.next, none⟩) :
    Stream f' ({ p with standing := st' } :: rest) where
  valid := by
    rw [hlock]
    exact h.valid.enter
  tickets := by
    have hnew : Place.ticket? { p with standing := st' } = some f.lock.next :=
      ticket?_of_writing? (w := ⟨m, f.lock.next, none⟩) hwriting
    have htickets := h.tickets
    rw [List.filterMap_cons_none (ticket?_of_idle hidle)] at htickets
    rw [List.filterMap_cons_some hnew, hlock, h.valid.tickets_enter]
    exact (htickets.cons _).trans (List.perm_append_singleton _ _).symm
  underway q hq w hw := by
    rcases List.mem_cons.mp hq with rfl | hq
    · obtain rfl := Option.some.inj (hwriting.symm.trans hw)
      exact isUnderway_new rfl
    · intro rounds sent hsent
      obtain ⟨hholder, hrest⟩ := h.underway q (List.mem_cons_of_mem _ hq) w hw rounds sent hsent
      refine ⟨?_, by rwa [hframes]⟩
      rw [hlock, Lock.enter_holder, if_neg (by simp [Lock.isFree, hholder]), hholder]

theorem ticket_ne (h : Stream f (p :: rest)) (hw : p.standing.writing? = some w) {q : Place}
    (hq : q ∈ rest) {v : Writing} (hv : q.standing.writing? = some v) : v.ticket ≠ w.ticket := by
  intro hsame
  have hnodup := h.tickets.nodup_iff.mpr h.valid.nodup
  rw [List.filterMap_cons_some (ticket?_of_writing? hw)] at hnodup
  refine (List.nodup_cons.mp hnodup).1 (List.mem_filterMap.mpr ⟨q, hq, ?_⟩)
  rw [ticket?_of_writing? hv, hsame]

/-- Nobody is in the midst of a message beside the holder of the stream. -/
theorem alone (h : Stream f (p :: rest)) (hw : p.standing.writing? = some w)
    (hholder : f.lock.holder = some w.ticket) {q : Place} (hq : q ∈ rest) {v : Writing}
    (hv : q.standing.writing? = some v) : v.sent? = none := by
  cases hsent : v.sent? with
  | none => rfl
  | some left =>
    obtain ⟨rounds, sent⟩ := left
    obtain ⟨hother, -⟩ := h.underway q (List.mem_cons_of_mem _ hq) v hv rounds sent hsent
    exact absurd (Option.some.inj (hother.symm.trans hholder)) (h.ticket_ne hw hq hv)

theorem stays (h : Stream f (p :: rest)) (hw : p.standing.writing? = some w)
    (hw' : st'.writing? = some w') (hticket : w'.ticket = w.ticket) (hlock : f'.lock = f.lock)
    (hown : w'.IsUnderway f')
    (hothers : ∀ q ∈ rest, ∀ v, q.standing.writing? = some v → v.IsUnderway f') :
    Stream f' ({ p with standing := st' } :: rest) where
  valid := by
    rw [hlock]
    exact h.valid
  tickets := by
    have hnew : Place.ticket? { p with standing := st' } = some w.ticket := by
      rw [ticket?_of_writing? hw', hticket]
    have htickets := h.tickets
    rw [List.filterMap_cons_some (ticket?_of_writing? hw)] at htickets
    rw [List.filterMap_cons_some hnew, hlock]
    exact htickets
  underway q hq v hv := by
    rcases List.mem_cons.mp hq with rfl | hq
    · obtain rfl := Option.some.inj (hw'.symm.trans hv)
      exact hown
    · exact hothers q hq v hv

theorem writes (h : Stream f (p :: rest)) (hw : p.standing.writing? = some w)
    (hwrites : Writes w f f' (.inl w')) (hw' : st'.writing? = some w') :
    Stream f' ({ p with standing := st' } :: rest) := by
  have hunderway := h.underway p List.mem_cons_self w hw
  cases hwrites with
  | queues hnew hheld => exact h.same rfl rfl (hw'.trans hw.symm)
  | waits hsent hfull => exact h.same rfl rfl (hw'.trans hw.symm)
  | begins hnew hheld =>
    have hpos := size_pos w
    refine h.stays hw hw' rfl rfl (fun rounds sent hsent => ?_)
      fun q hq => h.underway q (List.mem_cons_of_mem _ hq)
    obtain ⟨rfl, rfl⟩ := Prod.mk.inj (Option.some.inj hsent)
    refine ⟨(Lock.isHeldBy_iff _ _).mp hheld, hpos, ?_, f.frames, (List.append_nil _).symm⟩
    change w.size ≤ _
    omega
  | @grows rounds sent count isWritable isDue hsent hdue hcount hmore =>
    obtain ⟨hholder, hless, hrounds, F, hF⟩ := hunderway _ sent hsent
    refine h.stays hw hw' rfl rfl (fun rounds' sent' hsent' => ?_)
      fun q hq v hv => isUnderway_new (h.alone hw hholder hq hv)
    obtain ⟨rfl, rfl⟩ := Prod.mk.inj (Option.some.inj hsent')
    have hpos := (hcount hless).1
    refine ⟨hholder, hmore, ?_, F, ?_⟩
    · change w.size ≤ _
      omega
    · dsimp only
      rw [hF, extend_begun _ _ _ _ _ hpos]
      rfl

/-- A writer that is done held the stream and gives it to the next one. -/
theorem leaves (h : Stream f (p :: rest)) (hw : p.standing.writing? = some w)
    {r : Except HubError Unit} (hwrites : Writes w f f' (.inr r)) :
    f.lock.holder = some w.ticket ∧ f'.lock = f.lock.leave w.ticket := by
  have hunderway := h.underway p List.mem_cons_self w hw
  cases hwrites with
  | fails hsent hdue => exact ⟨(hunderway _ _ hsent).1, rfl⟩
  | ends hsent hdue hcount hlast => exact ⟨(hunderway _ _ hsent).1, rfl⟩

theorem written (h : Stream f (p :: rest)) (hw : p.standing.writing? = some w)
    {r : Except HubError Unit} (hwrites : Writes w f f' (.inr r)) (hidle : st'.writing? = none) :
    Stream f' ({ p with standing := st' } :: rest) := by
  obtain ⟨hholder, hlock⟩ := h.leaves hw hwrites
  refine ⟨?_, ?_, fun q hq v hv => ?_⟩
  · rw [hlock]
    exact h.valid.leave _
  · have hnew : Place.ticket? { p with standing := st' } = none := ticket?_of_idle hidle
    have htickets := h.tickets
    rw [List.filterMap_cons_some (ticket?_of_writing? hw)] at htickets
    have hnodup := List.nodup_cons.mp (htickets.nodup_iff.mpr h.valid.nodup)
    have hrest := htickets.filter (· != w.ticket)
    rw [List.filter_cons_of_neg (by simp), List.filter_eq_self.mpr] at hrest
    · rw [List.filterMap_cons_none hnew, hlock, h.valid.tickets_leave]
      exact hrest
    · intro t ht
      simpa using fun heq : t = w.ticket => hnodup.1 (heq ▸ ht)
  · rcases List.mem_cons.mp hq with rfl | hq
    · cases hidle.symm.trans hv
    · exact isUnderway_new (h.alone hw hholder hq hv)

theorem hears (h : Stream f (p :: rest)) (hidle : p.standing.writing? = none)
    (hnext : Hears f f' st') : Stream f' ({ p with standing := st' } :: rest) := by
  cases hnext with
  | ends goesOn => exact h.same rfl rfl hidle.symm
  | hands id r bodies stop => exact h.same rfl rfl hidle.symm
  | answers r bodies stop => exact h.queue rfl rfl hidle rfl

theorem go (h : Stream f (p :: rest)) (hgo : Progress f p.standing f' st') :
    Stream f' ({ p with standing := st' } :: rest) := by
  obtain ⟨errand, id?, st⟩ := p
  have hunmark : ∀ mark g, (Front.unmark mark g).frames = g.frames ∧
      (Front.unmark mark g).lock = g.lock :=
    fun mark g => ⟨g.unmark_frames mark, g.unmark_lock mark⟩
  cases hgo with
  | refused serverId q id hclosed => exact h.same rfl rfl rfl
  | enrols hopen hmark => exact h.queue rfl rfl rfl rfl
  | writes hwrites => exact h.writes rfl hwrites rfl
  | @written purpose w f₁ f' r st hwrites hnext =>
    -- Between the message and what follows it the task has no ticket, wherever it stands.
    have hleft : Stream f₁ (⟨errand, id?, .closing⟩ :: rest) := h.written rfl hwrites rfl
    cases hnext with
    | asked q id mark deadline => exact hleft.same rfl rfl rfl
    | failed q id mark e => exact hleft.same (hunmark _ _).1 (hunmark _ _).2 rfl
    | recalled id mark written => exact hleft.same (hunmark _ _).1 (hunmark _ _).2 rfl
    | told written => exact hleft.same rfl rfl rfl
    | answered bodies stop written hnext => exact hleft.hears rfl hnext
  | waits hpending hgoes => exact h.same rfl rfl rfl
  | recalls hwithdrawn hopen => exact h.queue rfl rfl rfl rfl
  | withdraws hwithdrawn hclosed => exact h.same (hunmark _ _).1 (hunmark _ _).2 rfl
  | collects hsettled => exact h.same (hunmark _ _).1 (hunmark _ _).2 rfl
  | expires hpending => exact h.same (hunmark _ _).1 (hunmark _ _).2 rfl
  | idles => exact h.same rfl rfl rfl
  | reads hnext => exact h.hears rfl hnext
  | closes => exact h.same rfl rfl rfl
  | @hands id r bodies stop f' st' hnext =>
    have hdelivered : Stream { f with ledger := f.ledger.deliver id r }
        (⟨errand, id?, .closing⟩ :: rest) := h.same rfl rfl rfl
    exact hdelivered.hears rfl hnext
  | clears => exact h.same rfl rfl rfl
  | rests e => exact h.same rfl rfl rfl

theorem join (h : Stream f ps) (hframes : f'.frames = f.frames) (hlock : f'.lock = f.lock)
    (hidle : p.standing.writing? = none) : Stream f' (p :: ps) where
  valid := by
    rw [hlock]
    exact h.valid
  tickets := by
    rw [List.filterMap_cons_none (ticket?_of_idle hidle), hlock]
    exact h.tickets
  underway q hq w hw := by
    rcases List.mem_cons.mp hq with rfl | hq
    · cases hidle.symm.trans hw
    · intro rounds sent hsent
      rw [hframes, hlock]
      exact h.underway q hq w hw rounds sent hsent

theorem begin {e : Errand} (h : Stream f ps) (hbegins : Begins f e f' st') :
    Stream f' (⟨e, st'.id?, st'⟩ :: ps) := by
  cases hbegins with
  | tells method params hopen =>
    -- A notice comes for the stream in the turn in which it begins.
    have hjoined : Stream f (⟨.tell method params, none, .closing⟩ :: ps) := h.join rfl rfl rfl
    exact hjoined.queue rfl rfl rfl rfl
  | _ => exact h.join rfl rfl rfl

theorem elsewhere (h : Stream f ps) (helse : Elsewhere f f') : Stream f' ps where
  valid := by
    rw [helse.lock]
    exact h.valid
  tickets := by
    rw [helse.lock]
    exact h.tickets
  underway p hp w hw rounds sent hsent := by
    rw [helse.lock, helse.frames]
    exact h.underway p hp w hw rounds sent hsent

/-- As long as somebody writes, the stream is one writer's. -/
theorem exists_holder (h : Stream f ps) (hp : p ∈ ps) (hw : p.standing.writing? = some w) :
    ∃ q ∈ ps, ∃ v, q.standing.writing? = some v ∧ f.lock.holder = some v.ticket := by
  have hmem : w.ticket ∈ f.lock.tickets :=
    h.tickets.mem_iff.mp (List.mem_filterMap.mpr ⟨p, hp, ticket?_of_writing? hw⟩)
  obtain ⟨ticket, hholder⟩ : ∃ ticket, f.lock.holder = some ticket := by
    refine Option.ne_none_iff_exists'.mp fun hnone => ?_
    rw [Lock.tickets, hnone, h.valid.waiting hnone] at hmem
    cases hmem
  have hfirst : ticket ∈ f.lock.tickets := by
    rw [Lock.tickets, hholder]
    exact List.mem_cons_self
  obtain ⟨q, hq, hticket⟩ := List.mem_filterMap.mp (h.tickets.mem_iff.mpr hfirst)
  cases hv : q.standing.writing? with
  | none =>
    rw [ticket?_of_idle hv] at hticket
    cases hticket
  | some v =>
    rw [ticket?_of_writing? hv] at hticket
    exact ⟨q, hq, v, hv, hholder.trans hticket.symm⟩

end Stream

theorem stream_new {c : Nat} {h : Hub} (hnew : IsNew c h) : Stream (front c h) [] where
  valid := by
    have hempty := hnew.lock
    rw [Lock.tickets, List.append_eq_nil_iff, Option.toList_eq_nil_iff] at hempty
    refine ⟨fun _ => hempty.2, ?_, ?_⟩
    · rw [hnew.lock]
      exact List.nodup_nil
    · rw [hnew.lock]
      exact fun t ht => absurd ht List.not_mem_nil
  tickets := by rw [hnew.lock, List.filterMap_nil]
  underway p hp := absurd hp List.not_mem_nil

/-! ## Frames -/

section Turns

variable {f f' : Front} {p : Place} {rest : List Place} {st st' : Standing} {w : Writing}
  {next : Writing ⊕ Except HubError Unit}

structure Front.SameLink (f f' : Front) : Prop where
  frames : f'.frames = f.frames
  isOpen : f'.isOpen = f.isOpen
  isDue : f'.isDue = f.isDue

theorem Hears.sameLink (h : Hears f f' st') : f.SameLink f' := by
  cases h <;> exact ⟨rfl, rfl, rfl⟩

theorem Follows.sameLink {purpose : Purpose} {r : Except HubError Unit}
    (h : Follows f purpose r f' st') : f.SameLink f' := by
  cases h with
  | answered bodies stop written hnext => exact hnext.sameLink
  | failed q id mark e =>
    exact ⟨Front.unmark_frames .., Front.unmark_isOpen .., Front.unmark_isDue ..⟩
  | recalled id mark written =>
    exact ⟨Front.unmark_frames .., Front.unmark_isOpen .., Front.unmark_isDue ..⟩
  | _ => exact ⟨rfl, rfl, rfl⟩

/-- Only writers change the link, and only the reader closes the client. -/
theorem Progress.link_same (h : Progress f st f' st') (hst : st.writing? = none) :
    f'.frames = f.frames ∧ (f.isOpen = false → f'.isOpen = false) ∧ f'.isDue = f.isDue := by
  have hunmark : ∀ mark g, (Front.unmark mark g).frames = g.frames ∧
      (g.isOpen = false → (Front.unmark mark g).isOpen = false) ∧
        (Front.unmark mark g).isDue = g.isDue :=
    fun mark g => ⟨g.unmark_frames mark, (g.unmark_isOpen mark).trans, g.unmark_isDue mark⟩
  cases h with
  | writes hwrites => cases hst
  | written hwrites hnext => cases hst
  | withdraws hwithdrawn hclosed => exact hunmark _ _
  | collects hsettled => exact hunmark _ _
  | expires hpending => exact hunmark _ _
  | reads hnext =>
    obtain ⟨hframes, hopen, hdue⟩ := hnext.sameLink
    exact ⟨hframes, hopen.trans, hdue⟩
  | hands hnext =>
    obtain ⟨hframes, hopen, hdue⟩ := hnext.sameLink
    exact ⟨hframes, hopen.trans, hdue⟩
  | closes => exact ⟨rfl, fun _ => rfl, rfl⟩
  | _ => exact ⟨rfl, fun h => h, rfl⟩

theorem Writes.isDue_of_isDue (h : Writes w f f' next) (hdue : f.isDue = true) :
    f'.isDue = true := by
  cases h with
  | grows hsent hworks => simp [hworks] at hdue
  | ends hsent hworks => simp [hworks] at hdue
  | _ => exact hdue

/-- What cannot be written any more never can again. -/
theorem lasting_of_progress (h : Progress f st f' st') :
    (f.isOpen = false → f'.isOpen = false) ∧ (f.isDue = true → f'.isDue = true) := by
  cases hst : st.writing? with
  | none =>
    obtain ⟨-, hopen, hdue⟩ := h.link_same hst
    exact ⟨hopen, hdue.trans⟩
  | some w =>
    cases h with
    | writes hwrites =>
      exact ⟨hwrites.same.isOpen.trans, hwrites.isDue_of_isDue⟩
    | written hwrites hnext =>
      obtain ⟨-, hopen, hdue⟩ := hnext.sameLink
      rw [hopen, hdue]
      exact ⟨hwrites.same.isOpen.trans, hwrites.isDue_of_isDue⟩
    | _ => cases hst

/-- A writing fails only because nothing can be written any more. -/
theorem error_of_writes {e : HubError} (h : Writes w f f' (.inr (.error e))) :
    f'.isDue = true ∧ ∃ reason, e = .transport reason := by
  cases h with
  | fails hsent hdue => exact ⟨hdue, _, rfl⟩

theorem outcome_ne_cancelled (f : Front) (id : RequestId) : f.outcome id ≠ .error .cancelled := by
  unfold Front.outcome resultOf
  split
  · split <;> simp
  · simp

theorem Stream.frames_of_progress (h : Stream f (p :: rest)) (hgo : Progress f p.standing f' st') :
    f'.frames = f.frames ∨ ∃ w F sent, p.standing.writing? = some w ∧
      f.frames = F ++ begun w.message w.size w.sent ∧
      f'.frames = F ++ begun w.message w.size sent := by
  have hunderway := h.underway p List.mem_cons_self
  obtain ⟨errand, id?, st⟩ := p
  cases hst : st.writing? with
  | none => exact .inl (hgo.link_same hst).1
  | some w =>
    refine .inr ?_
    cases hgo with
    | writes hwrites =>
      obtain rfl := Option.some.inj hst
      obtain ⟨F, hbefore, hafter⟩ := hwrites.frames (hunderway _ rfl)
      exact ⟨_, F, _, rfl, hbefore, hafter⟩
    | written hwrites hnext =>
      obtain rfl := Option.some.inj hst
      obtain ⟨F, hbefore, hafter⟩ := hwrites.frames (hunderway _ rfl)
      exact ⟨_, F, _, rfl, hbefore, hnext.sameLink.frames.trans hafter⟩
    | _ => cases hst

end Turns

end Switchboard

end LanguageHub
