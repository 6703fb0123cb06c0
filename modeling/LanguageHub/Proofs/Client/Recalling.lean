import LanguageHub.Proofs.Client.Errands
import LanguageHub.Proofs.Client.Letters

/-!
# What stands there of a call

Of every call there stand on the link its request and, once the call was cancelled, one notice of
that, as far as the call is. Nobody else writes them.

Laws: in every run each call that is over has left both tables, and its frames are accounted for.
-/

namespace LanguageHub

open Routine Client

namespace Switchboard

open Link (begun)

/-! ## The letters of all calls -/

/-- Every call is told of as far as it is, and everything that was written belongs to a task. -/
structure Mail (f : Front) (ps : List Place) : Prop where
  owned : Owned f ps
  told : ∀ p ∈ ps, ∀ id, p.id? = some id →
    ∃ q, p.errand = .ask q ∧ Told f q id (letters id f.frames) p.standing

namespace Mail

variable {f f' : Front} {ps ps' rest : List Place} {p : Place} {st' : Standing}

theorem perm (hperm : ps.Perm ps') (h : Mail f ps) : Mail f ps' where
  owned := h.owned.perm hperm
  told p hp := h.told p (hperm.mem_iff.mpr hp)

theorem go (h : Mail f (p :: rest)) (horderly : Orderly f (p :: rest))
    (hroom : f.ledger.next ≤ 2 ^ 31) (hgo : Progress f p.standing f' st') :
    Mail f' ({ p with standing := st' } :: rest) where
  owned := by
    refine h.owned.go horderly.stream (fun id hid => ?_) hgo
    have hown := horderly.tables.owns p List.mem_cons_self id hid
    obtain ⟨n, hn, hnumber⟩ :=
      horderly.tables.taken id (List.mem_filterMap.mpr ⟨p, List.mem_cons_self, hown⟩)
    exact ⟨hown, n, by omega, hnumber⟩
  told other hother id hid := by
    rcases List.mem_cons.mp hother with rfl | hother
    · obtain ⟨q, hq, htold⟩ := h.told p List.mem_cons_self id hid
      obtain ⟨n, hn, rfl⟩ :=
        horderly.tables.taken id (List.mem_filterMap.mpr ⟨p, List.mem_cons_self, hid⟩)
      have hunderway := horderly.stream.underway p List.mem_cons_self
      exact ⟨q, hq, told_of_progress (by omega) hunderway htold hgo⟩
    · obtain ⟨q, hq, htold⟩ := h.told other (List.mem_cons_of_mem _ hother) id hid
      have hdistinct : p.id? ≠ some id := fun hsame => horderly.tables.ne_id? hsame hother hid
      obtain ⟨hopen, hdue⟩ := lasting_of_progress hgo
      rw [h.owned.letters_of_other horderly.stream hgo hdistinct]
      exact ⟨q, hq, htold.of_same hopen hdue⟩

theorem join {e : Errand} (h : Mail f ps) (hproper : e.IsProper) (hbegins : Begins f e f' st')
    (hid : st'.id? = none) : Mail f' (⟨e, st'.id?, st'⟩ :: ps) where
  owned := h.owned.begin hproper hbegins
  told p hp id hown := by
    rcases List.mem_cons.mp hp with rfl | hp
    · rw [hid] at hown
      cases hown
    · obtain ⟨q, hq, htold⟩ := h.told p hp id hown
      have hsame : f'.frames = f.frames ∧ f'.isOpen = f.isOpen ∧ f'.isDue = f.isDue := by
        cases hbegins <;> exact ⟨rfl, rfl, rfl⟩
      rw [hsame.1]
      exact ⟨q, hq, htold.of_same (by rw [hsame.2.1]; exact fun h => h)
        (by rw [hsame.2.2]; exact fun h => h)⟩

theorem take (h : Mail f ps) (htables : Tables f ps) (serverId : String) (q : Question)
    (hopen : f.isOpen = true) :
    Mail { f with ledger := f.ledger.take } (⟨.ask q, some (.number f.ledger.next),
      .fresh serverId q (.number f.ledger.next)⟩ :: ps) where
  owned := h.owned.begin (e := .ask q) trivial (.takes q serverId hopen)
  told p hp id hown := by
    rcases List.mem_cons.mp hp with rfl | hp
    · obtain rfl := Option.some.inj hown
      refine ⟨q, rfl, .fresh serverId ?_⟩
      -- What stands there is about earlier calls, whose ids are smaller.
      refine List.filter_eq_nil_iff.mpr fun o ho hconcerns => ?_
      obtain ⟨id?, hbelongs, howned⟩ := h.owned.frames o ho
      obtain ⟨other, hother, hid⟩ := howned _ (hbelongs.concerns _ hconcerns)
      obtain ⟨n, hn, heq⟩ := htables.taken _ (List.mem_filterMap.mpr ⟨other, hother, hid⟩)
      have hsame : (f.ledger.next : Int) = n := RequestId.number.inj heq
      omega
    · obtain ⟨q, hq, htold⟩ := h.told p hp id hown
      exact ⟨q, hq, htold.of_same (fun h => h) fun h => h⟩

theorem elsewhere (h : Mail f ps) (helse : Elsewhere f f') : Mail f' ps where
  owned := h.owned.elsewhere helse
  told p hp id hid := by
    obtain ⟨q, hq, htold⟩ := h.told p hp id hid
    rw [helse.frames]
    exact ⟨q, hq, htold.of_same (by rw [helse.isOpen]; exact fun h => h) helse.isDue⟩

end Mail

theorem kept_mail : Kept Orderly fun f ps => f.ledger.next ≤ 2 ^ 31 → Mail f ps where
  perm hperm h hroom := (h hroom).perm hperm
  go horderly _ h hgo hroom := by
    rw [(tidies_of_progress hgo).next] at hroom
    exact (h hroom).go horderly hroom hgo
  begin horderly _ h hproper hbegins hroom := by
    cases hbegins with
    | takes q serverId hopen =>
      exact (h (Nat.le_of_succ_le hroom)).take horderly.tables serverId q hopen
    | refused q hclosed => exact (h hroom).join hproper (.refused q hclosed) rfl
    | withdrawn q hopen hwithdrawn =>
      exact (h hroom).join hproper (.withdrawn q hopen hwithdrawn) rfl
    | tells method params hopen => exact (h hroom).join hproper (.tells method params hopen) rfl
    | keepsSilent method params hclosed =>
      exact (h hroom).join hproper (.keepsSilent method params hclosed) rfl
    | listens => exact (h hroom).join hproper .listens rfl
  elsewhere _ h helse hroom := by
    rw [helse.next] at hroom
    exact (h hroom).elsewhere helse

/-- As many ids were taken as there are calls with one. -/
theorem kept_count : Kept (fun _ _ => True) fun f ps => f.ledger.next = 1 + (idsOf ps).length where
  perm hperm h := h.trans (congrArg (1 + ·) (hperm.filterMap _).length_eq)
  go {_ _ _ rest p} _ _ h hgo := by
    rw [(tidies_of_progress hgo).next, h]
    cases hid : p.id? <;> simp [idsOf, hid]
  begin _ _ h _ hbegins := by
    cases hbegins with
    | takes q serverId hopen => exact congrArg Nat.succ h
    | _ => exact h
  elsewhere _ h helse := by rw [helse.next, h]

/-! ## Finished calls -/

/-- Everything that the calls put in or wrote is accounted for. -/
structure Cleared (c : Nat) (d : Switchboard) : Prop where
  /-- A call that is over has left both tables. -/
  left : ∀ task ∈ d.tasks, ∀ id, task.id? = some id → task.rest.result?.isSome →
    id ∉ (d.hub.client c).pending ∧ ∀ i, ∀ r ∈ (d.hub.cancellation i).pending, r.requestId ≠ id
  /-- The tables are empty when all calls are over. -/
  empty : (∀ task ∈ d.tasks, ∀ q, task.errand = .ask q → task.rest.result?.isSome) →
    (d.hub.client c).pending = [] ∧ ∀ i, (d.hub.cancellation i).pending = []
  /-- A call that takes no id is over at once and changes nothing. -/
  refused : (∀ task ∈ d.tasks, ∀ q, task.errand = .ask q → task.id? = none →
      task.rest.result?.isSome) ∧
    ∀ q, (((Errand.ask q).program c).legFrom d.hub []).result?.isSome →
      (((Errand.ask q).program c).legFrom d.hub []).state = d.hub
  /-- A call that was cancelled wrote its request and one notice that names its id, as long as the
  client is open and its link can be written. -/
  withdrawn : ∀ task ∈ d.tasks, ∀ id, task.id? = some id →
    task.rest.result? = some (.asked (.error .cancelled)) →
      ∃ q, task.errand = .ask q ∧
        (letters id (d.hub.linkOf c).outgoing = [whole (requestOf q id), whole (recallOf id)] ∨
          ((d.hub.client c).isOpen = false ∨
            (StreamFault.due? (d.hub.linkOf c).writeFault).isSome = true) ∧
          ∃ sent, letters id (d.hub.linkOf c).outgoing =
            whole (requestOf q id) :: begun (recallOf id) (recallOf id).frame.length sent)
  /-- Every such notice is that of a call that was cancelled, or is about to end so. -/
  recalls : ∀ o ∈ (d.hub.linkOf c).outgoing, o.message.isRecall = true →
    ∃ task ∈ d.tasks, ∃ q id, task.errand = .ask q ∧ task.id? = some id ∧
      o.message = recallOf id ∧ (recallOf id).recalled? = some id ∧
        (task.rest.result? = none ∨ task.rest.result? = some (.asked (.error .cancelled)))

theorem mail_new {c : Nat} {h : Hub} (hnew : IsNew c h) : Mail (front c h) [] where
  owned := {
    belongs := fun p hp => absurd hp List.not_mem_nil
    frames := by
      rw [hnew.frames]
      exact fun o ho => absurd ho List.not_mem_nil }
  told p hp := absurd hp List.not_mem_nil

theorem awaited?_of_result? {st : Standing} (hover : st.result?.isSome = true) :
    st.awaited? = none ∧ st.mark? = none ∧ st.id? = none := by
  cases st with
  | ended e => exact ⟨rfl, rfl, rfl⟩
  | _ => cases hover

section Lineups

variable {c : Nat} {l : Lineup}

theorem exists_place {task : Task} (htask : task ∈ (l.board c).tasks) :
    ∃ p ∈ l.places, task.errand = p.errand ∧ task.id? = p.id? ∧
      task.rest.result? = p.standing.result? := by
  obtain ⟨p, hp, rfl⟩ := List.mem_map.mp htask
  exact ⟨p, hp, rfl, rfl, result?_standing p.standing⟩

theorem exists_task {p : Place} (hp : p ∈ l.places) :
    ∃ task ∈ (l.board c).tasks, task.errand = p.errand ∧ task.id? = p.id? ∧
      task.rest.result? = p.standing.result? :=
  ⟨p.task c, List.mem_map_of_mem hp, rfl, rfl, result?_standing p.standing⟩

theorem mem_pending {i : Nat} {r : PendingRequest} (hr : r ∈ (l.hub.cancellation i).pending) :
    ∃ entry ∈ (front c l.hub).tracked i, entry.2 = r := List.mem_map.mp hr

theorem left_of_tables (htables : Tables (front c l.hub) l.places) {p : Place} (hp : p ∈ l.places)
    {id : RequestId} (hid : p.id? = some id) (hover : p.standing.result?.isSome = true) :
    id ∉ (l.hub.client c).pending ∧
      ∀ i, ∀ r ∈ (l.hub.cancellation i).pending, r.requestId ≠ id := by
  have hgone : p.standing.id? = none := (awaited?_of_result? hover).2.2
  have hother : ∀ q ∈ l.places, q.standing.id? ≠ some id := by
    intro q hq hown
    rw [htables.eq_of_id? hp hid hq (htables.owns q hq id hown), hgone] at hown
    cases hown
  refine ⟨fun hmem => ?_, fun i r hr heq => ?_⟩
  · obtain ⟨q, hq, hawaited⟩ := htables.pending id hmem
    exact hother q hq (id?_of_awaited? hawaited)
  · obtain ⟨entry, hentry, rfl⟩ := mem_pending (c := c) hr
    obtain ⟨q, hq, -, hown⟩ := htables.tracked i entry hentry
    exact hother q hq (heq ▸ hown)

theorem empty_of_tables (htables : Tables (front c l.hub) l.places)
    (hcalls : ∀ p ∈ l.places, ∀ id, p.id? = some id → p.standing.result?.isSome = true) :
    (l.hub.client c).pending = [] ∧ ∀ i, (l.hub.cancellation i).pending = [] := by
  refine ⟨List.eq_nil_iff_forall_not_mem.mpr fun id hmem => ?_, fun i =>
    List.eq_nil_iff_forall_not_mem.mpr fun r hr => ?_⟩
  · obtain ⟨p, hp, hawaited⟩ := htables.pending id hmem
    have hover := hcalls p hp id (htables.owns p hp id (id?_of_awaited? hawaited))
    rw [(awaited?_of_result? hover).1] at hawaited
    cases hawaited
  · obtain ⟨entry, hentry, rfl⟩ := mem_pending (c := c) hr
    obtain ⟨p, hp, -, hown⟩ := htables.tracked i entry hentry
    have hover := hcalls p hp _ (htables.owns p hp _ hown)
    rw [(awaited?_of_result? hover).2.2] at hown
    cases hown

theorem withdrawn_of_mail (hmail : Mail (front c l.hub) l.places) {p : Place} (hp : p ∈ l.places)
    {id : RequestId} (hid : p.id? = some id)
    (hover : p.standing.result? = some (.asked (.error .cancelled))) :
    ∃ q, p.errand = .ask q ∧
      Withdrawn (front c l.hub) q id (letters id (l.hub.linkOf c).outgoing) := by
  obtain ⟨q, hq, htold⟩ := hmail.told p hp id hid
  refine ⟨q, hq, ?_⟩
  generalize p.standing = st at hover htold
  cases htold with
  | withdrawn hsaid => exact hsaid
  | ended r hr hsaid =>
    cases hover
    exact absurd rfl hr
  | _ => cases hover

/-- A notice that a call was cancelled is in the letters of one that was. -/
theorem recalls_of_mail (htables : Tables (front c l.hub) l.places)
    (hroom : (front c l.hub).ledger.next ≤ 2 ^ 31) (hmail : Mail (front c l.hub) l.places)
    {o : Outgoing} (ho : o ∈ (l.hub.linkOf c).outgoing) (hrecall : o.message.isRecall = true) :
    ∃ p ∈ l.places, ∃ q id, p.errand = .ask q ∧ p.id? = some id ∧ o.message = recallOf id ∧
      (recallOf id).recalled? = some id ∧ (p.standing.result? = none ∨
        p.standing.result? = some (.asked (.error .cancelled))) := by
  obtain ⟨id?, hbelongs, howned⟩ := hmail.owned.frames o ho
  obtain ⟨id, hid, hrecalled⟩ := hbelongs.recalling hrecall
  obtain ⟨p, hp, hown⟩ := howned id hid
  obtain ⟨q, hq, htold⟩ := hmail.told p hp id hown
  obtain ⟨n, hn, rfl⟩ := htables.taken id (List.mem_filterMap.mpr ⟨p, hp, hown⟩)
  have hletter : o ∈ letters (.number n) (front c l.hub).frames :=
    List.mem_filter.mpr ⟨ho, by simp [Message.concerns, hrecalled]⟩
  have hrequest : ∀ sent, o ∉ begun (requestOf q (.number n))
      (requestOf q (.number n)).frame.length sent := by
    intro sent hsent
    rw [message_of_begun hsent] at hrecall
    simp [requestOf, Message.isRecall] at hrecall
  have hwhole : o ≠ whole (requestOf q (.number n)) := by
    intro hsame
    exact hrequest _ ((begun_whole _).symm ▸ List.mem_singleton.mpr hsame)
  refine ⟨p, hp, q, .number n, hq, hown, ?_⟩
  have hreads := recalled?_recallOf (n := n) (by omega)
  -- Only a call that was cancelled has a letter that is not its request.
  generalize p.standing = st at htold
  cases htold with
  | fresh serverId hsaid =>
    rw [hsaid] at hletter
    cases hletter
  | asking mark w hmessage hsaid =>
    rw [hsaid, Writing.size, hmessage] at hletter
    exact absurd hletter (hrequest _)
  | listening mark deadline hsaid =>
    rw [hsaid] at hletter
    exact absurd (List.mem_singleton.mp hletter) hwhole
  | recalling mark w hmessage hsaid =>
    rw [hsaid] at hletter
    have hmine := (List.mem_cons.mp hletter).resolve_left hwhole
    exact ⟨(message_of_begun hmine).trans hmessage, hreads, .inl rfl⟩
  | withdrawn hsaid =>
    have hmine : o.message = recallOf (.number n) := by
      rcases hsaid with hsaid | ⟨-, sent, hsaid⟩
      · rw [hsaid] at hletter
        have hmine := (List.mem_cons.mp hletter).resolve_left hwhole
        rw [List.mem_singleton.mp hmine]
        rfl
      · rw [hsaid] at hletter
        exact message_of_begun ((List.mem_cons.mp hletter).resolve_left hwhole)
    exact ⟨hmine, hreads, .inr rfl⟩
  | ended r hr hsaid =>
    obtain ⟨sent, hsaid⟩ := hsaid
    rw [hsaid] at hletter
    exact absurd hletter (hrequest sent)

theorem refused_of_begin (hkept : (l.hub.client c).isDropped = false) (q : Question)
    (hover : (((Errand.ask q).program c).legFrom l.hub []).result?.isSome = true) :
    (((Errand.ask q).program c).legFrom l.hub []).state = l.hub := by
  rw [legFrom_errand _ hkept, Stage.result?, result?_standing] at hover
  rw [legFrom_errand _ hkept]
  revert hover
  simp only [Errand.begin]
  split
  · exact fun _ => rfl
  · split
    · exact fun _ => rfl
    · intro hover
      cases hover

end Lineups

variable {c : Nat} {h : Hub}

/-- However the calls of a client, what it reads and everything else take turns, the calls that are
over are cleaned up, and of a call that was cancelled the server is told once. -/
theorem cleared_of_run (hnew : IsNew c h) {turns : List Turn}
    (hturns : ∀ turn ∈ turns, turn.IsProper c)
    (hfew : (((ofHub h).run c turns).tasks.filterMap (·.id?)).length < 2 ^ 31) :
    Cleared c ((ofHub h).run c turns) := by
  have hstands := stands_lineupOf (kept_orderly.and kept_mail) hnew
    ⟨orderly_new hnew, fun _ => mail_new hnew⟩ hturns
  have hcount := (stands_lineupOf kept_count hnew (by rw [hnew.ledger]; rfl) hturns).holds
  rw [run_eq_board hnew hturns] at hfew ⊢
  generalize lineupOf c h turns = l at hstands hcount hfew
  obtain ⟨hserved, horderly, hmail⟩ := hstands
  have htables := horderly.tables
  have hids : (l.board c).tasks.filterMap (·.id?) = idsOf l.places := by
    simp only [Lineup.board, List.filterMap_map]
    rfl
  rw [hids] at hfew
  have hroom : (front c l.hub).ledger.next ≤ 2 ^ 31 := by omega
  have hmail := hmail hroom
  refine ⟨?_, fun hcalls => ?_, ⟨?_, refused_of_begin hserved.kept⟩, ?_, fun o ho hrecall => ?_⟩
  · intro task htask id hid hover
    obtain ⟨p, hp, -, hid', hresult⟩ := exists_place htask
    exact left_of_tables htables hp (hid'.symm.trans hid) (hresult ▸ hover)
  · refine empty_of_tables htables fun p hp id hid => ?_
    obtain ⟨q, hq, -⟩ := hmail.told p hp id hid
    obtain ⟨task, htask, herrand, -, hresult⟩ := exists_task (c := c) hp
    exact hresult ▸ hcalls task htask q (herrand.trans hq)
  · intro task htask q hq hid
    obtain ⟨p, hp, herrand, hid', hresult⟩ := exists_place htask
    rw [hresult]
    exact horderly.isOver hp (herrand.symm.trans hq) (hid'.symm.trans hid)
  · intro task htask id hid hover
    obtain ⟨p, hp, herrand, hid', hresult⟩ := exists_place htask
    obtain ⟨q, hq, htold⟩ :=
      withdrawn_of_mail hmail hp (hid'.symm.trans hid) (hresult.symm.trans hover)
    exact ⟨q, herrand.trans hq, htold⟩
  · obtain ⟨p, hp, q, id, hq, hid, hmessage, hreads, hresult⟩ :=
      recalls_of_mail htables hroom hmail ho hrecall
    obtain ⟨task, htask, herrand, hid', hresult'⟩ := exists_task (c := c) hp
    exact ⟨task, htask, q, id, herrand.trans hq, hid'.trans hid, hmessage, hreads,
      hresult' ▸ hresult⟩

theorem isElsewhere_cancel (c i : Nat) :
    IsElsewhere c (Hub.onCancellation i Cancellation.cancel) := by
  intro h hserved
  have hsame : ∀ k, ((h.onCancellation i Cancellation.cancel).cancellation k).tracked =
      (h.cancellation k).tracked ∧ (h.isCancelled k = true →
        (h.onCancellation i Cancellation.cancel).isCancelled k = true) := by
    intro k
    unfold Hub.isCancelled Hub.onCancellation Hub.cancellation
    rw [Hub.getD_modify]
    split
    · exact ⟨rfl, fun _ => rfl⟩
    · exact ⟨rfl, fun h => h⟩
  refine ⟨⟨hserved.client, hserved.link, hserved.kept⟩, ?_⟩
  exact { Elsewhere.refl (front c h) with
    tracked := fun k entry hentry => ((hsame k).1 ▸ hentry : entry ∈ (h.cancellation k).tracked)
    isCancelled := fun k => (hsame k).2 }

def Ending.isCancelled : Ending → Bool
  | .asked (.error .cancelled) => true
  | _ => false

theorem Ending.eq_of_isCancelled {e : Ending} (he : e.isCancelled = true) :
    e = .asked (.error .cancelled) := by
  unfold isCancelled at he
  split at he
  · rfl
  · cases he

/-- A call is cancelled while it waits for its answer. -/
theorem cleared_of_run_cancelled :
    let h := { Hub.new .empty [] default with
      clients := [Client.new "a" 0 [] ⟨1⟩ 0], links := [⟨"a", "", .fresh⟩]
      cancellations := [.new] }
    let turns := [.begin (.ask ⟨"m", .null, some 0, ⟨1000⟩⟩), .goOn 0, .goOn 0, .goOn 0,
      .others (Hub.onCancellation 0 Cancellation.cancel), .goOn 0, .goOn 0, .goOn 0]
    let d := (ofHub h).run 0 turns
    IsNew 0 h ∧ (∀ turn ∈ turns, turn.IsProper 0) ∧
      (d.tasks.filterMap (·.id?)).length < 2 ^ 31 ∧ (d.hub.client 0).pending = [] ∧
      ∃ q, letters (.number 1) (d.hub.linkOf 0).outgoing =
        [whole (requestOf q (.number 1)), whole (recallOf (.number 1))] := by
  intro h turns d
  have hnew : IsNew 0 h :=
    ⟨⟨by decide, by decide, rfl⟩, rfl, rfl, rfl, rfl, fun i => by cases i <;> rfl⟩
  have hturns : ∀ turn ∈ turns, turn.IsProper 0 := by
    simp [turns, Turn.IsProper, Errand.IsProper, isElsewhere_cancel]
  have hfew : (d.tasks.filterMap (·.id?)).length < 2 ^ 31 := by decide +kernel
  have hclear := cleared_of_run hnew hturns hfew
  have hcalls : ∀ task ∈ d.tasks, task.id? = some (.number 1) ∧
      task.rest.result?.any Ending.isCancelled = true := by decide +kernel
  have hcame : ∀ task ∈ d.tasks, task.rest.result? = some (.asked (.error .cancelled)) := by
    intro task htask
    obtain ⟨e, he, hcancelled⟩ := (Option.any_eq_true _ _).mp (hcalls task htask).2
    rw [he, Ending.eq_of_isCancelled hcancelled]
  have hpossible : d.tasks.length = 1 ∧ (d.hub.client 0).isOpen = true ∧
      (StreamFault.due? (d.hub.linkOf 0).writeFault).isSome = false := by decide +kernel
  obtain ⟨hlength, hopen, hdue⟩ := hpossible
  obtain ⟨task, htask⟩ := List.exists_mem_of_length_pos (hlength ▸ Nat.one_pos)
  obtain ⟨q, -, hletters⟩ :=
    hclear.withdrawn task htask _ (hcalls task htask).1 (hcame task htask)
  refine ⟨hnew, hturns, hfew, (hclear.empty fun other hother q _ => ?_).1, q, ?_⟩
  · rw [hcame other hother]
    rfl
  · refine hletters.resolve_right fun ⟨hstuck, _⟩ => ?_
    rcases hstuck with hclosed | hbroken
    · cases hopen.symm.trans hclosed
    · cases hdue.symm.trans hbroken

end Switchboard

end LanguageHub
