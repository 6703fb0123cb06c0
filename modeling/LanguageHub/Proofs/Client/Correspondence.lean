import LanguageHub.Proofs.Client.Answering
import Mathlib.Data.List.Induction

/-!
# Answers reach their own call

Whatever order the calls of a client, its reader and everything else take turns in: no two calls
have the same id, and what the server says reaches the call that asked for it, while it waits,
and no other.
-/

namespace LanguageHub.Client

open Routine Pact

variable {c : Nat} {id : RequestId}

/-! ## One call among the others -/

/-- How a call stands with its id, and what was handed in for it. -/
structure Stands (c : Nat) (id : RequestId) (hub : Hub) (rest : Program (Except HubError Json))
    (heard : List Response) : Prop where
  inv : (answering c id).inv (hub, heard)
  settled : rest.IsSettled
  ended : ∀ result, rest.result? = some result →
    ¬ Awaits c id hub ∧ (IsAnswer result → ∃ r ∈ heard, result = resultOf r)
  waits : rest.result? = none →
    rest.Waits (P := answering c id) (hub, heard) Concludes

/-- Nothing changes for this id, or it waits no more. -/
def Undisturbed (c : Nat) (id : RequestId) (h h' : Hub) : Prop :=
  ∀ l, h.ledger? c = some l → ∃ l', h'.ledger? c = some l' ∧
    (id ∈ l'.pending → id ∈ l.pending) ∧ ∀ r, (id, r) ∈ l'.answers → (id, r) ∈ l.answers

theorem Serves.undisturbed {id' : RequestId} {h h' : Hub} (hserves : Serves c id' h h')
    (hne : id ≠ id') : Undisturbed c id h h' := fun l hl => by
  obtain ⟨l', hl', -, hpending, hanswers⟩ := hserves l hl
  exact ⟨l', hl', fun hmem => hpending id hmem hne, fun r hmem => hanswers hmem⟩

theorem Shrinks.undisturbed {h h' : Hub} (hshrinks : Shrinks c h h') :
    Undisturbed c id h h' := fun l hl => by
  obtain ⟨l', hl', -, hpending, hanswers⟩ := hshrinks l hl
  exact ⟨l', hl', fun hmem => hpending hmem, fun r hmem => hanswers hmem⟩

section Standing

variable {hub hub' : Hub} {rest : Program (Except HubError Json)} {heard heard' : List Response}

/-- What is handed in, and what happens to other ids, leaves a call in good standing. -/
theorem Stands.move (h : Stands c id hub rest heard)
    (hinv : (answering c id).inv (hub', heard')) (hheard : heard ⊆ heard')
    (hawaits : Awaits c id hub' → Awaits c id hub) : Stands c id hub' rest heard' where
  inv := hinv
  settled := h.settled
  ended result hresult := by
    obtain ⟨hidle, hanswer⟩ := h.ended result hresult
    refine ⟨fun hnow => hidle (hawaits hnow), fun his => ?_⟩
    obtain ⟨r, hr, heq⟩ := hanswer his
    exact ⟨r, hheard hr, heq⟩
  waits hnone w hw hrely hready :=
    h.waits hnone w hw ⟨fun r hr => hrely.1 (hheard hr), fun hnow => hawaits (hrely.2 hnow)⟩ hready

theorem Stands.undisturbed (h : Stands c id hub rest heard)
    (hsame : Undisturbed c id hub hub') : Stands c id hub' rest heard := by
  obtain ⟨l, hl, hheard⟩ := h.inv
  obtain ⟨l', hl', hpending, hanswers⟩ := hsame l hl
  refine h.move ⟨l', hl', fun r hr => hheard r (hanswers r hr)⟩ (fun _ hr => hr) ?_
  rintro ⟨l'', hl'', hmem⟩
  obtain rfl := Option.some.inj (hl'.symm.trans hl'')
  exact ⟨l, hl, hpending hmem⟩

/-- A leg that keeps the pact serves the call's own id and leaves it in good standing. -/
theorem stands_legFrom {p : Program (Except HubError Json)} {m : Moment (answering c id)}
    (hp : p.Keeps (fun _ _ => True) m Concludes) :
    Serves c id m.start.1 (p.legFrom m.state m.jobs).state ∧
      Stands c id (p.legFrom m.state m.jobs).state (p.legFrom m.state m.jobs).rest m.start.2 := by
  obtain ⟨m', hstart, hstate, -, hrest⟩ := hp.leg (passes_of_forall (fun _ _ => trivial) _ _)
  have hsettled := isSettled_legFrom p m.state m.jobs
  have hstate' : m'.now.1 = (p.legFrom m.state m.jobs).state := hstate
  have hsound : m'.Sound := by
    split at hrest
    · exact hrest.sound
    · exact hrest.1
  have hheard : m'.now.2 = m.start.2 := by rw [hsound.guarantee.2, hstart]
  have hnow : m'.now = ((p.legFrom m.state m.jobs).state, m.start.2) :=
    Prod.ext hstate' hheard
  refine ⟨by rw [← hstate', ← hstart]; exact hsound.guarantee.1, ?_, hsettled, ?_, ?_⟩
  · rw [← hnow]
    exact hsound.inv
  · intro result hresult
    have hdone : (p.leg m.state m.jobs).2.2 = .done result := Stage.rest_of_result? hresult
    rw [hdone] at hrest
    obtain ⟨-, hidle, hanswer⟩ := hrest
    rw [hheard] at hanswer
    exact ⟨by rw [← hstate']; exact hidle, hanswer⟩
  · intro hnone
    have hwaits : (p.legFrom m.state m.jobs).rest = (p.leg m.state m.jobs).2.2 := rfl
    rw [hwaits] at hnone ⊢
    split at hrest
    · rename_i hdone
      rw [hdone] at hnone
      cases hnone
    · rw [← hnow]
      exact hrest.2

/-- A call in its turn serves its own id and stays in good standing. -/
theorem Stands.advance (h : Stands c id hub rest heard) :
    Serves c id hub (rest.advance hub []).state ∧
      Stands c id (rest.advance hub []).state (rest.advance hub []).rest heard := by
  cases hresult : rest.result? with
  | some result =>
    cases rest with
    | done a => exact ⟨.refl _, h⟩
    | _ => cases hresult
  | none =>
    by_cases hgo : rest.canGo hub = true
    · have hready : rest.isReady hub = true := by
        cases rest with
        | await ready abandon next => exact hgo
        | _ => rfl
      have hkeeps := h.waits hresult (hub, heard) h.inv ⟨fun _ hr => hr, fun hnow => hnow⟩ hready
      rw [Routine.advance, if_pos hgo]
      exact stands_legFrom hkeeps
    · rw [Routine.advance, if_neg hgo]
      exact ⟨.refl _, h⟩

end Standing

/-! ## The reader -/

theorem overlooks_heed (n : Notification) (o : Option Ledger) (h : Hub) (ho : h.ledger? c = o) :
    (h.onClient c (·.heed n)).ledger? c = o := by
  have hheed : ∀ x : Client, (x.heed n).ledger = x.ledger := by
    intro x
    unfold heed
    split
    · split <;> rfl
    · rfl
  rw [Hub.ledger?_onClient (g := fun l => l) hheed, ho, Option.map_id']

/-- Only responses are of concern to calls. -/
theorem overlooks_heedMessage {m : Message} (hm : ∀ r, m ≠ .response r) :
    Overlooks c (heedMessage c m) := fun o => by
  cases m with
  | response r => exact absurd rfl (hm r)
  | request r => exact ⟨fun _ ho => ho, fun _ => (overlooks_write c _ o).bind fun _ => trivial⟩
  | notification n => exact ⟨overlooks_heed n o, fun _ => trivial⟩

/-- How far the reader may be with its message. -/
structure ReaderStands (c : Nat) (message? : Option Message) (reader : Program Unit) : Prop where
  settled : reader.IsSettled
  response : ∀ r, message? = some (.response r) → reader.result? = none →
    (∃ id, r.id = some id) ∧ reader = heedMessage c (.response r)
  other : (∀ r, message? ≠ some (.response r)) → Overlooks c reader

theorem ledger?_legFrom {α : Type} {p : Program α} (hp : Overlooks c p) (h : Hub)
    (jobs : List Job) : (p.legFrom h jobs).state.ledger? c = h.ledger? c :=
  (hp _).kept_legFrom rfl jobs

theorem heedMessage_response {r : Response} (hid : r.id = some id) :
    heedMessage c (.response r) =
      .await (fun _ => true) (fun h => h)
        (Routine.modify (Hub.onClient c (·.deliver id r))) := by
  simp only [heedMessage, hid]
  rfl

theorem heedMessage_nobody {r : Response} (hid : r.id = none) :
    heedMessage c (.response r) = .done () := by
  simp only [heedMessage, hid]
  rfl

/-- A message changes nothing before the reader has given way to the calls. -/
theorem readerStands_hear (m : Message) (h : Hub) :
    ((heedMessage c m).legFrom h []).state.ledger? c = h.ledger? c ∧
      ReaderStands c (some m) ((heedMessage c m).legFrom h []).rest := by
  have hsettled := isSettled_legFrom (heedMessage c m) h []
  by_cases hm : ∀ r, m ≠ .response r
  · have hoverlooks : Overlooks c (heedMessage c m) := overlooks_heedMessage hm
    exact ⟨ledger?_legFrom hoverlooks h [], hsettled,
      fun r heq => absurd (Option.some.inj heq) (hm r), fun _ o => (hoverlooks o).legFrom h []⟩
  · obtain ⟨r, rfl⟩ : ∃ r, m = .response r := by simpa using hm
    cases hid : r.id with
    | none =>
      rw [heedMessage_nobody hid] at hsettled ⊢
      exact ⟨rfl, hsettled, fun _ _ hnone => (nomatch hnone), fun hother => absurd rfl (hother r)⟩
    | some id =>
      rw [heedMessage_response hid] at hsettled ⊢
      refine ⟨rfl, hsettled, fun r' heq _ => ?_, fun hother => absurd rfl (hother r)⟩
      obtain rfl : r = r' := by simpa using heq
      exact ⟨⟨id, hid⟩, (heedMessage_response hid).symm⟩

/-- In its next turn the reader hands a response in. -/
theorem advance_heedMessage {r : Response} (hid : r.id = some id) (h : Hub) :
    (heedMessage c (.response r)).advance h [] = ⟨h.onClient c (·.deliver id r), [], .done ()⟩ := by
  rw [heedMessage_response hid]
  rfl

theorem ledger?_deliver (id : RequestId) (r : Response) (h : Hub) :
    (h.onClient c (·.deliver id r)).ledger? c = (h.ledger? c).map (·.deliver id r) := by
  refine Hub.ledger?_onClient fun x => ?_
  by_cases hmem : x.pending.contains id = true
  · simp only [deliver, Ledger.deliver, ledger, hmem]
    rfl
  · simp only [deliver, Ledger.deliver, ledger, hmem]
    rfl

/-! ## The desk -/

/-- The ids of the calls. -/
def ids (callers : List Caller) : List RequestId := callers.filterMap (·.id?)

theorem getElem?_append_one {α : Type} {xs : List α} {x y : α} {i : Nat}
    (h : (xs ++ [x])[i]? = some y) : xs[i]? = some y ∨ y = x := by
  rcases Nat.lt_or_ge i xs.length with hold | hnew
  · exact .inl (by rwa [List.getElem?_append_left hold] at h)
  · rw [List.getElem?_append_right hnew, List.getElem?_singleton] at h
    split at h
    · exact .inr (Option.some.inj h).symm
    · cases h

theorem ids_append (callers : List Caller) (caller : Caller) :
    ids (callers ++ [caller]) = ids callers ++ caller.id?.toList := by
  simp only [ids, List.filterMap_append]
  cases hid : caller.id? <;> simp [hid]

theorem mem_ids {callers : List Caller} :
    id ∈ ids callers ↔
      ∃ (i : Nat) (caller : Caller), callers[i]? = some caller ∧ caller.id? = some id := by
  rw [ids, List.mem_filterMap]
  constructor
  · rintro ⟨caller, hmem, hid⟩
    obtain ⟨i, hi⟩ := List.mem_iff_getElem?.mp hmem
    exact ⟨i, caller, hi, hid⟩
  · rintro ⟨i, caller, hi, hid⟩
    exact ⟨caller, List.mem_of_getElem? hi, hid⟩

theorem ids_set {callers : List Caller} {i : Nat} {caller : Caller}
    (hi : callers[i]? = some caller) (rest : Program (Except HubError Json)) :
    ids (callers.set i { caller with rest := rest }) = ids callers := by
  induction callers generalizing i with
  | nil => rfl
  | cons first others ih =>
    cases i with
    | zero =>
      obtain rfl : first = caller := by simpa using hi
      simp [ids, List.filterMap_cons]
    | succ i =>
      have hothers := ih (i := i) (by simpa using hi)
      simp only [ids, List.set_cons_succ, List.filterMap_cons] at hothers ⊢
      rw [hothers]

/-- An id belongs to one call. -/
theorem eq_of_id {callers : List Caller} (hdistinct : (ids callers).Nodup) {i j : Nat}
    {caller other : Caller} (hi : callers[i]? = some caller) (hj : callers[j]? = some other)
    (hid : caller.id? = some id) (hid' : other.id? = some id) : i = j := by
  induction callers generalizing i j with
  | nil => simp at hi
  | cons first others ih =>
    have hmem : ∀ {k : Nat} {x : Caller}, others[k]? = some x → x.id? = some id → id ∈ ids others :=
      fun hk hx => mem_ids.mpr ⟨_, _, hk, hx⟩
    have hfirst : first.id? = some id → id ∉ ids others := by
      intro hx
      have hnodup : (id :: ids others).Nodup := by
        simpa [ids, List.filterMap_cons, hx] using hdistinct
      exact (List.nodup_cons.mp hnodup).1
    have hothers : (ids others).Nodup := by
      cases hx : first.id? with
      | none => simpa [ids, List.filterMap_cons, hx] using hdistinct
      | some x =>
        have hnodup : (x :: ids others).Nodup := by
          simpa [ids, List.filterMap_cons, hx] using hdistinct
        exact (List.nodup_cons.mp hnodup).2
    cases i with
    | zero =>
      obtain rfl : first = caller := by simpa using hi
      cases j with
      | zero => rfl
      | succ j => exact absurd (hmem (by simpa using hj) hid') (hfirst hid)
    | succ i =>
      cases j with
      | zero =>
        obtain rfl : first = other := by simpa using hj
        exact absurd (hmem (by simpa using hi) hid) (hfirst hid')
      | succ j =>
        exact congrArg (· + 1) (ih hothers (by simpa using hi) (by simpa using hj))

/-- All that the ledger knows of belongs to calls. -/
structure Accounts (l : Ledger) (callers : List Caller) : Prop where
  pending : l.pending ⊆ ids callers
  answers : ∀ a ∈ l.answers, a.1 ∈ ids callers
  taken : ∀ id ∈ ids callers, ∃ n < l.next, id = .number n

/-- How a call stands when these responses were handed in for it. -/
def CallerStands (c : Nat) (hub : Hub) (recorded : Response → Prop) (caller : Caller) : Prop :=
  match caller.id? with
  | some id => ∃ heard, (∀ r ∈ heard, recorded r) ∧ Stands c id hub caller.rest heard
  | none => ∃ e, caller.rest = .done (.error e) ∧ ¬ IsAnswer (.error e)

/-- How a desk stands when these responses were handed in for the calls. -/
structure DeskStands (c : Nat) (recorded : Nat → Response → Prop) (d : Desk) : Prop where
  ledger : ∃ l, d.hub.ledger? c = some l ∧ Accounts l d.callers
  distinct : (ids d.callers).Nodup
  callers : ∀ i caller, d.callers[i]? = some caller →
    CallerStands c d.hub (recorded i) caller
  reader : ReaderStands c d.message? d.reader

section Steps

variable {d : Desk} {recorded recorded' : Nat → Response → Prop}

theorem CallerStands.mono {hub : Hub} {recorded recorded' : Response → Prop} {caller : Caller}
    (h : CallerStands c hub recorded caller) (hmore : ∀ r, recorded r → recorded' r) :
    CallerStands c hub recorded' caller := by
  unfold CallerStands at h ⊢
  split at h
  · obtain ⟨heard, hheard, hstands⟩ := h
    exact ⟨heard, fun r hr => hmore r (hheard r hr), hstands⟩
  · exact h

/-- What disturbs no id of the calls leaves them in good standing. -/
theorem CallerStands.undisturbed {hub hub' : Hub} {recorded : Response → Prop} {caller : Caller}
    (h : CallerStands c hub recorded caller)
    (hsame : ∀ id, caller.id? = some id → Undisturbed c id hub hub') :
    CallerStands c hub' recorded caller := by
  unfold CallerStands at h ⊢
  split at h
  · rename_i id hid
    obtain ⟨heard, hheard, hstands⟩ := h
    exact ⟨heard, hheard, hstands.undisturbed (hsame id hid)⟩
  · exact h

/-- A desk on which nothing new comes up. -/
theorem DeskStands.shrink (h : DeskStands c recorded d) {hub' : Hub}
    (hshrinks : Shrinks c d.hub hub') {message? : Option Message} {reader : Program Unit}
    (hreader : ReaderStands c message? reader) :
    DeskStands c recorded ⟨hub', d.callers, message?, reader⟩ := by
  obtain ⟨l, hl, hpending, hanswers, htaken⟩ := h.ledger
  obtain ⟨l', hl', hnext, hpending', hanswers'⟩ := hshrinks l hl
  refine ⟨⟨l', hl', fun id hid => hpending (hpending' hid), fun a ha => hanswers a (hanswers' ha),
    fun id hid => ?_⟩, h.distinct, fun i caller hcaller =>
      (h.callers i caller hcaller).undisturbed fun _ _ => hshrinks.undisturbed, hreader⟩
  obtain ⟨n, hn, heq⟩ := htaken id hid
  exact ⟨n, by omega, heq⟩

theorem shrinks_of_eq {h h' : Hub} (hsame : h'.ledger? c = h.ledger? c) : Shrinks c h h' :=
  fun l hl => ⟨l, hsame.trans hl, rfl, fun _ hmem => hmem, fun _ hmem => hmem⟩

/-- A call goes on, or is over already. -/
theorem DeskStands.goOn (h : DeskStands c recorded d) {i : Nat} {caller : Caller}
    (hi : d.callers[i]? = some caller) :
    DeskStands c recorded ⟨(caller.rest.advance d.hub []).state,
      d.callers.set i { caller with rest := (caller.rest.advance d.hub []).rest },
      d.message?, d.reader⟩ := by
  have hbound : i < d.callers.length := (List.getElem?_eq_some_iff.mp hi).1
  have hcaller := h.callers i caller hi
  have hids := ids_set hi (caller.rest.advance d.hub []).rest
  obtain ⟨id?, rest⟩ := caller
  cases id? with
  | none =>
    obtain ⟨e, hover, he⟩ := hcaller
    obtain rfl : rest = .done (.error e) := hover
    have hsame : d.callers.set i ⟨none, .done (.error e)⟩ = d.callers := by
      rw [← (List.getElem?_eq_some_iff.mp hi).2]
      exact List.set_getElem_self hbound
    rw [advance_done, hsame]
    exact h
  | some id =>
    obtain ⟨heard, hheard, hstands⟩ := hcaller
    obtain ⟨hserves, hnext⟩ := hstands.advance
    obtain ⟨l, hl, hpending, hanswers, htaken⟩ := h.ledger
    obtain ⟨l', hl', hsame, hpending', hanswers'⟩ := hserves l hl
    refine ⟨⟨l', hl', ⟨fun id' hmem => ?_, fun a ha => ?_, fun id' hmem => ?_⟩⟩, ?_,
      fun j other hj => ?_, h.reader⟩
    · rw [hids]
      by_cases hown : id' = id
      · rw [hown]
        exact mem_ids.mpr ⟨i, _, hi, rfl⟩
      · exact hpending (hpending' id' hmem hown)
    · rw [hids]
      exact hanswers a (hanswers' ha)
    · rw [hids] at hmem
      rw [hsame]
      exact htaken id' hmem
    · rw [hids]
      exact h.distinct
    · by_cases hij : i = j
      · subst hij
        rw [List.getElem?_set_self hbound] at hj
        obtain rfl := Option.some.inj hj
        exact ⟨heard, hheard, hnext⟩
      · rw [List.getElem?_set_ne hij] at hj
        refine (h.callers j other hj).undisturbed fun id' hid' => hserves.undisturbed ?_
        rintro rfl
        exact hij (eq_of_id h.distinct hi hj rfl hid')

/-- A call that fails at once takes no id. -/
theorem DeskStands.failed (h : DeskStands c recorded d) {e : HubError}
    (he : ¬ IsAnswer (.error e)) : DeskStands c recorded
      { d with callers := d.callers ++ [⟨none, .done (.error e)⟩] } := by
  have hids : ids (d.callers ++ [⟨none, .done (.error e)⟩]) = ids d.callers := by
    rw [ids_append]
    exact List.append_nil _
  obtain ⟨l, hl, hpending, hanswers, htaken⟩ := h.ledger
  refine ⟨⟨l, hl, ?_, ?_, ?_⟩, ?_, fun i caller hi => ?_, h.reader⟩
  · rwa [hids]
  · rwa [hids]
  · rwa [hids]
  · rw [hids]
    exact h.distinct
  · rcases getElem?_append_one hi with hi | rfl
    · exact h.callers i caller hi
    · exact ⟨e, rfl, he⟩

/-- A call takes an id that no other has. -/
theorem DeskStands.began (h : DeskStands c recorded d) {l : Ledger}
    (hl : d.hub.ledger? c = some l) (serverId : String) (q : Question) :
    DeskStands c recorded { d with
      hub := (d.hub.fromClient c takeId).2
      callers :=
        d.callers ++ [⟨some (.number l.next), pursue c serverId q (.number l.next)⟩] } := by
  have hledger : (d.hub.fromClient c takeId).2.ledger? c = some l.take := by
    rw [Hub.ledger?_fromClient hl, ← Hub.ledger_client hl]
    rfl
  obtain ⟨l₀, hl₀, hpending, hanswers, htaken⟩ := h.ledger
  obtain rfl : l = l₀ := Option.some.inj (hl.symm.trans hl₀)
  have hids : ids (d.callers ++ [⟨some (.number l.next), pursue c serverId q (.number l.next)⟩]) =
      ids d.callers ++ [.number l.next] := ids_append _ _
  have hnew : RequestId.number l.next ∉ ids d.callers := by
    intro hmem
    obtain ⟨n, hn, heq⟩ := htaken _ hmem
    have hsame : (l.next : Int) = n := RequestId.number.inj heq
    omega
  have hsame : ∀ id, Undisturbed c id d.hub (d.hub.fromClient c takeId).2 := by
    intro id l' hl'
    obtain rfl := Option.some.inj (hl.symm.trans hl')
    exact ⟨_, hledger, fun hmem => hmem, fun _ hmem => hmem⟩
  refine ⟨⟨l.take, hledger, ?_, ?_, ?_⟩, ?_, fun i caller hi => ?_, h.reader⟩
  · rw [hids]
    exact fun id hid => List.mem_append_left _ (hpending hid)
  · rw [hids]
    exact fun a ha => List.mem_append_left _ (hanswers a ha)
  · rw [hids]
    intro id hid
    rcases List.mem_append.mp hid with hid | hid
    · obtain ⟨n, hn, heq⟩ := htaken id hid
      exact ⟨n, Nat.lt_succ_of_lt hn, heq⟩
    · exact ⟨l.next, Nat.lt_succ_self _, List.mem_singleton.mp hid⟩
  · rw [hids]
    exact List.nodup_append.mpr ⟨h.distinct, by simp, fun a ha b hb => by
      obtain rfl := List.mem_singleton.mp hb
      rintro rfl
      exact hnew ha⟩
  · rcases getElem?_append_one hi with hi | rfl
    · exact (h.callers i caller hi).undisturbed fun id _ => hsame id
    · have hinv : (answering c (.number l.next)).inv ((d.hub.fromClient c takeId).2, []) :=
        ⟨l.take, hledger, fun r hr => absurd (hanswers _ hr) hnew⟩
      have hidle : ¬ Awaits c (.number l.next) (d.hub.fromClient c takeId).2 := by
        rintro ⟨l', hl', hmem⟩
        obtain rfl := Option.some.inj (hledger.symm.trans hl')
        exact hnew (hpending hmem)
      have hkeeps := keeps_pursue (sound_of_inv hinv) hidle serverId q
      exact ⟨[], nofun, hinv, trivial, nofun, fun _ w hw hrely hready =>
        (hkeeps.2 w hw hrely).2 hready⟩

theorem firstLeg_eq (q : Question) (h : Hub) : Desk.firstLeg c q h =
    if (h.client c).isOpen = false then ⟨h, [], .done (.error .connectionClosed)⟩
    else if h.isWithdrawn q.cancellation = true then ⟨h, [], .done (.error .cancelled)⟩
    else ⟨(h.fromClient c takeId).2, [],
      pursue c (h.client c).serverId q (.number (h.client c).nextId)⟩ := by
  have hbegin : Desk.firstLeg c q h = legFrom (if !(h.client c).isOpen then _
    else if h.isWithdrawn q.cancellation then _ else _ : Program _) h [] := rfl
  rw [hbegin]
  by_cases hopen : (h.client c).isOpen = true
  · by_cases hwithdrawn : h.isWithdrawn q.cancellation = true
    · simp [hopen, hwithdrawn]
      rfl
    · simp [hopen, hwithdrawn]
      rfl
  · simp [hopen]
    rfl

theorem DeskStands.ask (h : DeskStands c recorded d) (q : Question) :
    DeskStands c recorded (d.step c (.ask q)) := by
  obtain ⟨l, hl, -⟩ := h.ledger
  have hnext : (d.hub.client c).nextId = l.next := by
    rw [← Hub.ledger_client hl]
    rfl
  simp only [Desk.step, firstLeg_eq, hl, hnext]
  split
  · exact h.failed fun h => h
  · split
    · exact h.failed fun h => h
    · exact h.began hl _ q

theorem DeskStands.mono (h : DeskStands c recorded d)
    (hmore : ∀ i r, recorded i r → recorded' i r) : DeskStands c recorded' d :=
  ⟨h.ledger, h.distinct, fun i caller hi => (h.callers i caller hi).mono (hmore i), h.reader⟩

/-- A response that no call waits for changes nothing. -/
theorem deliver_nobody {l : Ledger} {r : Response} (hid : id ∉ l.pending) : l.deliver id r = l := by
  rw [Ledger.deliver, if_neg (by simpa using hid)]

theorem undisturbed_deliver {id' : RequestId} (hne : id' ≠ id) (r : Response) (h : Hub) :
    Undisturbed c id' h (h.onClient c (·.deliver id r)) := by
  intro l hl
  refine ⟨l.deliver id r, by rw [ledger?_deliver, hl]; rfl, ?_, ?_⟩
  · unfold Ledger.deliver
    split
    · exact fun hmem => (List.mem_filter.mp hmem).1
    · exact fun hmem => hmem
  · intro r' hmem
    unfold Ledger.deliver at hmem
    split at hmem
    · simpa [Ledger.forget, hne] using hmem
    · exact hmem

/-- The call that waits for a response has it now. -/
theorem Stands.deliver {hub : Hub} {rest : Program (Except HubError Json)} {heard : List Response}
    (h : Stands c id hub rest heard) (hawaits : Awaits c id hub) (r : Response) :
    Stands c id (hub.onClient c (·.deliver id r)) rest (r :: heard) := by
  obtain ⟨l, hl, hheard⟩ := h.inv
  refine h.move ⟨l.deliver id r, by rw [ledger?_deliver, hl]; rfl, fun r' hr' => ?_⟩
    (fun _ hr' => List.mem_cons_of_mem _ hr') fun _ => hawaits
  unfold Ledger.deliver at hr'
  split at hr'
  · rcases List.mem_append.mp hr' with hold | hnew
    · exact List.mem_cons_of_mem _ (hheard r' hold)
    · obtain ⟨-, rfl⟩ := Prod.mk.inj (List.mem_singleton.mp hnew)
      exact List.mem_cons_self
  · exact List.mem_cons_of_mem _ (hheard r' hr')

theorem Accounts.deliver {l : Ledger} {callers : List Caller} (h : Accounts l callers)
    (hmem : id ∈ l.pending) (r : Response) : Accounts (l.deliver id r) callers := by
  rw [Ledger.deliver, if_pos (by simpa using hmem)]
  refine ⟨fun id' hid' => h.pending (List.mem_filter.mp hid').1, fun a ha => ?_, h.taken⟩
  rcases List.mem_append.mp ha with hold | hnew
  · exact h.answers a hold
  · obtain rfl := List.mem_singleton.mp hnew
    exact h.pending hmem

/-- A response is handed in. -/
theorem DeskStands.handIn (h : DeskStands c recorded d) {r : Response} (hid : r.id = some id)
    (hmessage : d.message? = some (.response r)) (hreader : d.reader.result? = none) :
    DeskStands c (fun i r => recorded i r ∨ HandsIn c d .read i r)
      { d with hub := d.hub.onClient c (·.deliver id r), reader := .done () } := by
  obtain ⟨l, hl, haccounts⟩ := h.ledger
  have hledger : (d.hub.onClient c (·.deliver id r)).ledger? c = some (l.deliver id r) := by
    rw [ledger?_deliver, hl]
    rfl
  have hdone : ReaderStands c d.message? (.done ()) :=
    ⟨trivial, fun _ _ hnone => (nomatch hnone), fun _ _ => trivial⟩
  by_cases hmem : id ∈ l.pending
  · refine ⟨⟨_, hledger, haccounts.deliver hmem r⟩, h.distinct, fun j other hj => ?_, hdone⟩
    have hother := h.callers j other hj
    by_cases hown : other.id? = some id
    · obtain ⟨id?, rest⟩ := other
      obtain rfl : id? = some id := hown
      obtain ⟨heard, hheard, hstands⟩ := hother
      have hwaits : rest.result? = none := by
        cases hresult : rest.result? with
        | none => rfl
        | some result => exact absurd ⟨l, hl, hmem⟩ (hstands.ended result hresult).1
      have hhands : HandsIn c d .read j r :=
        ⟨rfl, hmessage, hreader, _, id, l, hj, rfl, hwaits, hid, hl, hmem⟩
      refine ⟨r :: heard, fun r' hr' => ?_, hstands.deliver ⟨l, hl, hmem⟩ r⟩
      rcases List.mem_cons.mp hr' with rfl | hr'
      · exact .inr hhands
      · exact .inl (hheard r' hr')
    · refine (hother.undisturbed fun id' hid' => undisturbed_deliver ?_ r _).mono
        fun r hr => .inl hr
      rintro rfl
      exact hown hid'
  · rw [deliver_nobody hmem, ← hl] at hledger
    exact (h.mono fun i r hr => .inl hr).shrink (shrinks_of_eq hledger) hdone

theorem DeskStands.read (h : DeskStands c recorded d) :
    DeskStands c (fun i r => recorded i r ∨ HandsIn c d .read i r) (d.step c .read) := by
  have hmore : DeskStands c (fun i r => recorded i r ∨ HandsIn c d .read i r) d :=
    h.mono fun i r hr => .inl hr
  by_cases hmessage : ∃ r, d.message? = some (.response r)
  · obtain ⟨r, hr⟩ := hmessage
    cases hreader : d.reader.result? with
    | some a =>
      have hdone : d.reader = .done a := by
        cases hrest : d.reader with
        | done b => rfl
        | _ => simp [hrest, Routine.result?] at hreader
      have hsame : d.step c .read = d := by
        obtain ⟨hub, callers, message?, reader⟩ := d
        obtain rfl : reader = .done a := hdone
        rfl
      rwa [hsame]
    | none =>
      obtain ⟨⟨id, hid⟩, hat⟩ := h.reader.response r hr hreader
      simp only [Desk.step, hat, advance_heedMessage hid]
      exact h.handIn hid hr hreader
  · have hother : ∀ r, d.message? ≠ some (.response r) := by simpa using hmessage
    have hoverlooks := h.reader.other hother
    exact hmore.shrink (shrinks_of_eq ((hoverlooks _).kept_advance rfl []))
      ⟨h.reader.settled.advance _ _, fun r hr => absurd hr (hother r),
        fun _ o => (hoverlooks o).advance _ _⟩

/-- Each turn leaves the desk in good standing, with what was handed in in it. -/
theorem DeskStands.step (h : DeskStands c recorded d) {turn : Turn}
    (hothers : ∀ change, turn = .others change → Unconcerned c change) :
    DeskStands c (fun i r => recorded i r ∨ HandsIn c d turn i r) (d.step c turn) := by
  cases turn with
  | ask q => exact (h.ask q).mono fun i r hr => .inl hr
  | goOn i =>
    refine DeskStands.mono ?_ fun i r hr => .inl hr
    simp only [Desk.step]
    split
    · exact h
    · rename_i caller hi
      exact h.goOn hi
  | hear m =>
    refine DeskStands.mono ?_ fun i r hr => .inl hr
    simp only [Desk.step]
    split
    · obtain ⟨hsame, hreader⟩ := readerStands_hear (c := c) m d.hub
      exact h.shrink (shrinks_of_eq hsame) hreader
    · exact h
  | read => exact h.read
  | others change =>
    exact (h.shrink (hothers change rfl d.hub) h.reader).mono fun i r hr => .inl hr

end Steps

/-! ## Runs -/

/-- In turn number `k` the response was handed in for the call. -/
def HandedIn (c : Nat) (h : Hub) (turns : List Turn) (k i : Nat) (r : Response) : Prop :=
  ∃ turn, turns[k]? = some turn ∧ HandsIn c ((Desk.ofHub h).run c (turns.take k)) turn i r

theorem deskStands_ofHub {h : Hub} {n : Nat} (hfresh : h.ledger? c = some ⟨n, [], []⟩) :
    DeskStands c (fun i r => ∃ k, HandedIn c h [] k i r) (Desk.ofHub h) where
  ledger := ⟨_, hfresh, nofun, nofun, nofun⟩
  distinct := List.nodup_nil
  callers := nofun
  reader := ⟨trivial, nofun, fun _ _ => trivial⟩

theorem deskStands_run {h : Hub} {n : Nat} (hfresh : h.ledger? c = some ⟨n, [], []⟩)
    {turns : List Turn} (hothers : ∀ change, .others change ∈ turns → Unconcerned c change) :
    DeskStands c (fun i r => ∃ k, HandedIn c h turns k i r) ((Desk.ofHub h).run c turns) := by
  induction turns using List.reverseRecOn with
  | nil => exact deskStands_ofHub hfresh
  | append_singleton before turn ih =>
    have hbefore := ih fun change hmem => hothers change (List.mem_append_left _ hmem)
    have hturn : ∀ change, turn = .others change → Unconcerned c change := fun change heq =>
      hothers change (List.mem_append_right _ (by simp [heq]))
    have hnext := hbefore.step hturn
    rw [Desk.run_append]
    refine hnext.mono fun i r hr => ?_
    rcases hr with ⟨k, earlier, hk, hhands⟩ | hhands
    · have hbound := (List.getElem?_eq_some_iff.mp hk).1
      refine ⟨k, earlier, by rw [List.getElem?_append_left hbound, hk], ?_⟩
      rwa [List.take_append_of_le_length (Nat.le_of_lt hbound)]
    · refine ⟨before.length, turn, by simp, ?_⟩
      rwa [List.take_left]

theorem onClient_nobody {hub : Hub} (hnobody : ¬ Awaits c id hub) (r : Response) :
    hub.onClient c (·.deliver id r) = hub := by
  have hclients : hub.clients.modify c (·.deliver id r) = hub.clients := by
    refine List.ext_getElem? fun i => ?_
    rw [List.getElem?_modify]
    cases hx : hub.clients[i]? with
    | none => rfl
    | some x =>
      by_cases hown : c = i
      · subst hown
        have hledger : hub.ledger? c = some x.ledger := by simp [Hub.ledger?, hx]
        have hidle : id ∉ x.pending := fun hmem => hnobody ⟨_, hledger, hmem⟩
        simp [deliver, hidle]
      · simp [hown]
  simp only [Hub.onClient, hclients]

/-- A response that no call waits for is dropped. -/
theorem read_nobody {d : Desk} (hreader : ReaderStands c d.message? d.reader) {r : Response}
    (hmessage : d.message? = some (.response r))
    (hnobody : ∀ id, r.id = some id → ¬ Awaits c id d.hub) :
    d.step c .read = { d with reader := .done () } := by
  obtain ⟨hub, callers, message?, reader⟩ := d
  cases hresult : reader.result? with
  | some a =>
    have hdone : reader = .done a := by
      cases reader with
      | done b => rfl
      | _ => cases hresult
    subst hdone
    rfl
  | none =>
    obtain ⟨⟨id, hid⟩, hat⟩ := hreader.response r hmessage hresult
    have hsame : hub.onClient c (·.deliver id r) = hub := onClient_nobody (hnobody id hid) r
    simp only [Desk.step]
    obtain rfl : reader = heedMessage c (.response r) := hat
    rw [advance_heedMessage hid, hsame]

/-- A turn in which a response is handed in serves one call. -/
theorem HandsIn.unique {d : Desk} (hdistinct : (ids d.callers).Nodup) {turn turn' : Turn}
    {i j : Nat} {r r' : Response} (h : HandsIn c d turn i r) (h' : HandsIn c d turn' j r') :
    i = j := by
  obtain ⟨caller, id, -, hi, hcaller, -, hid, -⟩ := h.caller
  obtain ⟨other, id', -, hj, hother, -, hid', -⟩ := h'.caller
  have hsame : r = r' := by
    have heq := h.message.symm.trans h'.message
    simpa using heq
  obtain rfl : id = id' := Option.some.inj (hid.symm.trans (hsame ▸ hid'))
  exact eq_of_id hdistinct hi hj hcaller hother

/-- A reader that is done waits for the next message. -/
theorem reader_run {d : Desk} (hdone : d.reader.result?.isSome = true) {turns : List Turn}
    (hquiet : ∀ m, .hear m ∉ turns) : (d.run c turns).reader.result?.isSome = true := by
  induction turns generalizing d with
  | nil => exact hdone
  | cons turn rest ih =>
    refine ih (d := d.step c turn) ?_ fun m hm => hquiet m (List.mem_cons_of_mem _ hm)
    cases turn with
    | ask q => exact hdone
    | goOn i =>
      simp only [Desk.step]
      split <;> exact hdone
    | hear m => exact absurd List.mem_cons_self (hquiet m)
    | read =>
      obtain ⟨a, ha⟩ := Option.isSome_iff_exists.mp hdone
      cases hrest : d.reader with
      | done b => simp [Desk.step, hrest, Routine.result?]
      | _ => simp [hrest, Routine.result?] at ha
    | others change => exact hdone

/-- Between two responses that are handed in the reader comes to a new message, and each of
them serves one call. -/
theorem HandedIn.eq_of_quiet {h : Hub} {n : Nat} (hfresh : h.ledger? c = some ⟨n, [], []⟩)
    {turns : List Turn} (hothers : ∀ change, .others change ∈ turns → Unconcerned c change)
    {k k' i j : Nat} {r r' : Response} (hr : HandedIn c h turns k i r)
    (hr' : HandedIn c h turns k' j r') (hle : k ≤ k')
    (hquiet : ∀ m, .hear m ∉ (turns.take k').drop k) : k = k' ∧ i = j := by
  obtain ⟨turn, hk, hhands⟩ := hr
  obtain ⟨turn', hk', hhands'⟩ := hr'
  have hearly : DeskStands c (fun i r => ∃ n, HandedIn c h (turns.take k) n i r)
      ((Desk.ofHub h).run c (turns.take k)) :=
    deskStands_run hfresh fun change hmem => hothers change (List.mem_of_mem_take hmem)
  rcases Nat.eq_or_lt_of_le hle with rfl | hlt
  · exact ⟨rfl, hhands.unique hearly.distinct hhands'⟩
  -- The reader was done after the first one, and came to no message since.
  exfalso
  have hbound : k < (turns.take k').length := by
    have hlength := (List.getElem?_eq_some_iff.mp hk').1
    simp only [List.length_take]
    omega
  have hturn : (turns.take k')[k] = turn := by
    rw [List.getElem_take]
    exact (List.getElem?_eq_some_iff.mp hk).2
  have hsplit : turns.take k' = turns.take k ++ turn :: (turns.take k').drop (k + 1) := by
    conv_lhs => rw [← List.take_append_drop k (turns.take k'), List.take_take,
      Nat.min_eq_left hle, List.drop_eq_getElem_cons hbound, hturn]
  have hdone :
      (((Desk.ofHub h).run c (turns.take k)).step c turn).reader.result?.isSome = true := by
    obtain ⟨⟨id, hid⟩, hat⟩ := hearly.reader.response r hhands.message hhands.reader
    simp only [hhands.turn, Desk.step, hat, advance_heedMessage hid]
    rfl
  have hlater : (((Desk.ofHub h).run c (turns.take k')).reader.result?).isSome = true := by
    rw [hsplit, Desk.run_append]
    refine reader_run hdone fun m hm => hquiet m ?_
    rw [List.drop_eq_getElem_cons hbound]
    exact List.mem_cons_of_mem _ hm
  rw [hhands'.reader] at hlater
  cases hlater

/-- Whatever order calls, reader and everything else take turns in, and whatever the server
sends: no two calls have the same id; a call that comes to what the server said does so by a
response with its own id, handed in after it registered that id and before it was over; a
message of the server serves one call at most; and a response that no call waits for changes
nothing. -/
theorem answers_reach_their_call (c : Nat) (h : Hub) (n : Nat)
    (hfresh : h.ledger? c = some ⟨n, [], []⟩) (turns : List Turn)
    (hothers : ∀ change, .others change ∈ turns → Unconcerned c change) :
    let d := (Desk.ofHub h).run c turns
    (ids d.callers).Nodup ∧
    (∀ i caller result, d.callers[i]? = some caller → caller.rest.result? = some result →
      IsAnswer result → ∃ k r, HandedIn c h turns k i r ∧ result = resultOf r) ∧
    (∀ k k' i j r r', HandedIn c h turns k i r → HandedIn c h turns k' j r' → k ≤ k' →
      (∀ m, .hear m ∉ (turns.take k').drop k) → k = k' ∧ i = j) ∧
    (∀ r, d.message? = some (.response r) → (∀ id, r.id = some id → ¬ Awaits c id d.hub) →
      d.step c .read = { d with reader := .done () }) := by
  intro d
  have hstands : DeskStands c (fun i r => ∃ k, HandedIn c h turns k i r) d :=
    deskStands_run hfresh hothers
  refine ⟨hstands.distinct, fun i caller result hi hresult hanswer => ?_,
    fun k k' i j r r' hr hr' hle hquiet => ?_,
    fun r hmessage => read_nobody hstands.reader hmessage⟩
  · have hcaller := hstands.callers i caller hi
    obtain ⟨id?, rest⟩ := caller
    cases id? with
    | none =>
      obtain ⟨e, hover, he⟩ := hcaller
      obtain rfl : rest = .done (.error e) := hover
      obtain rfl : .error e = result := Option.some.inj hresult
      exact absurd hanswer he
    | some id =>
      obtain ⟨heard, hheard, hcall⟩ := hcaller
      obtain ⟨r, hr, heq⟩ := (hcall.ended result hresult).2 hanswer
      obtain ⟨k, hk⟩ := hheard r hr
      exact ⟨k, r, hk, heq⟩
  · exact hr.eq_of_quiet hfresh hothers hr' hle hquiet

/-- The second of two calls is answered first. -/
theorem answers_reach_their_call_second_first :
    let h := { Hub.new .empty [] default with clients := [Client.new "a" 0 [] ⟨1⟩ 0] }
    let question (method : String) : Question := ⟨method, .null, none, ⟨1000⟩⟩
    let turns := [.ask (question "m"), .ask (question "n"), .goOn 1, .goOn 0, .goOn 1, .goOn 0,
      .goOn 1, .goOn 0, .hear (.response ⟨"2.0", some (.number 2), some (.str "b"), none⟩), .read,
      .goOn 0, .goOn 1]
    h.ledger? 0 = some ⟨1, [], []⟩ ∧ (∀ change, .others change ∈ turns → Unconcerned 0 change) ∧
    ∃ caller result, ((Desk.ofHub h).run 0 turns).callers[1]? = some caller ∧
      caller.rest.result? = some result ∧
      ∃ k r, HandedIn 0 h turns k 1 r ∧ result = resultOf r := by
  intro h question turns
  have hothers : ∀ change, .others change ∈ turns → Unconcerned 0 change := by
    simp [turns]
  have hanswered : (((Desk.ofHub h).run 0 turns).callers[1]?.bind (·.rest.result?)).any
      (fun | .ok _ => true | .error _ => false) = true := by
    decide +kernel
  obtain ⟨result, hbind, hok⟩ := (Option.any_eq_true _ _).mp hanswered
  obtain ⟨caller, hcaller, hresult⟩ := Option.bind_eq_some_iff.mp hbind
  have hanswer : IsAnswer result := by
    cases result with
    | ok v => trivial
    | error e => cases hok
  exact ⟨rfl, hothers, caller, result, hcaller, hresult,
    (answers_reach_their_call 0 h 1 rfl turns hothers).2.1 1 caller result hcaller hresult hanswer⟩

end LanguageHub.Client
