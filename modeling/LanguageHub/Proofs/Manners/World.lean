import LanguageHub.Proofs.Hub.Words
import LanguageHub.Proofs.Routine.Company

/-!
# Good manners

A client greets its server before it says anything else: it introduces itself, and once it was
answered it says that the introduction is over. Whoever opened the link does that, and until a
session runs on the client nobody else speaks. Once the session stops, the client says goodbye.
What comes after that was asked while the session was started, or takes such a request back:
whatever was to be told stands in the queue before the goodbye.
-/

namespace LanguageHub

/-- The server has agreed to the introduction, with capabilities that can be read. -/
def Response.Agrees (r : Response) : Prop :=
  ∃ v, Client.resultOf r = .ok v ∧ (ServerCapabilities.ofInitializeResult? v).isSome = true

/-- The client has introduced itself and has an answer that agrees. -/
def Hub.Answers (h : Hub) (c : Nat) (r : Request) : Prop :=
  h.said c = [.request r] ∧ ∃ answer, (r.id, answer) ∈ (h.client c).answers ∧ answer.Agrees

theorem Hub.Answers.known {h : Hub} {c : Nat} {r : Request} (hr : h.Answers c r) :
    c < h.clients.length := by
  obtain ⟨-, answer, hmem, -⟩ := hr
  by_contra hunknown
  rw [Hub.client, List.getElem?_eq_none (Nat.le_of_not_lt hunknown)] at hmem
  cases hmem

theorem Hub.Resembles.answers {h h' : Hub} (hsame : h.Resembles h') (c : Nat) (r : Request) :
    h'.Answers c r ↔ h.Answers c r := by
  rw [Hub.Answers, hsame.said, hsame.client]
  rfl

namespace Manners

/-- What may follow a goodbye, when these ids were given out before. -/
inductive Late (asked : Nat → Prop) : Message → Prop where
  | exit : Late asked (.ofNotification "exit" .null)
  | request (r : Request) (n : Nat) (hid : r.id = .number n) (hn : asked n) :
    Late asked (.request r)
  | withdrawal (n : Nat) (hn : asked n) : Late asked
    (.ofNotification "$/cancelRequest" (.mkObj [("id", (RequestId.number n).toCancelJson)]))
  | farewell (r : Request) (hmethod : r.method = "shutdown") : Late asked (.request r)

theorem Late.mono {asked asked' : Nat → Prop} {m : Message} (hm : Late asked m)
    (h : ∀ n, asked n → asked' n) : Late asked' m := by
  cases hm with
  | exit => exact .exit
  | request r n hid hn => exact .request r n hid (h n hn)
  | withdrawal n hn => exact .withdrawal n (h n hn)
  | farewell r hmethod => exact .farewell r hmethod

/-- The numbers below a bound that were given out while something was so. -/
structure Marks (live : Prop) (bound : Nat) (marked : Nat → Prop) : Prop where
  below : ∀ n, marked n → n < bound
  all : live → ∀ n < bound, marked n
  down : ∀ n k, marked n → k ≤ n → marked k

theorem Marks.none {live : Prop} {bound : Nat} (h : ¬ live) : Marks live bound fun _ => False where
  below _ := False.elim
  all hlive := absurd hlive h
  down _ _ hmarked _ := hmarked

theorem Marks.move {live live' : Prop} {bound bound' : Nat} {marked : Nat → Prop}
    (h : Marks live bound marked) (hbound : bound ≤ bound') :
    Marks live' bound' fun n => marked n ∨ live' ∧ n < bound' where
  below n hn := hn.elim (fun hn => Nat.lt_of_lt_of_le (h.below n hn) hbound) And.right
  all hlive _ hn := .inr ⟨hlive, hn⟩
  down n k hn hk := hn.imp (fun hn => h.down n k hn hk) fun hn =>
    ⟨hn.1, Nat.lt_of_le_of_lt hk hn.2⟩

/-! ## The world -/

/-- The hub with what only proofs remember: for which task a ticket was given out and a link was
opened, on which clients a session has run, which introductions were answered, and which tickets
and ids were given out while a session was started on the client. -/
structure World where
  hub : Hub
  owner : Nat → Nat → Nat
  opener : Nat → Nat
  ran : Nat → Prop
  answered : Nat → Request → Prop
  early : Nat → Nat → Prop
  asked : Nat → Nat → Prop

namespace World

/-- The world once a task has brought the hub to this. -/
def move (me : Nat) (w : World) (h : Hub) : World where
  hub := h
  owner c t := if (w.hub.queue c).next ≤ t ∧ t < (h.queue c).next then me else w.owner c t
  opener l := if w.hub.links.length ≤ l ∧ l < h.links.length then me else w.opener l
  ran c := w.ran c ∨ h.Speaks c
  answered c r := w.answered c r ∨ w.hub.Answers c r ∧ ¬ h.Answers c r
  early c t := w.early c t ∨ h.Live c ∧ t < (h.queue c).next
  asked c n := w.asked c n ∨ h.Live c ∧ n < (h.client c).nextId

variable (w : World)

/-- The client's session has run and stopped. -/
def Left (c : Nat) : Prop := w.ran c ∧ ¬ w.hub.Live c

/-- A client of the task that opened its link, on which no session has run yet. -/
structure Fresh (me c : Nat) : Prop where
  known : c < w.hub.clients.length
  opener : w.opener (w.hub.client c).link = me
  ran : ¬ w.ran c

/-- The client may ask its server to shut down with this request: its session has stopped, and all
that was asked and told before has its turn before. -/
structure Parted (c : Nat) (r : Request) : Prop where
  left : w.Left c
  id : ∃ n : Nat, r.id = .number n ∧ ¬ w.asked c n
  queue : ∀ t ∈ (w.hub.queue c).tickets, ¬ w.early c t

/-- What the client has said, as far as its greetings and its goodbye go. -/
structure Mannered (c : Nat) : Prop where
  greets : ¬ w.ran c → w.hub.said c = [] ∨ ∃ r, r.method = "initialize" ∧
    (w.hub.said c = [.request r] ∨ w.hub.said c = [.request r, .initialized] ∧ w.answered c r)
  greeted : w.ran c → ∃ r rest, r.method = "initialize" ∧ w.answered c r ∧
    w.hub.said c = .request r :: .initialized :: rest ∧ ∀ m ∈ rest, ¬ m.IsGreeting
  parted : ∀ r, .request r ∈ w.hub.said c → r.method = "shutdown" → w.Parted c r
  late : ∀ before r after, w.hub.said c = before ++ .request r :: after →
    r.method = "shutdown" → ∀ m ∈ after, Late (w.asked c) m

/-- What holds wherever all tasks wait. -/
structure Inv : Prop where
  linked : ∀ c < w.hub.clients.length, (w.hub.client c).link < w.hub.links.length
  apart : ∀ c < w.hub.clients.length, ∀ d < w.hub.clients.length,
    (w.hub.client c).link = (w.hub.client d).link → c = d
  silent : ∀ l, w.hub.Unused l → (w.hub.link l).words = []
  spoke : ∀ c, w.hub.Speaks c → w.ran c
  known : ∀ c, w.ran c → c < w.hub.clients.length
  single : ∀ s s' c, w.hub.speaker s = some c → w.hub.speaker s' = some c → s = s'
  mannered : ∀ c < w.hub.clients.length, w.Mannered c
  ordered : ∀ c, (w.hub.queue c).Ordered
  early : ∀ c, Marks (w.hub.Live c) (w.hub.queue c).next (w.early c)
  asked : ∀ c, Marks (w.hub.Live c) (w.hub.client c).nextId (w.asked c)

/-- What a task may say next. -/
inductive MaySay (me c : Nat) : Message → Prop where
  | introduction (r : Request) (hfresh : w.Fresh me c) (hsaid : w.hub.said c = [])
    (hmethod : r.method = "initialize") : MaySay me c (.request r)
  | introduced (r : Request) (hfresh : w.Fresh me c) (hsaid : w.hub.said c = [.request r])
    (hanswered : w.answered c r) : MaySay me c .initialized
  | early {m : Message} (t : Nat) (hran : w.ran c) (hplain : m.IsPlain)
    (hmem : t ∈ (w.hub.queue c).tickets) (ht : w.early c t) : MaySay me c m
  | late {m : Message} (hran : w.ran c) (hplain : m.IsPlain) (hlate : Late (w.asked c) m) :
    MaySay me c m
  | farewell (r : Request) (hmethod : r.method = "shutdown") (hparted : w.Parted c r) :
    MaySay me c (.request r)

end World

/-! ## What tasks promise each other -/

/-- From one world to the other, tickets of some are kept, and so are the links of some as long as
no session runs there. -/
structure Binds (queuing opening : Nat → Prop) (w w' : World) : Prop where
  clients : w.hub.clients.length ≤ w'.hub.clients.length
  links : w.hub.links.length ≤ w'.hub.links.length
  link : ∀ c < w.hub.clients.length, (w'.hub.client c).link = (w.hub.client c).link
  opener : ∀ l < w.hub.links.length, w'.opener l = w.opener l
  next : ∀ c, (w.hub.queue c).next ≤ (w'.hub.queue c).next
  owner : ∀ c, ∀ t < (w.hub.queue c).next, w'.owner c t = w.owner c t
  ran : ∀ c, w.ran c → w'.ran c
  answered : ∀ c r, w.answered c r → w'.answered c r
  early : ∀ c t, w.early c t → w'.early c t
  asked : ∀ c n, w.asked c n → w'.asked c n
  left : ∀ c, w.Left c → w'.Left c ∧ (∀ t, w'.early c t → w.early c t) ∧
    ∀ n, w'.asked c n → w.asked c n
  entered : ∀ c, ∀ t ∈ (w'.hub.queue c).tickets,
    t ∈ (w.hub.queue c).tickets ∨ (w.hub.queue c).next ≤ t
  stays : ∀ c, ∀ t ∈ (w.hub.queue c).tickets, t < (w.hub.queue c).next → queuing (w.owner c t) →
    t ∈ (w'.hub.queue c).tickets
  unused : ∀ l < w.hub.links.length, opening (w.opener l) → w.hub.Unused l → w'.hub.Unused l
  fresh : ∀ c me, opening me → w.Fresh me c → w'.Fresh me c ∧ w'.hub.said c = w.hub.said c

variable {me you : Nat} {queuing queuing' opening opening' : Nat → Prop} {w w' w'' : World}

namespace Binds

theorem refl (w : World) : Binds queuing opening w w where
  clients := Nat.le_refl _
  links := Nat.le_refl _
  link _ _ := rfl
  opener _ _ := rfl
  next _ := Nat.le_refl _
  owner _ _ _ := rfl
  ran _ := id
  answered _ _ := id
  early _ _ := id
  asked _ _ := id
  left _ h := ⟨h, fun _ => id, fun _ => id⟩
  entered _ _ := .inl
  stays _ _ ht _ _ := ht
  unused _ _ _ := id
  fresh _ _ _ h := ⟨h, rfl⟩

theorem trans (first : Binds queuing opening w w') (second : Binds queuing opening w' w'') :
    Binds queuing opening w w'' where
  clients := Nat.le_trans first.clients second.clients
  links := Nat.le_trans first.links second.links
  link c hc := (second.link c (Nat.lt_of_lt_of_le hc first.clients)).trans (first.link c hc)
  opener l hl := (second.opener l (Nat.lt_of_lt_of_le hl first.links)).trans (first.opener l hl)
  next c := Nat.le_trans (first.next c) (second.next c)
  owner c t ht := (second.owner c t (Nat.lt_of_lt_of_le ht (first.next c))).trans
    (first.owner c t ht)
  ran c h := second.ran c (first.ran c h)
  answered c r h := second.answered c r (first.answered c r h)
  early c t h := second.early c t (first.early c t h)
  asked c n h := second.asked c n (first.asked c n h)
  left c h := by
    obtain ⟨hleft, hearly, hasked⟩ := first.left c h
    obtain ⟨hleft', hearly', hasked'⟩ := second.left c hleft
    exact ⟨hleft', fun t ht => hearly t (hearly' t ht), fun n hn => hasked n (hasked' n hn)⟩
  entered c t ht := (second.entered c t ht).elim (first.entered c t) fun hnew =>
    .inr (Nat.le_trans (first.next c) hnew)
  stays c t ht hissued hkept :=
    second.stays c t (first.stays c t ht hissued hkept) (Nat.lt_of_lt_of_le hissued (first.next c))
      ((first.owner c t hissued).symm ▸ hkept)
  unused l hl hkept hunused := second.unused l (Nat.lt_of_lt_of_le hl first.links)
    ((first.opener l hl).symm ▸ hkept) (first.unused l hl hkept hunused)
  fresh c me hkept hfresh := by
    obtain ⟨hfresh', hsaid⟩ := first.fresh c me hkept hfresh
    obtain ⟨hfresh'', hsaid'⟩ := second.fresh c me hkept hfresh'
    exact ⟨hfresh'', hsaid'.trans hsaid⟩

theorem mono (h : Binds queuing opening w w') (hqueuing : ∀ id, queuing' id → queuing id)
    (hopening : ∀ id, opening' id → opening id) : Binds queuing' opening' w w' :=
  { h with
    stays := fun c t ht hissued hkept => h.stays c t ht hissued (hqueuing _ hkept)
    unused := fun l hl hkept => h.unused l hl (hopening _ hkept)
    fresh := fun c me hkept => h.fresh c me (hopening _ hkept) }

end Binds

theorem World.Parted.later {c : Nat} {r : Request} (h : w.Parted c r) (hw : w.Inv)
    (hbinds : Binds queuing opening w w') : w'.Parted c r := by
  obtain ⟨hleft, hearly, hasked⟩ := hbinds.left c h.left
  obtain ⟨n, hid, hn⟩ := h.id
  refine ⟨hleft, ⟨n, hid, fun hnew => hn (hasked n hnew)⟩, fun t ht hnew => ?_⟩
  rcases hbinds.entered c t ht with hmem | hlater
  · exact h.queue t hmem (hearly t hnew)
  · exact absurd ((hw.early c).below t (hearly t hnew)) (Nat.not_lt_of_le hlater)

/-- What a task may rely on while it waits. -/
abbrev Rely (me : Nat) (w w' : World) : Prop := Binds (· = me) (· = me) w w'

/-- What may have happened meanwhile, also by the task itself, while it does not speak on links of
its own on which no session has run. -/
abbrev Hears (me : Nat) (w w' : World) : Prop := Binds (fun _ => False) (· = me) w w'

/-- What nobody takes back. -/
abbrev Grows (w w' : World) : Prop := Binds (fun _ => False) (fun _ => False) w w'

theorem Binds.grows (h : Binds queuing opening w w') : Grows w w' :=
  h.mono (fun _ => False.elim) fun _ => False.elim

/-- The answer that a task takes has come before it goes on, and a session that it starts is
started when it waits again. -/
structure Guarantee (me : Nat) (w w' : World) : Prop where
  binds : Binds (· ≠ me) (· ≠ me) w w'
  answered : ∀ c r, w'.answered c r → w.answered c r ∨ w.hub.Answers c r
  ran : ∀ c, w'.ran c → w.ran c ∨ w'.hub.Speaks c

theorem Guarantee.refl (w : World) : Guarantee me w w :=
  ⟨.refl w, fun _ _ => .inl, fun _ => .inl⟩

end Manners

/-- A job that a session starts. -/
def Job.IsOwn : Job → Prop
  | read _ | watchConnection .. | stopWhenIdle .. => True
  | _ => False

namespace Manners

variable {me : Nat} {w w' : World}

abbrev company : Company Job Hub where
  World := World
  state := World.hub
  move := World.move
  state_move _ _ _ := rfl
  allows _ _ _ := True
  inv := World.Inv
  guarantee := Guarantee
  rely := Rely
  starts _ job := job.IsOwn
  rely_refl _ w := .refl w
  rely_trans := .trans
  rely_of_guarantee hne _ _ _ hguarantee :=
    hguarantee.binds.mono (fun _ heq => heq ▸ hne) fun _ heq => heq ▸ hne

abbrev pact (me : Nat) : Pact Job Hub := company.pact me

theorem hears_of_rely (h : Rely me w w') : Hears me w w' := h.mono (fun _ => False.elim) fun _ => id

end Manners

end LanguageHub
