import LanguageHub.Proofs.Manners.World

/-!
# What a task may do

A change that a task makes keeps the manners of every client when what it says there is something
that it may say, when a session that it starts runs on a client that was introduced, and when the
tickets that it gives back are its own.
-/

namespace LanguageHub.Manners

variable {me c d t l s : Nat} {w w' : World} {h h' : Hub} {m : Message} {r : Request}
  {queuing opening : Nat → Prop}

namespace World

/-- The task has introduced the client, and a session may run on it. -/
def Ready (w : World) (me c : Nat) : Prop :=
  w.Fresh me c ∧ ∃ r, r.method = "initialize" ∧ w.hub.said c = [.request r, .initialized] ∧
    w.answered c r

end World

structure Acts (me : Nat) (w : World) (h : Hub) : Prop where
  clients : w.hub.clients.length ≤ h.clients.length
  links : w.hub.links.length ≤ h.links.length
  link : ∀ c < w.hub.clients.length, (h.client c).link = (w.hub.client c).link
  newcomer : ∀ c, w.hub.clients.length ≤ c → c < h.clients.length →
    c = w.hub.clients.length ∧ (h.client c).link < w.hub.links.length ∧
      w.opener (h.client c).link = me ∧ w.hub.Unused (h.client c).link
  silent : ∀ l, w.hub.Unused l → (h.link l).words = (w.hub.link l).words
  said : ∀ c < w.hub.clients.length,
    h.said c = w.hub.said c ∨ ∃ m, w.MaySay me c m ∧ h.said c = w.hub.said c ++ [m]
  speaker : ∀ s c, h.speaker s = some c → w.hub.speaker s = some c ∨ w.Ready me c
  single : ∀ s s' c, h.speaker s = some c → h.speaker s' = some c → s = s'
  live : ∀ c, h.Live c → w.hub.Live c ∨ w.Ready me c
  nextId : ∀ c, (w.hub.client c).nextId ≤ (h.client c).nextId
  queue : ∀ c, (w.hub.queue c).Follows (fun t => w.owner c t = me) (h.queue c)

/-- What is said after a goodbye is something that may follow it. -/
theorem World.MaySay.late_of_parted (hm : w.MaySay me c m) (hparted : w.Parted c r) :
    Late (w.asked c) m := by
  cases hm with
  | introduction r hfresh => exact absurd hparted.left.1 hfresh.ran
  | introduced r hfresh => exact absurd hparted.left.1 hfresh.ran
  | early t _ _ hmem ht => exact absurd ht (hparted.queue t hmem)
  | late _ _ hlate => exact hlate
  | farewell r hmethod => exact .farewell r hmethod

namespace Acts

variable (ha : Acts me w h) (hw : w.Inv)

include ha

theorem unused (hunused : h.Unused l) : w.hub.Unused l := fun c hc hl =>
  hunused c (Nat.lt_of_lt_of_le hc ha.clients) ((ha.link c hc).trans hl)

/-- A client that is introduced is not introduced again. -/
theorem said_ready (hready : w.Ready me c) : h.said c = w.hub.said c := by
  obtain ⟨hfresh, r, -, hsaid, -⟩ := hready
  refine (ha.said c hfresh.known).resolve_right ?_
  rintro ⟨m, hm, -⟩
  cases hm with
  | introduction r _ hnone _ => simp [hsaid] at hnone
  | introduced r' _ hone _ => simp [hsaid] at hone
  | early t hran => exact hfresh.ran hran
  | late hran => exact hfresh.ran hran
  | farewell r _ hparted => exact hfresh.ran hparted.left.1

theorem left (hleft : w.Left c) : (w.move me h).Left c ∧
    (∀ t, (w.move me h).early c t → w.early c t) ∧ ∀ n, (w.move me h).asked c n → w.asked c n := by
  have hgone : ¬ h.Live c := fun hlive =>
    (ha.live c hlive).elim hleft.2 fun hready => hready.1.ran hleft.1
  exact ⟨⟨.inl hleft.1, hgone⟩, fun t ht => ht.resolve_right fun hnew => hgone hnew.1,
    fun n hn => hn.resolve_right fun hnew => hgone hnew.1⟩

include hw

/-- A client on which a session runs did so before, or the task has introduced it. -/
theorem ran (hran : (w.move me h).ran c) : w.ran c ∨ w.Ready me c := by
  rcases hran with hran | ⟨s, hs⟩
  · exact .inl hran
  · exact (ha.speaker s c hs).imp_left fun hspoke => hw.spoke c ⟨s, hspoke⟩

theorem known (hran : (w.move me h).ran c) : c < w.hub.clients.length :=
  (ha.ran hw hran).elim (hw.known c) fun hready => hready.1.known

theorem said_newcomer (hc : w.hub.clients.length ≤ c) (hc' : c < h.clients.length) :
    h.said c = [] := by
  obtain ⟨-, -, -, hunused⟩ := ha.newcomer c hc hc'
  exact (ha.silent _ hunused).trans (hw.silent _ hunused)

theorem binds_of (hqueuing : ¬ queuing me)
    (hunused : ∀ l, opening (w.opener l) → w.hub.Unused l → h.Unused l)
    (hfresh : ∀ c you, opening you → w.Fresh you c → ¬ h.Speaks c ∧ h.said c = w.hub.said c) :
    Binds queuing opening w (w.move me h) where
  clients := ha.clients
  links := ha.links
  link := ha.link
  opener l hl := if_neg fun hnew => absurd hl (Nat.not_lt_of_le hnew.1)
  next c := (ha.queue c).next
  owner c t ht := if_neg fun hnew => absurd ht (Nat.not_lt_of_le hnew.1)
  ran _ := .inl
  answered _ _ := .inl
  early _ _ := .inl
  asked _ _ := .inl
  left _ := ha.left
  entered c := (ha.queue c).mem
  stays c t ht _ hkept := (ha.queue c).stays t ht fun hmine => hqueuing (hmine ▸ hkept)
  unused l _ := hunused l
  fresh c you hkept hyou := by
    obtain ⟨hspeaks, hsaid⟩ := hfresh c you hkept hyou
    refine ⟨⟨Nat.lt_of_lt_of_le hyou.known ha.clients, ?_, fun hran => hran.elim hyou.ran hspeaks⟩,
      hsaid⟩
    have hlink : ((w.move me h).hub.client c).link = (w.hub.client c).link := ha.link c hyou.known
    rw [hlink]
    exact (if_neg fun hnew => absurd (hw.linked c hyou.known) (Nat.not_lt_of_le hnew.1)).trans
      hyou.opener

theorem grows : Grows w (w.move me h) :=
  ha.binds_of hw id (fun _ => False.elim) fun _ _ => False.elim

theorem parted (hparted : w.Parted c r) : (w.move me h).Parted c r :=
  hparted.later hw (ha.grows hw)

theorem greets (hc : c < w.hub.clients.length) (hran : ¬ (w.move me h).ran c) :
    h.said c = [] ∨ ∃ r, r.method = "initialize" ∧ (h.said c = [.request r] ∨
      h.said c = [.request r, .initialized] ∧ (w.move me h).answered c r) := by
  have hbefore := (hw.mannered c hc).greets fun hran' => hran (.inl hran')
  rcases ha.said c hc with hsame | ⟨m, hm, hmore⟩
  · rw [hsame]
    exact hbefore.imp_right fun ⟨r, hmethod, hsaid⟩ =>
      ⟨r, hmethod, hsaid.imp_right (And.imp_right .inl)⟩
  · cases hm with
    | introduction r _ hnone hmethod => exact .inr ⟨r, hmethod, .inl (by rw [hmore, hnone]; rfl)⟩
    | introduced r _ hone hanswered =>
      refine .inr ⟨r, ?_, .inr ⟨by rw [hmore, hone]; rfl, .inl hanswered⟩⟩
      obtain ⟨r', hmethod, hsaid⟩ := hbefore.resolve_left (by simp [hone])
      rw [hone] at hsaid
      rcases hsaid with hsaid | ⟨hsaid, -⟩
      · cases hsaid
        exact hmethod
      · cases hsaid
    | early t hran' => exact absurd (.inl hran') hran
    | late hran' => exact absurd (.inl hran') hran
    | farewell r _ hparted => exact absurd (.inl hparted.left.1) hran

theorem greeted (hc : c < w.hub.clients.length) (hran : (w.move me h).ran c) :
    ∃ r rest, r.method = "initialize" ∧ (w.move me h).answered c r ∧
      h.said c = .request r :: .initialized :: rest ∧ ∀ m ∈ rest, ¬ m.IsGreeting := by
  rcases ha.ran hw hran with hran | hready
  · obtain ⟨r, rest, hmethod, hanswered, hsaid, hrest⟩ := (hw.mannered c hc).greeted hran
    rcases ha.said c hc with hsame | ⟨m, hm, hmore⟩
    · exact ⟨r, rest, hmethod, .inl hanswered, hsame.trans hsaid, hrest⟩
    · refine ⟨r, rest ++ [m], hmethod, .inl hanswered, by rw [hmore, hsaid]; rfl, ?_⟩
      rw [List.forall_mem_append, List.forall_mem_singleton]
      refine ⟨hrest, ?_⟩
      cases hm with
      | introduction r hfresh => exact absurd hran hfresh.ran
      | introduced r hfresh => exact absurd hran hfresh.ran
      | early t _ hplain => exact hplain.greeting
      | late _ hplain => exact hplain.greeting
      | farewell r hmethod =>
        intro hgreeting
        exact absurd (hgreeting.symm.trans hmethod) (by decide)
  · have hsame := ha.said_ready hready
    obtain ⟨-, r, hmethod, hsaid, hanswered⟩ := hready
    exact ⟨r, [], hmethod, .inl hanswered, hsame.trans hsaid, nofun⟩

theorem mannered (hc : c < h.clients.length) : (w.move me h).Mannered c := by
  by_cases hknown : c < w.hub.clients.length
  · have hbefore := hw.mannered c hknown
    have hmono : ∀ n, w.asked c n → (w.move me h).asked c n := fun _ => .inl
    refine ⟨ha.greets hw hknown, ha.greeted hw hknown, fun r hr hmethod => ?_,
      fun before r after heq hmethod => ?_⟩
    · change .request r ∈ h.said c at hr
      rcases ha.said c hknown with hsame | ⟨m, hm, hmore⟩
      · exact ha.parted hw (hbefore.parted r (hsame ▸ hr) hmethod)
      rw [hmore, List.mem_append, List.mem_singleton] at hr
      rcases hr with hold | rfl
      · exact ha.parted hw (hbefore.parted r hold hmethod)
      cases hm with
      | introduction _ _ _ hmethod' => exact absurd (hmethod'.symm.trans hmethod) (by decide)
      | early t _ hplain => exact absurd hmethod hplain.farewell
      | late _ hplain => exact absurd hmethod hplain.farewell
      | farewell _ _ hparted => exact ha.parted hw hparted
    · change h.said c = _ at heq
      rcases ha.said c hknown with hsame | ⟨m, hm, hmore⟩
      · exact fun m hm => (hbefore.late before r after (hsame.symm.trans heq) hmethod m hm).mono
          hmono
      -- What was said last follows a goodbye, or it is one itself.
      rcases List.eq_nil_or_concat after with rfl | ⟨after, last, rfl⟩
      · exact nofun
      have heq' : w.hub.said c ++ [m] = (before ++ .request r :: after) ++ [last] := by
        simpa using hmore.symm.trans heq
      obtain ⟨hbefore', hlast⟩ := List.append_inj' heq' rfl
      cases hlast
      have hparted := hbefore.parted r (by simp [hbefore']) hmethod
      rw [List.concat_eq_append, List.forall_mem_append, List.forall_mem_singleton]
      exact ⟨fun m hm => (hbefore.late before r after hbefore' hmethod m hm).mono hmono,
        (hm.late_of_parted hparted).mono hmono⟩
  · have hnew := Nat.le_of_not_lt hknown
    have hsaid : (w.move me h).hub.said c = [] := ha.said_newcomer hw hnew hc
    refine ⟨fun _ => .inl hsaid, fun hran => absurd (ha.known hw hran) hknown, fun r hr => ?_,
      fun before r after heq => ?_⟩
    · simp [hsaid] at hr
    · simp [hsaid] at heq

theorem inv : (w.move me h).Inv where
  linked c hc := by
    refine Nat.lt_of_lt_of_le ?_ ha.links
    by_cases hknown : c < w.hub.clients.length
    · exact Nat.lt_of_le_of_lt (Nat.le_of_eq (ha.link c hknown)) (hw.linked c hknown)
    · exact (ha.newcomer c (Nat.le_of_not_lt hknown) hc).2.1
  apart c hc d hd heq := by
    change (h.client c).link = (h.client d).link at heq
    by_cases hknown : c < w.hub.clients.length
    · by_cases hknown' : d < w.hub.clients.length
      · rw [ha.link c hknown, ha.link d hknown'] at heq
        exact hw.apart c hknown d hknown' heq
      · obtain ⟨-, -, -, hunused⟩ := ha.newcomer d (Nat.le_of_not_lt hknown') hd
        exact absurd ((ha.link c hknown).symm.trans heq) (hunused c hknown)
    · obtain ⟨hlast, -, -, hunused⟩ := ha.newcomer c (Nat.le_of_not_lt hknown) hc
      by_cases hknown' : d < w.hub.clients.length
      · exact absurd ((ha.link d hknown').symm.trans heq.symm) (hunused d hknown')
      · exact hlast.trans (ha.newcomer d (Nat.le_of_not_lt hknown') hd).1.symm
  silent l hl := (ha.silent l (ha.unused hl)).trans (hw.silent l (ha.unused hl))
  spoke c hspeaks := .inr hspeaks
  known c hran := Nat.lt_of_lt_of_le (ha.known hw hran) ha.clients
  single := ha.single
  mannered c hc := ha.mannered hw hc
  ordered c := (ha.queue c).ordered (hw.ordered c)
  early c := (hw.early c).move (ha.queue c).next
  asked c := (hw.asked c).move (ha.nextId c)

end Acts

/-- Sessions change, and nothing is said. -/
theorem acts_resembling (hsame : w.hub.Resembles h)
    (hspeaker : ∀ s c, h.speaker s = some c → w.hub.speaker s = some c ∨ w.Ready me c)
    (hsingle : ∀ s s' c, h.speaker s = some c → h.speaker s' = some c → s = s')
    (hlive : ∀ c, h.Live c → w.hub.Live c ∨ w.Ready me c) : Acts me w h where
  clients := Nat.le_of_eq (congrArg List.length hsame.clients.symm)
  links := Nat.le_of_eq (congrArg List.length hsame.links.symm)
  link c _ := congrArg Client.link (hsame.client c)
  newcomer _ hc hc' :=
    absurd (Nat.lt_of_lt_of_eq hc' (congrArg List.length hsame.clients)) (Nat.not_lt_of_le hc)
  silent l _ := congrArg Link.words (hsame.link l)
  said c _ := .inl (hsame.said c)
  speaker := hspeaker
  single := hsingle
  live := hlive
  nextId c := Nat.le_of_eq (congrArg Client.nextId (hsame.client c).symm)
  queue c := by
    rw [hsame.queue]
    exact .refl _

/-! ## For the others and for oneself -/

/-- What a task does the others may rely on. -/
theorem Acts.binds (ha : Acts me w h) (hw : w.Inv) :
    Binds (· ≠ me) (· ≠ me) w (w.move me h) := by
  refine ha.binds_of hw (fun hne => hne rfl) (fun l hother hunused c hc hl => ?_)
    fun c you hother hfresh => ⟨?_, ?_⟩
  · by_cases hknown : c < w.hub.clients.length
    · exact hunused c hknown ((ha.link c hknown).symm.trans hl)
    · obtain ⟨-, -, hopener, -⟩ := ha.newcomer c (Nat.le_of_not_lt hknown) hc
      exact hother (hl ▸ hopener)
  · rintro ⟨s, hs⟩
    rcases ha.speaker s c hs with hspoke | hready
    · exact hfresh.ran (hw.spoke c ⟨s, hspoke⟩)
    · exact hother (hfresh.opener.symm.trans hready.1.opener)
  · -- Until a session runs on the client only the task that opened its link speaks.
    refine (ha.said c hfresh.known).resolve_right ?_
    rintro ⟨m, hm, -⟩
    cases hm with
    | introduction r hmine => exact hother (hfresh.opener.symm.trans hmine.opener)
    | introduced r hmine => exact hother (hfresh.opener.symm.trans hmine.opener)
    | early t hran => exact hfresh.ran hran
    | late hran => exact hfresh.ran hran
    | farewell r _ hparted => exact hfresh.ran hparted.left.1

/-- A change by which the task leaves alone what it has opened itself, takes no answer to an
introduction and starts no session. -/
structure Minds (me : Nat) (w : World) (h : Hub) : Prop extends Acts me w h where
  nobody : h.clients.length = w.hub.clients.length
  fresh : ∀ c, w.Fresh me c → h.said c = w.hub.said c
  answers : ∀ c r, w.hub.Answers c r → h.Answers c r ∨ w.answered c r
  speakers : ∀ s, h.speaker s = w.hub.speaker s ∨ h.speaker s = none

theorem Minds.speaks (hm : Minds me w h) (hspeaks : h.Speaks c) : w.hub.Speaks c := by
  obtain ⟨s, hs⟩ := hspeaks
  rcases hm.speakers s with hsame | hnone
  · exact ⟨s, hsame.symm.trans hs⟩
  · cases hnone.symm.trans hs

theorem Minds.hears (hm : Minds me w h) (hw : w.Inv) : Hears me w (w.move me h) := by
  refine hm.toActs.binds_of hw id (fun l _ hunused c hc hl => ?_)
    fun c you hyou hfresh => ⟨fun hspeaks => ?_, ?_⟩
  · have hknown : c < w.hub.clients.length := Nat.lt_of_lt_of_eq hc hm.nobody
    exact hunused c hknown ((hm.link c hknown).symm.trans hl)
  · exact hfresh.ran (hw.spoke c (hm.speaks hspeaks))
  · subst hyou
    exact hm.fresh c hfresh

open Pact

/-- A turn may end after a change when the answers that are taken had come before, and a session
that was started in this turn still runs. -/
theorem sound_set {m : Moment (pact me)} (hm : m.Sound) (ha : Acts me m.now h)
    (hanswers : ∀ c r, (World.hub m.now).Answers c r → h.Answers c r ∨
      World.answered m.start c r ∨ (World.hub m.start).Answers c r)
    (hran : ∀ c, ¬ World.ran m.start c → (World.hub m.now).Speaks c → h.Speaks c) :
    (m.set h).Sound where
  inv := ha.inv hm.inv
  guarantee := by
    have hguarantee : Guarantee me m.start m.now := hm.guarantee
    refine ⟨hguarantee.binds.trans (ha.binds hm.inv), fun c r hr => ?_, fun c hc => ?_⟩
    · rcases hr with hold | ⟨hanswers', hgone⟩
      · exact hguarantee.answered c r hold
      · exact (hanswers c r hanswers').resolve_left hgone
    · by_cases hstart : World.ran m.start c
      · exact .inl hstart
      rcases hc with hold | hnew
      · exact .inr (hran c hstart ((hguarantee.ran c hold).resolve_left hstart))
      · exact .inr hnew
  jobs := hm.jobs

/-- No session was started in this turn. -/
def Calm (m : Moment (pact me)) : Prop := ∀ c, World.ran m.now c → World.ran m.start c

theorem calm_resume (w : World) : Calm (Moment.resume w : Moment (pact me)) := fun _ => id

theorem Minds.sound {m : Moment (pact me)} (hminds : Minds me m.now h) (hm : m.Sound)
    (hspeakers : Calm m ∨ ∀ s, h.speaker s = (World.hub m.now).speaker s) : (m.set h).Sound := by
  have hguarantee : Guarantee me m.start m.now := hm.guarantee
  have hinv : World.Inv m.now := hm.inv
  refine sound_set hm hminds.toActs (fun c r hr => ?_) fun c hstart hspeaks => ?_
  · exact (hminds.answers c r hr).imp_right (hguarantee.answered c r)
  · rcases hspeakers with hcalm | hsame
    · exact absurd (hcalm c (hinv.spoke c hspeaks)) hstart
    · obtain ⟨s, hs⟩ := hspeaks
      exact ⟨s, (hsame s).trans hs⟩

theorem Minds.calm {m : Moment (pact me)} (hminds : Minds me m.now h) (hm : m.Sound)
    (hcalm : Calm m) : Calm (m.set h) := by
  have hinv : World.Inv m.now := hm.inv
  rintro c (hran | hspeaks)
  · exact hcalm c hran
  · exact hcalm c (hinv.spoke c (hminds.speaks hspeaks))

theorem sound_resume (hw : w.Inv) : (Moment.resume w : Moment (pact me)).Sound :=
  ⟨hw, .refl w, nofun⟩

end LanguageHub.Manners
