import LanguageHub.Proofs.Manners.Acts
import LanguageHub.Proofs.Routine.Custom

/-!
# Quiet changes and words

Most changes of the hub say nothing, start no session and give out or take back tickets at most.
They, and words on a client on which a session has run, are what a task may do at any time.
-/

namespace LanguageHub.Manners

open Routine Pact

variable {me c d t l s : Nat} {α : Type} {w w' : World} {h h' h'' : Hub} {n : LockName}
  {mine : Nat → Nat → Prop} {ran : Nat → Prop}

/-- Nothing is said and no session is started or dropped. Tickets that are mine may be given back,
and answers may be taken by clients that have run. -/
structure Quiet (mine : Nat → Nat → Prop) (ran : Nat → Prop) (h h' : Hub) : Prop where
  clients : h'.clients.length = h.clients.length
  links : h'.links.length = h.links.length
  link : ∀ c, (h'.client c).link = (h.client c).link
  words : ∀ l, (h'.link l).words = (h.link l).words
  speaker : ∀ s, h'.speaker s = h.speaker s
  started : ∀ s, (h'.session s).state = .started → (h.session s).state = .started
  nextId : ∀ c, (h.client c).nextId ≤ (h'.client c).nextId
  answers : ∀ c, ¬ ran c → ∀ a ∈ (h.client c).answers, a ∈ (h'.client c).answers
  queue : ∀ c, (h.queue c).Follows (mine c) (h'.queue c)

namespace Quiet

theorem trans (first : Quiet mine ran h h') (second : Quiet mine ran h' h'') :
    Quiet mine ran h h'' where
  clients := second.clients.trans first.clients
  links := second.links.trans first.links
  link c := (second.link c).trans (first.link c)
  words l := (second.words l).trans (first.words l)
  speaker s := (second.speaker s).trans (first.speaker s)
  started s hs := first.started s (second.started s hs)
  nextId c := Nat.le_trans (first.nextId c) (second.nextId c)
  answers c hc a ha := second.answers c hc a (first.answers c hc a ha)
  queue c := (first.queue c).trans (second.queue c)

theorem mono {mine' : Nat → Nat → Prop} {ran' : Nat → Prop} (hq : Quiet mine ran h h')
    (hmine : ∀ c t, mine c t → mine' c t) (hran : ∀ c, ran c → ran' c) :
    Quiet mine' ran' h h' :=
  { hq with
    answers := fun c hc => hq.answers c fun hran' => hc (hran c hran')
    queue := fun c => (hq.queue c).mono fun t _ => hmine c t }

/-- All that matters is the same. -/
theorem of_eq (hclients : h'.clients = h.clients) (hlinks : h'.links = h.links)
    (hsessions : h'.sessions = h.sessions) (hlocks : h'.locks = h.locks) :
    Quiet mine ran h h' := by
  have hclient : ∀ c, h'.client c = h.client c := fun c => by rw [Hub.client, hclients]; rfl
  have hlink : ∀ l, h'.link l = h.link l := fun l => by rw [Hub.link, hlinks]; rfl
  have hsession : ∀ s, h'.session s = h.session s := fun s => by
    rw [Hub.session, hsessions]
    rfl
  have hqueue : ∀ c, h'.queue c = h.queue c := fun c => by
    rw [Hub.queue, Hub.lock, hlocks]
    rfl
  constructor
  case clients => rw [hclients]
  case links => rw [hlinks]
  case link => exact fun c => by rw [hclient]
  case words => exact fun l => by rw [hlink]
  case speaker => exact fun s => by rw [Hub.speaker, hsession, Hub.speaker]
  case started => exact fun s hs => by rwa [hsession] at hs
  case nextId => exact fun c => Nat.le_of_eq (by rw [hclient])
  case answers => exact fun c _ a ha => by rwa [hclient]
  case queue =>
    intro c
    rw [hqueue]
    exact .refl _

theorem same (h : Hub) : Quiet mine ran h h := of_eq rfl rfl rfl rfl

theorem onClient {f : Client → Client} (hlink : (f (h.client c)).link = (h.client c).link)
    (hid : (h.client c).nextId ≤ (f (h.client c)).nextId)
    (hanswers : ¬ ran c → ∀ a ∈ (h.client c).answers, a ∈ (f (h.client c)).answers) :
    Quiet mine ran h (h.onClient c f) where
  clients := List.length_modify ..
  links := rfl
  link d := by
    rw [Hub.client_onClient]
    split
    · rename_i hd
      rw [← hd.1, hlink]
    · rfl
  words _ := rfl
  speaker _ := rfl
  started _ := id
  nextId d := by
    rw [Hub.client_onClient]
    split
    · rename_i hd
      rw [← hd.1]
      exact hid
    · exact Nat.le_refl _
  answers d hd a ha := by
    rw [Hub.client_onClient]
    split
    · rename_i heq
      rw [← heq.1] at hd ha ⊢
      exact hanswers hd a ha
    · exact ha
  queue _ := .refl _

theorem fromClient {f : Client → α × Client}
    (hlink : (f (h.client c)).2.link = (h.client c).link)
    (hid : (h.client c).nextId ≤ (f (h.client c)).2.nextId)
    (hanswers : ¬ ran c → ∀ a ∈ (h.client c).answers, a ∈ (f (h.client c)).2.answers) :
    Quiet mine ran h (h.fromClient c f).2 := onClient hlink hid hanswers

theorem onSession {f : Session → Session}
    (hspeaker : (f (h.session s)).running.map (·.client) = h.speaker s)
    (hstarted : (f (h.session s)).state = .started → (h.session s).state = .started) :
    Quiet mine ran h (h.onSession s f) := by
  refine ⟨rfl, rfl, fun _ => rfl, fun _ => rfl, fun s' => ?_, fun s' hs' => ?_,
    fun _ => Nat.le_refl _, fun _ _ _ ha => ha, fun _ => .refl _⟩
  · rw [Hub.speaker, Hub.session_of_onSession]
    split
    · rename_i heq
      rw [← heq.1]
      exact hspeaker
    · rfl
  · rw [Hub.session_of_onSession] at hs'
    split at hs'
    · rename_i heq
      rw [← heq.1] at hs' ⊢
      exact hstarted hs'
    · exact hs'

theorem onLink {f : Link → Link} (hwords : (f (h.link l)).words = (h.link l).words) :
    Quiet mine ran h (h.onLink l f) := by
  refine ⟨rfl, List.length_modify .., fun _ => rfl, fun i => ?_, fun _ => rfl, fun _ => id,
    fun _ => Nat.le_refl _, fun _ _ _ ha => ha, fun _ => .refl _⟩
  rw [Hub.link_onLink]
  split
  · rename_i hi
    rw [← hi.1]
    exact hwords
  · rfl

theorem setLock {lock : Lock}
    (hlock : ∀ c, n = .writer c → (h.queue c).Follows (mine c) lock) :
    Quiet mine ran h (h.setLock n lock) := by
  refine ⟨rfl, rfl, fun _ => rfl, fun _ => rfl, fun _ => rfl, fun _ => id,
    fun _ => Nat.le_refl _, fun _ _ _ ha => ha, fun c => ?_⟩
  rw [Hub.queue, Hub.queue, Hub.lock_setLock]
  split
  · rename_i hc
    exact hlock c hc.symm
  · exact .refl _

theorem enterLock (hordered : ∀ c, (h.queue c).Ordered) :
    Quiet mine ran h (Hub.enterLock n h).2 :=
  setLock fun c hc => by
    subst hc
    exact Lock.follows_enter (hordered c).toValid

theorem leaveLock (hordered : ∀ c, (h.queue c).Ordered) (hmine : ∀ c, n = .writer c → mine c t) :
    Quiet mine ran h (Hub.leaveLock n t h) :=
  setLock fun c hc => by
    have hown := hmine c hc
    subst hc
    exact Lock.follows_leave (hordered c).toValid hown

end Quiet

namespace World

/-- A change by a task that says nothing. -/
abbrev Quiet (me : Nat) (w : World) (h : Hub) : Prop :=
  Manners.Quiet (fun c t => w.owner c t = me) w.ran w.hub h

/-- The task may make the change at any time. -/
def May (me : Nat) (w : World) (h : Hub) : Prop :=
  Minds me w h ∧ ∀ s, h.speaker s = w.hub.speaker s

theorem Inv.not_ran_of_answers (hw : w.Inv) {r : Request} (h : w.hub.Answers c r) : ¬ w.ran c := by
  intro hran
  obtain ⟨r', rest, -, -, hsaid, -⟩ := (hw.mannered c (hw.known c hran)).greeted hran
  simp [h.1] at hsaid

theorem Inv.move_same (hw : w.Inv) (me : Nat) : w.move me w.hub = w := by
  obtain ⟨hub, owner, opener, ran, answered, early, asked⟩ := w
  simp only [move, mk.injEq, true_and]
  refine ⟨?_, ?_, ?_, ?_, ?_, ?_⟩
  · funext c t
    exact if_neg fun hnew => absurd hnew.2 (Nat.not_lt_of_le hnew.1)
  · funext l
    exact if_neg fun hnew => absurd hnew.2 (Nat.not_lt_of_le hnew.1)
  · funext c
    exact propext (or_iff_left_of_imp (hw.spoke c))
  · funext c r
    exact propext (or_iff_left fun hgone => hgone.2 hgone.1)
  · funext c t
    exact propext (or_iff_left_of_imp fun hnow => (hw.early c).all hnow.1 t hnow.2)
  · funext c n
    exact propext (or_iff_left_of_imp fun hnow => (hw.asked c).all hnow.1 n hnow.2)

end World

theorem Quiet.said (hq : Quiet mine ran h h') (c : Nat) : h'.said c = h.said c := by
  rw [Hub.said, Hub.linkOf, hq.link, hq.words]
  rfl

theorem Quiet.speaks (hq : Quiet mine ran h h') : h'.Speaks c ↔ h.Speaks c :=
  exists_congr fun s => by rw [hq.speaker]

theorem Quiet.live (hq : Quiet mine ran h h') (hlive : h'.Live c) : h.Live c := by
  obtain ⟨s, hstate, hspeaker⟩ := Hub.live_iff.mp hlive
  exact Hub.live_iff.mpr ⟨s, hq.started s hstate, (hq.speaker s).symm.trans hspeaker⟩

theorem Quiet.acts (hq : Quiet (fun c t => w.owner c t = me) ran w.hub h) (hw : w.Inv) :
    Acts me w h where
  clients := Nat.le_of_eq hq.clients.symm
  links := Nat.le_of_eq hq.links.symm
  link c _ := hq.link c
  newcomer _ hc hc' := absurd (Nat.lt_of_lt_of_eq hc' hq.clients) (Nat.not_lt_of_le hc)
  silent l _ := hq.words l
  said c _ := .inl (hq.said c)
  speaker s _ hs := .inl ((hq.speaker s).symm.trans hs)
  single s s' c hs hs' := hw.single s s' c ((hq.speaker s).symm.trans hs)
    ((hq.speaker s').symm.trans hs')
  live _ hlive := .inl (hq.live hlive)
  nextId := hq.nextId
  queue := hq.queue

theorem Quiet.hears (hq : Quiet (fun c t => w.owner c t = me) ran w.hub h) (hw : w.Inv) :
    Hears me w (w.move me h) := by
  refine (hq.acts hw).binds_of hw id (fun l _ hunused c hc hl => ?_) fun c _ _ hfresh => ⟨?_, ?_⟩
  · exact hunused c (Nat.lt_of_lt_of_eq hc hq.clients) ((hq.link c).symm.trans hl)
  · exact fun hspeaks => hfresh.ran (hw.spoke c (hq.speaks.mp hspeaks))
  · exact hq.said c

theorem Quiet.minds (hq : w.Quiet me h) (hw : w.Inv) : Minds me w h where
  toActs := hq.acts hw
  nobody := hq.clients
  fresh c _ := hq.said c
  answers c r hr := by
    obtain ⟨hsaid, answer, hmem, hagrees⟩ := hr
    have hran := hw.not_ran_of_answers ⟨hsaid, answer, hmem, hagrees⟩
    exact .inl ⟨(hq.said c).trans hsaid, answer, hq.answers c hran _ hmem, hagrees⟩
  speakers s := .inl (hq.speaker s)

theorem Quiet.may (hq : w.Quiet me h) (hw : w.Inv) : w.May me h := ⟨hq.minds hw, hq.speaker⟩

/-- What a task does to a queue in two steps; tickets that it takes in the first are its own. -/
theorem follows_trans (hordered : (w.hub.queue c).Ordered)
    (first : (w.hub.queue c).Follows (fun t => w.owner c t = me) (h.queue c))
    (second : (h.queue c).Follows (fun t => (w.move me h).owner c t = me) (h'.queue c)) :
    (w.hub.queue c).Follows (fun t => w.owner c t = me) (h'.queue c) := by
  refine ⟨Nat.le_trans first.next second.next, fun t ht => ?_, fun t ht hother => ?_,
    fun hordered => second.ordered (first.ordered hordered)⟩
  · exact (second.mem t ht).elim (first.mem t) fun hnew => .inr (Nat.le_trans first.next hnew)
  · refine second.stays t (first.stays t ht hother) fun hmine => hother ?_
    have hissued := hordered.issued t ht
    exact (if_neg fun hnew => absurd hissued (Nat.not_lt_of_le hnew.1)).symm.trans hmine

theorem quiet_trans (hw : w.Inv) (first : w.Quiet me h) (second : (w.move me h).Quiet me h') :
    w.Quiet me h' where
  clients := second.clients.trans first.clients
  links := second.links.trans first.links
  link c := (second.link c).trans (first.link c)
  words l := (second.words l).trans (first.words l)
  speaker s := (second.speaker s).trans (first.speaker s)
  started s hs := first.started s (second.started s hs)
  nextId c := Nat.le_trans (first.nextId c) (second.nextId c)
  answers c hc a ha := second.answers c
    (fun hran => hc (hran.elim id fun hspeaks => hw.spoke c (first.speaks.mp hspeaks))) a
    (first.answers c hc a ha)
  queue c := follows_trans (hw.ordered c) (first.queue c) (second.queue c)

/-- A quiet change after another one in the same step. -/
theorem Minds.quiet (hm : Minds me w h) (hw : w.Inv) (hq : (w.move me h).Quiet me h') :
    Minds me w h' where
  clients := Nat.le_trans hm.clients (Nat.le_of_eq hq.clients.symm)
  links := Nat.le_trans hm.links (Nat.le_of_eq hq.links.symm)
  link c hc := (hq.link c).trans (hm.link c hc)
  newcomer c hc hc' :=
    absurd (Nat.lt_of_lt_of_eq hc' (hq.clients.trans hm.nobody)) (Nat.not_lt_of_le hc)
  silent l hl := (hq.words l).trans (hm.silent l hl)
  said c hc := by
    have hsaid : h'.said c = h.said c := Quiet.said hq c
    rw [hsaid]
    exact hm.said c hc
  speaker s c hs := hm.speaker s c ((hq.speaker s).symm.trans hs)
  single s s' c hs hs' := hm.single s s' c ((hq.speaker s).symm.trans hs)
    ((hq.speaker s').symm.trans hs')
  live c hlive := hm.live c (Quiet.live hq hlive)
  nextId c := Nat.le_trans (hm.nextId c) (hq.nextId c)
  queue c := follows_trans (hw.ordered c) (hm.queue c) (hq.queue c)
  nobody := hq.clients.trans hm.nobody
  fresh c hc := (Quiet.said hq c).trans (hm.fresh c hc)
  answers c r hr := (hm.answers c r hr).imp_left fun ⟨hsaid, answer, hmem, hagrees⟩ =>
    have hran := (hm.inv hw).not_ran_of_answers ⟨hsaid, answer, hmem, hagrees⟩
    ⟨(Quiet.said hq c).trans hsaid, answer, hq.answers c hran _ hmem, hagrees⟩
  speakers s := (hm.speakers s).imp (hq.speaker s).trans (hq.speaker s).trans

/-! ## Words -/

/-- A word is something that the task may say. -/
theorem acts_say (hw : w.Inv) (hc : c < w.hub.clients.length) {m : Message} {link : Link}
    (hm : w.MaySay me c m) (hwords : link.words = w.hub.said c ++ [m]) :
    Acts me w (w.hub.onLink (w.hub.client c).link fun _ => link) ∧
      ∀ d < w.hub.clients.length, d ≠ c →
        (w.hub.onLink (w.hub.client c).link fun _ => link).said d = w.hub.said d := by
  have hlinked := hw.linked c hc
  have hlink : ∀ l, (w.hub.onLink (w.hub.client c).link fun _ => link).link l =
      if (w.hub.client c).link = l ∧ l < w.hub.links.length then link else w.hub.link l :=
    fun l => Hub.link_onLink ..
  have hother : ∀ l, (w.hub.client c).link ≠ l →
      (w.hub.onLink (w.hub.client c).link fun _ => link).link l = w.hub.link l := fun l hne => by
    rw [hlink, if_neg fun heq => hne heq.1]
  have hsaid : ∀ d < w.hub.clients.length, d ≠ c →
      (w.hub.onLink (w.hub.client c).link fun _ => link).said d = w.hub.said d := fun d hd hne =>
    congrArg Link.words (hother _ fun heq => hne (hw.apart d hd c hc heq.symm))
  refine ⟨?_, hsaid⟩
  constructor
  case clients => exact Nat.le_refl _
  case links => exact Nat.le_of_eq (List.length_modify ..).symm
  case link => exact fun _ _ => rfl
  case newcomer => exact fun d hd hd' => absurd hd' (Nat.not_lt_of_le hd)
  case silent => exact fun l hl => congrArg Link.words (hother l (hl c hc))
  case said =>
    intro d hd
    by_cases hd' : d = c
    · subst hd'
      refine .inr ⟨m, hm, Eq.trans ?_ hwords⟩
      exact congrArg Link.words ((hlink _).trans (if_pos ⟨rfl, hlinked⟩))
    · exact .inl (hsaid d hd hd')
  case speaker => exact fun _ _ => .inl
  case single => exact hw.single
  case live => exact fun _ => .inl
  case nextId => exact fun _ => Nat.le_refl _
  case queue => exact fun _ => .refl _

/-- On a client that has run a task may say at any time what it may say at all. -/
theorem may_say (hw : w.Inv) (hran : w.ran c) {m : Message} {link : Link}
    (hm : w.MaySay me c m) (hwords : link.words = w.hub.said c ++ [m]) :
    w.May me (w.hub.onLink (w.hub.client c).link fun _ => link) := by
  obtain ⟨hacts, hsaid⟩ := acts_say hw (hw.known c hran) hm hwords
  refine ⟨⟨hacts, rfl, fun d hfresh => hsaid d hfresh.known ?_, fun d r hr => .inl ?_,
    fun _ => .inl rfl⟩, fun _ => rfl⟩
  · rintro rfl
    exact hfresh.ran hran
  · have hne : d ≠ c := by
      rintro rfl
      exact hw.not_ran_of_answers hr hran
    exact ⟨(hsaid d hr.known hne).trans hr.1, hr.2⟩

/-! ## The custom -/

/-- What tasks do at any time. -/
abbrev custom (me : Nat) : Custom (pact me) where
  does := World.May me
  leaves := World.Quiet me
  hears := Hears me
  does_of_leaves hw hquiet := Quiet.may hquiet hw
  leaves_same _ := .same _
  leaves_trans hw := quiet_trans hw
  stays hw := hw.move_same me
  inv_of_does hw hmay := hmay.1.inv hw
  hears_refl := .refl
  hears_trans := .trans
  hears_of_does hw hmay := hmay.1.hears hw
  hears_of_rely := hears_of_rely
  sound_set hm hmay := hmay.1.sound hm (.inr hmay.2)
  sound_resume := sound_resume

end LanguageHub.Manners
