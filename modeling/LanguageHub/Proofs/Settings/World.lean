import LanguageHub.Proofs.Manners.World
import LanguageHub.Proofs.Registry.Operations
import LanguageHub.Proofs.Routine.Leg
import LanguageHub.Proofs.Settings.Telling

/-!
# What servers know of the settings

Whoever tells a server the settings has read them in the turn in which it came for the client's
queue. So what is told last was read last, and it was right at some date since then. The dates are
those of the registry: it announces whatever changes, and counts what it announces.

Laws: what time brings is reflexive and transitive.
-/

namespace LanguageHub

/-- How many changes the registry has announced. -/
def Hub.date (h : Hub) : Nat := h.registry.events.sent

namespace Briefing

/-- What proofs remember: the settings of each definition at each date, the date at which a ticket
was given out, and which task brought a session to run on a client, and when. -/
structure World where
  manners : Manners.World
  /-- The date at which the run began. -/
  since : Nat
  past : Nat → Nat → Option Json
  dated : Nat → Nat → Nat
  began : Nat → Nat → Nat → Nat → Prop

namespace World

def hub (w : World) : Hub := w.manners.hub

def date (w : World) : Nat := w.hub.date

/-- The world once a task has brought the hub to this. -/
def move (me : Nat) (w : World) (h : Hub) : World where
  manners := w.manners.move me h
  since := w.since
  past e := if e = h.date then h.settingsOf else w.past e
  dated c t := if (w.hub.queue c).next ≤ t ∧ t < (h.queue c).next then h.date else w.dated c t
  began s c id x := w.began s c id x ∨ h.Runs s c ∧ ¬ w.hub.Runs s c ∧ id = me ∧ x = h.date

variable (w : World)

/-- What the client was told last is what the settings were at a date since this one, and whoever
stands in its queue came since then. -/
structure Heard (c x : Nat) : Prop where
  told : ∃ e v, x ≤ e ∧ e ≤ w.date ∧ w.past e (w.hub.client c).definition = some v ∧
    w.hub.told? c = some v
  queue : ∀ t ∈ (w.hub.queue c).tickets, x ≤ w.dated c t

/-- There were no settings to be told at some date since this one. -/
def Void (c x : Nat) : Prop :=
  ∃ e, x ≤ e ∧ e ≤ w.date ∧ w.past e (w.hub.client c).definition = none

/-- The client has been told the settings since this date, as far as that was possible. -/
def Briefed (c x : Nat) : Prop := w.Heard c x ∨ w.hub.IsDeaf c ∨ w.Void c x

/-- So it is with the client of the session, or the session began to run on it since then. -/
def Reached (s x : Nat) : Prop :=
  ∀ c, w.hub.Runs s c → w.Briefed c x ∨ ∃ id y, w.began s c id y ∧ x ≤ y

/-- The task has told every client the settings on which it brought a session to run. -/
def Clean (me : Nat) : Prop := ∀ s c x, w.began s c me x → w.Briefed c x

/-- The client is for the definition of the session. -/
structure Fits (s c : Nat) : Prop where
  session : s < w.hub.sessions.length
  client : c < w.hub.clients.length
  definition : (w.hub.client c).definition = (w.hub.session s).definition

/-- An event tells of a change of settings, and of which definition's. -/
def Heralds (e : Nat) (event : RegistryEvent) : Prop :=
  ∃ id, event = .changed id true false false ∧
    ∀ n, w.past e n ≠ w.past (e + 1) n → ∃ d, w.hub.registry.object? n = some d ∧ d.id = id

/-- What is remembered agrees with the hub. -/
structure Records : Prop where
  since : w.since ≤ w.date
  past : w.past w.date = w.hub.settingsOf
  began : ∀ s c, w.hub.Runs s c → ∃ id x, w.began s c id x ∧ w.since ≤ x
  known : ∀ s c id x, w.began s c id x → c < w.hub.clients.length
  fits : ∀ s c, w.hub.Runs s c → w.Fits s c
  dated : ∀ c, ∀ t < (w.hub.queue c).next, w.dated c t ≤ w.date
  order : ∀ c t t', t ≤ t' → t' < (w.hub.queue c).next → w.dated c t ≤ w.dated c t'
  enrolled : ∀ s ∈ w.hub.roster, s < w.hub.sessions.length
  registered : ∀ s ∈ w.hub.roster, ∀ d,
    w.hub.registry.object? (w.hub.session s).definition = some d →
      d.id = (w.hub.session s).serverId
  distinct : w.hub.registry.ids.Nodup
  numbered : w.hub.registry.Numbered
  sound : w.hub.registry.events.IsSound
  heralds : ∀ e event rest, w.since ≤ e → w.hub.registry.events.oldest ≤ e →
    w.hub.registry.events.ahead e = event :: rest → w.Heralds e event

variable {w} {c x y : Nat}

theorem Heard.mono (h : w.Heard c y) (hle : x ≤ y) : w.Heard c x where
  told := by
    obtain ⟨e, v, hy, hrest⟩ := h.told
    exact ⟨e, v, Nat.le_trans hle hy, hrest⟩
  queue t ht := Nat.le_trans hle (h.queue t ht)

theorem Briefed.mono (h : w.Briefed c y) (hle : x ≤ y) : w.Briefed c x := by
  rcases h with hheard | hdeaf | ⟨e, hy, hrest⟩
  · exact .inl (hheard.mono hle)
  · exact .inr (.inl hdeaf)
  · exact .inr (.inr ⟨e, Nat.le_trans hle hy, hrest⟩)

end World

/-! ## What time brings -/

structure Later (w w' : World) : Prop where
  date : w.date ≤ w'.date
  since : w'.since = w.since
  past : ∀ e ≤ w.date, w'.past e = w.past e
  next : ∀ c, (w.hub.queue c).next ≤ (w'.hub.queue c).next
  dated : ∀ c, ∀ t < (w.hub.queue c).next, w'.dated c t = w.dated c t
  began : ∀ s c id x, w.began s c id x → w'.began s c id x
  sessions : w.hub.sessions.length ≤ w'.hub.sessions.length
  identity : ∀ s < w.hub.sessions.length,
    (w'.hub.session s).identity = (w.hub.session s).identity
  roster : ∀ s ∈ w'.hub.roster, s ∈ w.hub.roster ∨ w.hub.sessions.length ≤ s
  runs : ∀ s c, w'.hub.Runs s c →
    w.hub.Runs s c ∨ ∃ id x, w'.began s c id x ∧ w.date ≤ x
  clients : w.hub.clients.length ≤ w'.hub.clients.length
  definition : ∀ c < w.hub.clients.length,
    (w'.hub.client c).definition = (w.hub.client c).definition
  heard : ∀ c < w.hub.clients.length, ∀ x, w.Heard c x → w'.Heard c x
  deaf : ∀ c < w.hub.clients.length, w.hub.IsDeaf c → w'.hub.IsDeaf c

variable {w w' w'' : World} {c s x : Nat}

namespace Later

theorem refl (w : World) : Later w w where
  date := Nat.le_refl _
  since := rfl
  past _ _ := rfl
  next _ := Nat.le_refl _
  dated _ _ _ := rfl
  began _ _ _ _ := id
  sessions := Nat.le_refl _
  identity _ _ := rfl
  roster _ := .inl
  runs _ _ := .inl
  clients := Nat.le_refl _
  definition _ _ := rfl
  heard _ _ _ := id
  deaf _ _ := id

theorem trans (first : Later w w') (second : Later w' w'') : Later w w'' where
  date := Nat.le_trans first.date second.date
  since := second.since.trans first.since
  past e he := (second.past e (Nat.le_trans he first.date)).trans (first.past e he)
  next c := Nat.le_trans (first.next c) (second.next c)
  dated c t ht := (second.dated c t (Nat.lt_of_lt_of_le ht (first.next c))).trans
    (first.dated c t ht)
  began s c id x h := second.began s c id x (first.began s c id x h)
  sessions := Nat.le_trans first.sessions second.sessions
  identity s hs := (second.identity s (Nat.lt_of_lt_of_le hs first.sessions)).trans
    (first.identity s hs)
  roster s hs := (second.roster s hs).elim (first.roster s) fun hnew =>
    .inr (Nat.le_trans first.sessions hnew)
  runs s c hruns := by
    rcases second.runs s c hruns with hruns' | ⟨id, x, hbegan, hx⟩
    · exact (first.runs s c hruns').imp_right fun ⟨id, x, hbegan, hx⟩ =>
        ⟨id, x, second.began s c id x hbegan, hx⟩
    · exact .inr ⟨id, x, hbegan, Nat.le_trans first.date hx⟩
  clients := Nat.le_trans first.clients second.clients
  definition c hc := (second.definition c (Nat.lt_of_lt_of_le hc first.clients)).trans
    (first.definition c hc)
  heard c hc x h := second.heard c (Nat.lt_of_lt_of_le hc first.clients) x (first.heard c hc x h)
  deaf c hc h := second.deaf c (Nat.lt_of_lt_of_le hc first.clients) (first.deaf c hc h)

theorem briefed (hlater : Later w w') (hc : c < w.hub.clients.length) (h : w.Briefed c x) :
    w'.Briefed c x := by
  rcases h with hheard | hdeaf | ⟨e, hx, he, hnone⟩
  · exact .inl (hlater.heard c hc x hheard)
  · exact .inr (.inl (hlater.deaf c hc hdeaf))
  · refine .inr (.inr ⟨e, hx, Nat.le_trans he hlater.date, ?_⟩)
    rw [hlater.definition c hc, hlater.past e he]
    exact hnone

theorem reached (hlater : Later w w') (hw : w.Records) (hx : x ≤ w.date) (h : w.Reached s x) :
    w'.Reached s x := by
  intro c hruns
  rcases hlater.runs s c hruns with hruns | ⟨id, y, hbegan, hy⟩
  · exact (h c hruns).imp (hlater.briefed (hw.fits s c hruns).client) fun ⟨id, y, hbegan, hy⟩ =>
      ⟨id, y, hlater.began s c id y hbegan, hy⟩
  · exact .inr ⟨id, y, hbegan, Nat.le_trans hx hy⟩

theorem definition_session (hlater : Later w w') (hs : s < w.hub.sessions.length) :
    (w'.hub.session s).definition = (w.hub.session s).definition :=
  congrArg (fun i : String × Nat × ScopeKey => i.2.1) (hlater.identity s hs)

theorem fits (hlater : Later w w') (h : w.Fits s c) : w'.Fits s c where
  session := Nat.lt_of_lt_of_le h.session hlater.sessions
  client := Nat.lt_of_lt_of_le h.client hlater.clients
  definition := by
    rw [hlater.definition c h.client, hlater.definition_session h.session, h.definition]

end Later

/-! ## Steps -/

variable {me : Nat} {h : Hub}

theorem move_past (hw : w.Records) (hregistry : h.registry = w.hub.registry) :
    (w.move me h).past = w.past := by
  have hdate : h.date = w.date := congrArg (·.events.sent) hregistry
  have hsettings : h.settingsOf = w.hub.settingsOf := by
    funext n
    rw [Hub.settingsOf, hregistry]
    rfl
  funext e
  change (if e = h.date then h.settingsOf else w.past e) = _
  split
  · rename_i he
    rw [he, hdate, hw.past, hsettings]
  · rfl

theorem move_dated {t : Nat} (ht : t < (w.hub.queue c).next) :
    (w.move me h).dated c t = w.dated c t :=
  if_neg fun hnew => absurd ht (Nat.not_lt_of_le hnew.1)

theorem move_dated_new {t : Nat} (ht : (w.hub.queue c).next ≤ t) (ht' : t < (h.queue c).next) :
    (w.move me h).dated c t = h.date :=
  if_pos ⟨ht, ht'⟩

/-- Whoever tells a client the settings stands in its queue, and they were so when it came. -/
def Says (w : World) (h : Hub) : Prop :=
  ∀ c < w.hub.clients.length, h.told? c = w.hub.told? c ∨
    ∃ t v, t ∈ (w.hub.queue c).tickets ∧ t < (w.hub.queue c).next ∧
      w.past (w.dated c t) (w.hub.client c).definition = some v ∧ h.told? c = some v

theorem heard_move (hw : w.Records) (hgo : w.hub.Proceeds h) (hsaid : Says w h)
    (hc : c < w.hub.clients.length) (hheard : w.Heard c x) : (w.move me h).Heard c x := by
  have hdate : h.date = w.date := congrArg (·.events.sent) hgo.registry
  obtain ⟨e, v, hx, he, hpast, htold⟩ := hheard.told
  refine ⟨?_, fun t ht => ?_⟩
  · rw [move_past hw hgo.registry]
    change ∃ e v, x ≤ e ∧ e ≤ h.date ∧ w.past e (h.client c).definition = some v ∧
      h.told? c = some v
    rw [hdate, hgo.definition c hc]
    rcases hsaid c hc with hsame | ⟨t, v', hmem, ht, hpast', htold'⟩
    · exact ⟨e, v, hx, he, hpast, hsame.trans htold⟩
    · exact ⟨_, v', hheard.queue t hmem, hw.dated c t ht, hpast', htold'⟩
  · rcases hgo.entered c t ht with hmem | ⟨hnext, hissued⟩
    · change x ≤ if (w.hub.queue c).next ≤ t ∧ t < (h.queue c).next then h.date else w.dated c t
      split
      · rw [hdate]
        exact Nat.le_trans hx he
      · exact hheard.queue t hmem
    · rw [move_dated_new hnext hissued, hdate]
      exact Nat.le_trans hx he

theorem later_move (hw : w.Records) (hgo : w.hub.Proceeds h) (hsaid : Says w h) :
    Later w (w.move me h) where
  date := Nat.le_of_eq (congrArg (·.events.sent) hgo.registry).symm
  since := rfl
  past e _ := congrFun (move_past hw hgo.registry) e
  next := hgo.next
  dated _ _ ht := move_dated ht
  began _ _ _ _ := .inl
  sessions := Nat.le_of_eq hgo.sessions.symm
  identity s _ := hgo.identity s
  roster s hs := .inl (hgo.roster ▸ hs)
  runs s c hruns := by
    by_cases hbefore : w.hub.Runs s c
    · exact .inl hbefore
    · exact .inr ⟨me, h.date, .inr ⟨hruns, hbefore, rfl, rfl⟩,
        Nat.le_of_eq (congrArg (·.events.sent) hgo.registry).symm⟩
  clients := hgo.clients
  definition := hgo.definition
  heard _ hc _ := heard_move hw hgo hsaid hc
  deaf _ hc := hgo.deaf hc

theorem fits_proceeds (hgo : w.hub.Proceeds h) (hfits : w.Fits s c) : (w.move me h).Fits s c where
  session := Nat.lt_of_lt_of_eq hfits.session hgo.sessions.symm
  client := Nat.lt_of_lt_of_le hfits.client hgo.clients
  definition := by
    have hsession : (h.session s).definition = (w.hub.session s).definition :=
      congrArg (fun i : String × Nat × ScopeKey => i.2.1) (hgo.identity s)
    exact (hgo.definition c hfits.client).trans (hfits.definition.trans hsession.symm)

/-- What happens leaves a record, when sessions run only on clients for their definitions. -/
theorem records_move (hw : w.Records) (hgo : w.hub.Proceeds h)
    (hruns : ∀ s c, h.Runs s c → w.Fits s c) : (w.move me h).Records := by
  have hdate : h.date = w.date := congrArg (·.events.sent) hgo.registry
  have hpast : (w.move me h).past = w.past := move_past hw hgo.registry
  have hdated : ∀ c, ∀ t < (h.queue c).next, (w.move me h).dated c t ≤ w.date := by
    intro c t ht
    by_cases hold : t < (w.hub.queue c).next
    · rw [move_dated hold]
      exact hw.dated c t hold
    · exact Nat.le_of_eq ((move_dated_new (Nat.le_of_not_lt hold) ht).trans hdate)
  constructor
  case since => exact Nat.le_trans hw.since (Nat.le_of_eq hdate.symm)
  case past => exact if_pos rfl
  case began =>
    intro s c hnow
    by_cases hbefore : w.hub.Runs s c
    · obtain ⟨id, x, hbegan, hx⟩ := hw.began s c hbefore
      exact ⟨id, x, .inl hbegan, hx⟩
    · exact ⟨me, h.date, .inr ⟨hnow, hbefore, rfl, rfl⟩,
        Nat.le_trans hw.since (Nat.le_of_eq hdate.symm)⟩
  case known =>
    rintro s c id x (hbegan | ⟨hnow, -⟩)
    · exact Nat.lt_of_lt_of_le (hw.known s c id x hbegan) hgo.clients
    · exact Nat.lt_of_lt_of_le (hruns s c hnow).client hgo.clients
  case fits => exact fun s c hnow => fits_proceeds hgo (hruns s c hnow)
  case dated =>
    intro c t ht
    exact Nat.le_trans (hdated c t ht) (Nat.le_of_eq hdate.symm)
  case order =>
    intro c t t' hle ht'
    by_cases hold : t' < (w.hub.queue c).next
    · rw [move_dated hold, move_dated (Nat.lt_of_le_of_lt hle hold)]
      exact hw.order c t t' hle hold
    · have hnew : (w.move me h).dated c t' = h.date :=
        move_dated_new (Nat.le_of_not_lt hold) ht'
      rw [hnew, hdate]
      exact hdated c t (Nat.lt_of_le_of_lt hle ht')
  case enrolled =>
    intro s hs
    exact Nat.lt_of_lt_of_eq (hw.enrolled s (hgo.roster ▸ hs)) hgo.sessions.symm
  case registered =>
    intro s hs d hd
    have hid : (h.session s).serverId = (w.hub.session s).serverId :=
      congrArg Prod.fst (hgo.identity s)
    have hdefinition : (h.session s).definition = (w.hub.session s).definition :=
      congrArg (fun i : String × Nat × ScopeKey => i.2.1) (hgo.identity s)
    change h.registry.object? (h.session s).definition = some d at hd
    rw [hgo.registry, hdefinition] at hd
    exact (hw.registered s (hgo.roster ▸ hs) d hd).trans hid.symm
  case distinct =>
    change h.registry.ids.Nodup
    rw [hgo.registry]
    exact hw.distinct
  case numbered =>
    change h.registry.Numbered
    rw [hgo.registry]
    exact hw.numbered
  case sound =>
    change h.registry.events.IsSound
    rw [hgo.registry]
    exact hw.sound
  case heralds =>
    intro e event rest hsince holdest hahead
    change h.registry.events.oldest ≤ e at holdest
    change h.registry.events.ahead e = event :: rest at hahead
    rw [hgo.registry] at holdest hahead
    obtain ⟨id, hevent, hchanged⟩ := hw.heralds e event rest hsince holdest hahead
    refine ⟨id, hevent, fun n hn => ?_⟩
    rw [hpast] at hn
    change ∃ d, h.registry.object? n = some d ∧ d.id = id
    rw [hgo.registry]
    exact hchanged n hn

end Briefing

end LanguageHub
