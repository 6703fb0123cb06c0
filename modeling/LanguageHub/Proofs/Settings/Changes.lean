import LanguageHub.Proofs.Hub.Following
import LanguageHub.Proofs.Manners.Changes
import LanguageHub.Proofs.Registry.Log
import LanguageHub.Proofs.Registry.Matching
import LanguageHub.Proofs.Settings.Pacts
import LanguageHub.Proofs.Settings.World

/-!
# What comes from outside

Settings are set, changed and cleared, and sessions come on the roster. Neither tells a server
anything: what was told before is still so, and the watcher hears of the rest.
-/

/-!
## New settings

An update that has to do with settings only is announced when it changes them, and then it changes
those of one id. What was remembered before still holds.

Laws: an update keeps the id and the serial of every definition.
-/

namespace LanguageHub

namespace Registry

variable {r : Registry} {id : String} {u : DefinitionUpdate} {n : Nat}

theorem object?_modify (r : Registry) (id : String) (f : ServerDefinition → ServerDefinition)
    (hserial : ∀ d, (f d).serial = d.serial) (n : Nat) :
    (r.modify id f).object? n = (r.definitions.find? (·.serial == n)).elim
      (r.retired.find? (·.serial == n)) fun d => some (if d.id == id then f d else d) := by
  have hsame : ((fun d : ServerDefinition => d.serial == n) ∘
      fun d => if d.id == id then f d else d) = fun d => d.serial == n := by
    funext d
    simp only [Function.comp_apply]
    split
    · rw [hserial]
    · rfl
  unfold object? modify
  rw [List.find?_append, List.find?_map, hsame]
  cases r.definitions.find? (·.serial == n) <;> rfl

theorem object?_eq (r : Registry) (n : Nat) : r.object? n =
    (r.definitions.find? (·.serial == n)).elim (r.retired.find? (·.serial == n)) some := by
  unfold object?
  rw [List.find?_append]
  cases r.definitions.find? (·.serial == n) <;> rfl

@[simp] theorem object?_tell (r : Registry) (e : Option RegistryEvent) (n : Nat) :
    (r.tell e).object? n = r.object? n := by
  cases e <;> rfl

/-- Whose settings change, and what is announced of it. -/
structure Resets (id : String) (r r' : Registry) : Prop where
  ids : ∀ n, (r'.object? n).map (·.id) = (r.object? n).map (·.id)
  distinct : r'.ids = r.ids
  events : r'.events = r.events ∧ (∀ n, (r'.object? n).bind (·.settings) =
      (r.object? n).bind (·.settings)) ∨
    r'.events = r.events.send (.changed id true false false) ∧
      ∀ n, (r'.object? n).bind (·.settings) ≠ (r.object? n).bind (·.settings) →
        (r'.object? n).map (·.id) = some id

theorem Resets.refl (id : String) (r : Registry) : Resets id r r :=
  ⟨fun _ => rfl, rfl, .inl ⟨rfl, fun _ => rfl⟩⟩

theorem replaceValue_fst {old update : Option Json} (h : (replaceValue old update).2 = false) :
    (replaceValue old update).1 = old := by
  unfold replaceValue at h ⊢
  cases update with
  | none => rfl
  | some value =>
    dsimp only at h ⊢
    split at h
    · cases h
    · rename_i hsame
      rw [if_neg hsame]

/-- An update of settings only is announced when it changes them. -/
theorem revision_settings (settings : Option Json) (id : String) (d : ServerDefinition) :
    revision ⟨settings, none, none⟩ id d =
      if (replaceValue d.settings settings).2 then some (.changed id true false false)
      else none := by
  unfold revision
  cases (replaceValue d.settings settings).2 <;> simp [replaceValue]

theorem resets_revised (hr : r.ids.Nodup) {d : ServerDefinition} (hd : r.find? id = some d)
    (settings : Option Json) :
    Resets id r ((r.modify id (revised ⟨settings, none, none⟩ d)).tell
      (revision ⟨settings, none, none⟩ id d)) := by
  have hobject : ∀ n, ((r.modify id (revised ⟨settings, none, none⟩ d)).tell
      (revision ⟨settings, none, none⟩ id d)).object? n =
        (r.definitions.find? (·.serial == n)).elim (r.retired.find? (·.serial == n))
          fun x => some (if x.id == id then revised ⟨settings, none, none⟩ d x else x) := fun n =>
    (object?_tell ..).trans (object?_modify r id (revised _ d) (fun _ => rfl) n)
  refine ⟨fun n => ?_, ?_, ?_⟩
  · rw [hobject, object?_eq]
    cases r.definitions.find? (·.serial == n) with
    | none => rfl
    | some x =>
      simp only [Option.elim_some, Option.map_some, Option.some.injEq]
      split <;> rfl
  · exact (ids_tell ..).trans (ids_modify r id (revised _ d) fun _ hd => hd)
  · have hrevision := revision_settings settings id d
    cases hchanged : (replaceValue d.settings settings).2 with
    | false =>
      rw [hchanged] at hrevision
      refine .inl ⟨by rw [hrevision]; rfl, fun n => ?_⟩
      rw [hobject, object?_eq]
      cases hx : r.definitions.find? (·.serial == n) with
      | none => rfl
      | some x =>
        simp only [Option.elim_some, Option.bind_some]
        split
        · -- There is only one definition with the id, so its settings are put back.
          rename_i hid
          have hsame := find?_of_mem hr (List.mem_of_find?_eq_some hx)
          rw [eq_of_beq hid, hd] at hsame
          obtain rfl := Option.some.inj hsame
          exact replaceValue_fst hchanged
        · rfl
    | true =>
      rw [hchanged] at hrevision
      refine .inr ⟨by rw [hrevision]; rfl, fun n hn => ?_⟩
      rw [hobject, object?_eq] at hn
      rw [hobject]
      cases hx : r.definitions.find? (·.serial == n) with
      | none =>
        rw [hx] at hn
        exact absurd rfl hn
      | some x =>
        rw [hx] at hn
        simp only [Option.elim_some, Option.bind_some, Option.map_some, Option.some.injEq] at hn ⊢
        split at hn
        · rename_i hid
          rw [if_pos hid]
          exact eq_of_beq hid
        · exact absurd rfl hn

theorem resets_update (hr : r.ids.Nodup) (id : String) (settings : Option Json) :
    Resets id r ((Operation.update id ⟨settings, none, none⟩).apply r) := by
  cases hfind : r.find? id with
  | none =>
    rw [Operation.apply, update_eq_error r (find?_eq_none_iff.mp hfind)]
    exact .refl id r
  | some d =>
    rw [Operation.apply, update_of_find? hfind]
    exact resets_revised hr hfind settings

end Registry

/-! ### The hub -/

namespace Briefing

open Registry (Resets)

variable {me : Nat} {id : String} {w : World} {r : Registry}

/-- The hub with this registry. -/
abbrev resetTo (r : Registry) (h : Hub) : Hub := { h with registry := r }

theorem date_resetTo (hresets : Resets id w.hub.registry r) :
    w.date ≤ r.events.sent ∧ (r.events.sent = w.date →
      (resetTo r w.hub).settingsOf = w.hub.settingsOf) := by
  rcases hresets.events with ⟨hevents, hsame⟩ | ⟨hevents, -⟩
  · exact ⟨Nat.le_of_eq (congrArg (·.sent) hevents).symm, fun _ => funext hsame⟩
  · have hsent : r.events.sent = w.date + 1 := congrArg (·.sent) hevents
    exact ⟨by omega, fun heq => by omega⟩

/-- The past is as it was. -/
theorem past_resetTo (hw : w.Records) (hresets : Resets id w.hub.registry r) {e : Nat}
    (he : e ≤ w.date) : (w.move me (resetTo r w.hub)).past e = w.past e := by
  obtain ⟨hdate, hsame⟩ := date_resetTo hresets
  change (if e = r.events.sent then (resetTo r w.hub).settingsOf else w.past e) = _
  split
  · rename_i heq
    have hnow : r.events.sent = w.date := Nat.le_antisymm (heq ▸ he) hdate
    rw [hsame hnow, heq, hnow, hw.past]
  · rfl

theorem dated_resetTo (c t : Nat) : (w.move me (resetTo r w.hub)).dated c t = w.dated c t :=
  if_neg fun hnew => absurd hnew.2 (Nat.not_lt_of_le hnew.1)

theorem began_resetTo {s c i x : Nat} (h : (w.move me (resetTo r w.hub)).began s c i x) :
    w.began s c i x :=
  h.resolve_right fun hnew => hnew.2.1 hnew.1

theorem later_resetTo (hw : w.Records) (hresets : Resets id w.hub.registry r) :
    Later w (w.move me (resetTo r w.hub)) where
  date := (date_resetTo hresets).1
  since := rfl
  past _ he := past_resetTo hw hresets he
  next _ := Nat.le_refl _
  dated c t _ := dated_resetTo c t
  began _ _ _ _ := .inl
  sessions := Nat.le_refl _
  identity _ _ := rfl
  roster _ := .inl
  runs _ _ := .inl
  clients := Nat.le_refl _
  definition _ _ := rfl
  heard c _ x hheard := by
    obtain ⟨e, v, hx, he, hpast, htold⟩ := hheard.told
    refine ⟨⟨e, v, hx, Nat.le_trans he (date_resetTo hresets).1, ?_, htold⟩, fun t ht => ?_⟩
    · rw [past_resetTo hw hresets he]
      exact hpast
    · rw [dated_resetTo]
      exact hheard.queue t ht
  deaf _ _ h := h

theorem records_resetTo (hw : w.Records) (hresets : Resets id w.hub.registry r)
    (hnumbered : r.Numbered) : (w.move me (resetTo r w.hub)).Records := by
  have hdate := (date_resetTo hresets).1
  have hobject : ∀ {n : Nat} {d : ServerDefinition} {k : String},
      w.hub.registry.object? n = some d → d.id = k →
        ∃ d', r.object? n = some d' ∧ d'.id = k := fun {n d k} hd hk => by
    have hid := hresets.ids n
    rw [hd, Option.map_some, hk] at hid
    exact Option.map_eq_some_iff.mp hid
  constructor
  case since => exact Nat.le_trans hw.since hdate
  case past => exact if_pos rfl
  case began =>
    intro s c hruns
    obtain ⟨i, x, hbegan, hx⟩ := hw.began s c hruns
    exact ⟨i, x, .inl hbegan, hx⟩
  case known => exact fun s c i x hbegan => hw.known s c i x (began_resetTo hbegan)
  case fits => exact fun s c hruns => (later_resetTo hw hresets).fits (hw.fits s c hruns)
  case dated =>
    intro c t ht
    rw [dated_resetTo]
    exact Nat.le_trans (hw.dated c t ht) hdate
  case order =>
    intro c t t' hle ht'
    rw [dated_resetTo, dated_resetTo]
    exact hw.order c t t' hle ht'
  case enrolled => exact hw.enrolled
  case registered =>
    intro s hs d hd
    have hid := hresets.ids (w.hub.session s).definition
    have hd' : r.object? (w.hub.session s).definition = some d := hd
    rw [hd'] at hid
    obtain ⟨d', hbefore, hsame⟩ := Option.map_eq_some_iff.mp hid.symm
    exact hsame.symm.trans (hw.registered s hs d' hbefore)
  case distinct => exact hresets.distinct ▸ hw.distinct
  case numbered => exact hnumbered
  case sound =>
    rcases hresets.events with ⟨hevents, -⟩ | ⟨hevents, -⟩
    · exact hevents ▸ hw.sound
    · exact hevents ▸ hw.sound.send _
  case heralds =>
    intro e event rest hsince holdest hahead
    change r.events.oldest ≤ e at holdest
    change r.events.ahead e = event :: rest at hahead
    -- What was announced before tells of what happened before.
    have hearlier : ∀ rest', w.hub.registry.events.oldest ≤ e →
        w.hub.registry.events.ahead e = event :: rest' →
          (w.move me (resetTo r w.hub)).Heralds e event := by
      intro rest' hkept hbefore
      have he : e < w.date := Broadcast.lt_sent_of_ahead hw.sound hkept hbefore
      obtain ⟨k, hevent, hchanged⟩ := hw.heralds e event rest' hsince hkept hbefore
      refine ⟨k, hevent, fun n hn => ?_⟩
      rw [past_resetTo hw hresets (Nat.le_of_lt he), past_resetTo hw hresets he] at hn
      obtain ⟨d, hd, hk⟩ := hchanged n hn
      exact hobject hd hk
    rcases hresets.events with ⟨hevents, -⟩ | ⟨hevents, hchanged⟩
    · rw [hevents] at holdest hahead
      exact hearlier rest holdest hahead
    · rw [hevents] at holdest hahead
      have hkept := Nat.le_trans (Broadcast.oldest_le_send hw.sound _) holdest
      have hsent := Broadcast.lt_sent_of_ahead (hw.sound.send _) holdest hahead
      have hle : e ≤ w.date := Nat.le_of_lt_succ hsent
      have happend := Broadcast.ahead_send hw.sound hle holdest
      rw [hahead] at happend
      cases hbefore : w.hub.registry.events.ahead e with
      | cons a rest' =>
        rw [hbefore, List.cons_append, List.cons.injEq] at happend
        exact hearlier rest' hkept (happend.1 ▸ hbefore)
      | nil =>
        rw [hbefore, List.nil_append, List.cons.injEq] at happend
        have he : e = w.date :=
          Nat.le_antisymm hle (Broadcast.sent_le_of_ahead hw.sound hkept hbefore)
        refine ⟨id, happend.1, fun n hn => ?_⟩
        have hnow : (w.move me (resetTo r w.hub)).past (e + 1) = (resetTo r w.hub).settingsOf := by
          refine if_pos ?_
          rw [he]
          exact (congrArg (·.sent) hevents).symm
        rw [past_resetTo hw hresets hle, hnow, he, hw.past] at hn
        exact Option.map_eq_some_iff.mp (hchanged n hn.symm)

end Briefing

end LanguageHub

/-!
## Sessions that come on the roster

Routing a document makes the sessions that it needs. A new session is for a definition that is
registered, and it does not run, so nobody has anything to tell it yet.

Laws: what happens to sessions that were there before is nothing.
-/

namespace LanguageHub

namespace Hub

variable {h h' h'' : Hub} {s : Nat}

/-- New sessions come on the roster, each for a definition with the id that it bears. -/
structure Admits (h h' : Hub) : Prop where
  registry : h'.registry = h.registry
  clients : h'.clients = h.clients
  links : h'.links = h.links
  locks : h'.locks = h.locks
  sessions : h.sessions.length ≤ h'.sessions.length
  old : ∀ s < h.sessions.length, h'.session s = h.session s
  idle : ∀ s, h.sessions.length ≤ s →
    (h'.session s).running = none ∧ (h'.session s).state ≠ .started
  roster : ∀ s ∈ h'.roster, s ∈ h.roster ∨ h.sessions.length ≤ s ∧ s < h'.sessions.length ∧
    ∀ d, h.registry.object? (h'.session s).definition = some d → d.id = (h'.session s).serverId

namespace Admits

theorem refl (h : Hub) : h.Admits h where
  registry := rfl
  clients := rfl
  links := rfl
  locks := rfl
  sessions := Nat.le_refl _
  old _ _ := rfl
  idle s hs := by
    rw [session, List.getElem?_eq_none hs]
    exact ⟨rfl, by decide⟩
  roster _ := .inl

theorem trans (first : h.Admits h') (second : h'.Admits h'') : h.Admits h'' where
  registry := second.registry.trans first.registry
  clients := second.clients.trans first.clients
  links := second.links.trans first.links
  locks := second.locks.trans first.locks
  sessions := Nat.le_trans first.sessions second.sessions
  old s hs := (second.old s (Nat.lt_of_lt_of_le hs first.sessions)).trans (first.old s hs)
  idle s hs := by
    by_cases hnew : s < h'.sessions.length
    · rw [second.old s hnew]
      exact first.idle s hs
    · exact second.idle s (Nat.le_of_not_lt hnew)
  roster s hs := by
    rcases second.roster s hs with hbefore | ⟨hlong, hshort, hid⟩
    · refine (first.roster s hbefore).imp_right fun ⟨hlong, hshort, hid⟩ => ?_
      rw [second.old s hshort]
      exact ⟨hlong, Nat.lt_of_lt_of_le hshort second.sessions, hid⟩
    · rw [first.registry] at hid
      exact .inr ⟨Nat.le_trans first.sessions hlong, hshort, hid⟩

end Admits

theorem admits_sessionFor {d : ServerDefinition} (path : String)
    (hd : ∀ d', h.registry.object? d.serial = some d' → d'.id = d.id) :
    h.Admits (sessionFor d path h).2 := by
  unfold sessionFor
  dsimp only
  split
  · exact .refl h
  · constructor
    case registry => rfl
    case clients => rfl
    case links => rfl
    case locks => rfl
    case sessions => simp
    case old =>
      intro s hs
      rw [session, List.getElem?_append_left hs]
      rfl
    case idle =>
      intro s hs
      rcases Nat.lt_or_eq_of_le hs with hlong | rfl
      · rw [session, List.getElem?_eq_none (by rw [List.length_append]; exact hlong)]
        exact ⟨rfl, by decide⟩
      · rw [session, List.getElem?_concat_length]
        exact ⟨rfl, fun hstarted => by cases hstarted⟩
    case roster =>
      intro s hs
      rcases List.mem_append.mp hs with hold | hnew
      · exact .inl hold
      · obtain rfl := List.mem_singleton.mp hnew
        refine .inr ⟨Nat.le_refl _, by simp, fun d' hd' => ?_⟩
        rw [session, List.getElem?_concat_length] at hd' ⊢
        exact hd d' hd'

theorem admits_sessionsForAll (path : String) {ds : List ServerDefinition}
    (hds : ∀ d ∈ ds, ∀ d', h.registry.object? d.serial = some d' → d'.id = d.id) :
    h.Admits (sessionsForAll path ds h).2 := by
  induction ds generalizing h with
  | nil => exact .refl h
  | cons d ds ih =>
    rw [List.forall_mem_cons] at hds
    have hfirst := admits_sessionFor path hds.1
    exact hfirst.trans (ih (hfirst.registry ▸ hds.2))

theorem admits_sessionsFor (document : DocumentRef) (hr : h.registry.ids.Nodup)
    (hnumbered : h.registry.Numbered) : h.Admits (sessionsFor document h).2 :=
  admits_sessionsForAll _ fun _ hd _ => hnumbered.id_object?
    ((Registry.mem_definitionsFor hr).mp hd).1

end Hub

namespace Briefing

open Hub (Admits)

variable {me : Nat} {w : World} {h : Hub} {s c t : Nat}

theorem speaker_admits (hadmits : w.hub.Admits h) (s : Nat) : h.speaker s = w.hub.speaker s := by
  by_cases hs : s < w.hub.sessions.length
  · rw [Hub.speaker, hadmits.old s hs]
    rfl
  · have hnew := Nat.le_of_not_lt hs
    rw [Hub.speaker, Hub.speaker, (hadmits.idle s hnew).1, ((Admits.refl w.hub).idle s hnew).1]

theorem started_admits (hadmits : w.hub.Admits h) (hs : (h.session s).state = .started) :
    (w.hub.session s).state = .started := by
  by_cases hold : s < w.hub.sessions.length
  · rwa [← hadmits.old s hold]
  · exact absurd hs (hadmits.idle s (Nat.le_of_not_lt hold)).2

theorem runs_admits (hadmits : w.hub.Admits h) (hruns : h.Runs s c) : w.hub.Runs s c := by
  obtain ⟨hstate, hspeaker⟩ := Hub.runs_iff.mp hruns
  exact Hub.runs_iff.mpr ⟨started_admits hadmits hstate, (speaker_admits hadmits s) ▸ hspeaker⟩

theorem quiet_admits {mine : Nat → Nat → Prop} {ran : Nat → Prop} (hadmits : w.hub.Admits h) :
    Manners.Quiet mine ran w.hub h := by
  have hsame : Manners.Quiet mine ran w.hub { h with sessions := w.hub.sessions } :=
    .of_eq hadmits.clients hadmits.links rfl hadmits.locks
  exact { hsame with
    speaker := speaker_admits hadmits
    started := fun _ => started_admits hadmits }

/-! ### The world -/

/-- The hub before, with whatever else has become of it. -/
theorem mutes_admits (hadmits : w.hub.Admits h) :
    w.hub.Mutes { h with sessions := w.hub.sessions, roster := w.hub.roster } :=
  .of_eq hadmits.registry rfl rfl hadmits.clients hadmits.links hadmits.locks

theorem began_admits {id x : Nat} (hadmits : w.hub.Admits h)
    (hbegan : (w.move me h).began s c id x) : w.began s c id x :=
  hbegan.resolve_right fun hnew => hnew.2.1 (runs_admits hadmits hnew.1)

theorem later_admits (hw : w.Records) (hadmits : w.hub.Admits h) : Later w (w.move me h) := by
  have hmutes := mutes_admits hadmits
  have hsame : Later w (w.move me _) := later_move hw hmutes.toProceeds fun _ hc =>
    .inl (hmutes.told_client hc)
  exact { hsame with
    began := fun _ _ _ _ => .inl
    sessions := hadmits.sessions
    identity := fun s hs => congrArg Session.identity (hadmits.old s hs)
    roster := fun s hs => (hadmits.roster s hs).imp_right And.left
    runs := fun _ _ hruns => .inl (runs_admits hadmits hruns)
    heard := fun c hc x hheard =>
      have hnow := hsame.heard c hc x hheard
      ⟨hnow.told, hnow.queue⟩ }

theorem records_admits (hw : w.Records) (hadmits : w.hub.Admits h) :
    (w.move me h).Records := by
  have hmutes := mutes_admits hadmits
  have hsame : (w.move me _).Records := records_move hw hmutes.toProceeds fun s c hruns =>
    hw.fits s c (hmutes.runs hruns)
  refine { hsame with
    began := ?began, known := ?known, fits := ?fits, enrolled := ?enrolled
    registered := ?registered }
  case began =>
    intro s c hruns
    obtain ⟨id, x, hbegan, hx⟩ := hw.began s c (runs_admits hadmits hruns)
    exact ⟨id, x, .inl hbegan, hx⟩
  case known =>
    exact fun s c id x hbegan => hsame.known s c id x (.inl (began_admits hadmits hbegan))
  case fits =>
    exact fun s c hruns => (later_admits hw hadmits).fits (hw.fits s c (runs_admits hadmits hruns))
  case enrolled =>
    intro s hs
    rcases hadmits.roster s hs with hold | ⟨-, hnew, -⟩
    · exact Nat.lt_of_lt_of_le (hw.enrolled s hold) hadmits.sessions
    · exact hnew
  case registered =>
    intro s hs d hd
    change h.registry.object? (h.session s).definition = some d at hd
    rw [hadmits.registry] at hd
    change d.id = (h.session s).serverId
    rcases hadmits.roster s hs with hold | ⟨-, -, hnew⟩
    · rw [hadmits.old s (hw.enrolled s hold)] at hd ⊢
      exact hw.registered s hold d hd
    · exact hnew d hd

end Briefing

end LanguageHub
