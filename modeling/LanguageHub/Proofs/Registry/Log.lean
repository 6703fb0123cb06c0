import LanguageHub.Proofs.Registry.Operations

/-!
# The log of a registry

What a registry announces tells all that was done to its definitions. A subscriber that was there
from the start and loses nothing hears the log of the operations, and who retells what it heard has
the ids of the definitions in their order.
-/

namespace LanguageHub

/-! ## Equal values -/

theorem JsonNumber.same_self (n : JsonNumber) : n.same n = true := by
  cases n <;> simp [JsonNumber.same, Binary64.sameNumber]

namespace Json

mutual
theorem same_self : ∀ v : Json, v.same v = true
  | .null => rfl
  | .bool _ | .str _ => by simp [same]
  | .num n => n.same_self
  | .arr items => sameItems_self items
  | .obj fields => sameFields_self fields

theorem sameItems_self : ∀ vs : List Json, sameItems vs vs = true
  | [] => rfl
  | v :: vs => by simp [sameItems, same_self v, sameItems_self vs]

theorem sameFields_self : ∀ vs : List (String × Json), sameFields vs vs = true
  | [] => rfl
  | (_, v) :: vs => by simp [sameFields, same_self v, sameFields_self vs]
end

end Json

namespace Registry

variable {r : Registry}

theorem not_differs_self (old : Option Json) : (old != old) = false := by
  cases old with
  | none => rfl
  | some v => exact congrArg (!·) v.same_self

/-- A new value counts as a change when it is another one than before. -/
theorem replaceValue_snd (old update : Option Json) :
    (replaceValue old update).2 = (old != (replaceValue old update).1) := by
  cases update with
  | none => exact (not_differs_self old).symm
  | some value =>
    have hdiffers : differs old value = (old != cleared value) := by
      unfold differs
      cases old <;> cases cleared value <;> rfl
    unfold replaceValue
    dsimp only
    cases hd : differs old value with
    | true => simpa [hd] using hdiffers
    | false => simpa using (not_differs_self old).symm

/-! ## What is announced -/

/-- What an operation returns. -/
def Operation.outcome (r : Registry) : Operation → Except HubError Registry
  | declare l => .ok (r.declareLanguage l)
  | add d => .ok (r.add d)
  | remove id => r.remove id
  | associate language id languageId matcher => r.associate language id languageId matcher
  | update id u => r.update id u
  | offer id => .ok (r.registerFactory id)

theorem Operation.apply_eq_attempt (r : Registry) (o : Operation) :
    o.apply r = r.attempt (o.outcome r) := by
  cases o <;> rfl

/-- The event of a definition that may have changed, by what is different about it. A definition
can come with null for a value, and that is not the same as none. -/
def changeOf? (before after : ServerDefinition) : Option RegistryEvent :=
  let settings := before.settings != after.settings
  let options := before.initializationOptions != after.initializationOptions
  let enabled := before.enabled != after.enabled
  if settings || options || enabled then some (.changed before.id settings options enabled)
  else none

/-- What subscribers are to be told of an operation. -/
def Operation.announcement (r : Registry) (o : Operation) : Option RegistryEvent :=
  match o with
  | declare _ | associate .. | offer _ => none
  | add d => if d.id ∈ r.ids then some (.replaced d.id) else some (.added d.id)
  | remove id => if id ∈ r.ids then some (.removed id) else none
  | update id _ => do changeOf? (← r.find? id) (← (o.apply r).find? id)

theorem remove_eq_error (r : Registry) {id : String} (hid : id ∉ r.ids) :
    r.remove id = .error (.definitionNotFound id) := by
  unfold remove
  rw [find?_eq_none_iff.mpr hid]

theorem update_eq_error (r : Registry) {id : String} {u : DefinitionUpdate} (hid : id ∉ r.ids) :
    r.update id u = .error (.definitionNotFound id) := by
  unfold update
  rw [find?_eq_none_iff.mpr hid]

theorem associate_eq_error (r : Registry) {l : Language} {id : String}
    {languageId : Option String} {matcher : Option DocumentMatcher} (hid : id ∉ r.ids) :
    r.associate l id languageId matcher = .error (.definitionNotFound id) := by
  unfold associate
  rw [find?_eq_none_iff.mpr hid]

theorem events_add (r : Registry) (d : ServerDefinition) :
    (r.add d).events =
      r.events.send (if d.id ∈ r.ids then .replaced d.id else .added d.id) := by
  have hid : (r.adopt { d with serial := r.nextSerial }).id = d.id := id_adopt r _
  unfold add
  generalize r.adopt { d with serial := r.nextSerial } = d' at hid
  dsimp only
  rw [← hid]
  split
  · rename_i old hold
    rw [if_pos (mem_ids_of_find? (r := r) hold)]
    rfl
  · rename_i hnone
    rw [if_neg (find?_eq_none_iff (r := r).mp hnone)]
    rfl

theorem revision_eq (u : DefinitionUpdate) {id : String} {d : ServerDefinition} (hd : d.id = id) :
    revision u id d = changeOf? d (revised u d d) := by
  unfold revision changeOf? revised
  rw [replaceValue_snd, replaceValue_snd, bne_comm (a := u.enabled.getD d.enabled), hd]

theorem find?_update {id : String} {u : DefinitionUpdate} {d : ServerDefinition}
    (hd : r.find? id = some d) :
    ((Operation.update id u).apply r).find? id = some (revised u d d) := by
  have hmodified : (r.modify id (revised u d)).find? id = some (revised u d d) := by
    rw [find?_modify r id (revised u d) fun _ hd => hd, if_pos rfl, hd]
    rfl
  rw [Operation.apply, update_of_find? hd]
  cases revision u id d <;> exact hmodified

/-- Exactly what there is to tell is told. -/
theorem events_apply (r : Registry) (o : Operation) :
    (o.apply r).events = (o.announcement r).elim r.events r.events.send := by
  cases o with
  | declare l => rfl
  | offer id => rfl
  | add d =>
    rw [Operation.apply, events_add, Operation.announcement]
    split <;> rfl
  | remove id =>
    rw [Operation.announcement]
    split
    · rename_i hid
      obtain ⟨old, hold⟩ := exists_find? hid
      simp [Operation.apply, attempt, remove, hold, emit]
    · rename_i hid
      simp [Operation.apply, attempt, remove_eq_error r hid]
  | associate l id languageId matcher =>
    rw [Operation.apply, Operation.announcement]
    unfold associate
    split <;> rfl
  | update id u =>
    cases hd : r.find? id with
    | none =>
      rw [Operation.apply, update_eq_error r (find?_eq_none_iff.mp hd), Operation.announcement, hd]
      rfl
    | some d =>
      rw [Operation.announcement, hd, find?_update hd]
      change _ = (changeOf? d (revised u d d)).elim _ _
      rw [← revision_eq u (id_of_find? hd), Operation.apply, update_of_find? hd]
      cases revision u id d <;> rfl

theorem isSound_run (operations : List Operation) : (run operations).events.IsSound := by
  refine run_induction (P := fun r => r.events.IsSound) (Nat.zero_le _) fun o _ r hr => ?_
  rw [events_apply]
  cases o.announcement r with
  | none => exact hr
  | some e => exact hr.send e

/-- Nothing is told of an operation that fails. -/
theorem announcement_eq_none {o : Operation} {f : HubError} (hf : o.outcome r = .error f) :
    o.announcement r = none := by
  cases o with
  | declare l | add d | offer id => contradiction
  | associate l id languageId matcher => rfl
  | remove id =>
    refine if_neg fun hid => ?_
    obtain ⟨old, hold⟩ := exists_find? hid
    simp [Operation.outcome, remove, hold] at hf
  | update id u =>
    cases hd : r.find? id with
    | none => simp [Operation.announcement, hd]
    | some d =>
      rw [Operation.outcome, update_of_find? hd] at hf
      contradiction

/-! ## Retelling -/

end Registry

/-- The ids after an event, which only an event that fits them has. -/
def RegistryEvent.retell? (ids : List String) : RegistryEvent → Option (List String)
  | added id => if id ∈ ids then none else some (ids ++ [id])
  | replaced id | changed id .. => if id ∈ ids then some ids else none
  | removed id => if id ∈ ids then some (ids.filter (· != id)) else none

/-- The ids after several events. -/
def RegistryEvent.retellAll? (es : List RegistryEvent) : Option (List String) :=
  es.foldlM RegistryEvent.retell? []

namespace Registry

variable {r : Registry}

theorem retell_changeOf? {d d' : ServerDefinition} (hd : d.id ∈ r.ids) :
    (changeOf? d d').elim (some r.ids) (·.retell? r.ids) = some r.ids := by
  unfold changeOf?
  dsimp only
  split
  · exact if_pos hd
  · rfl

/-- What is told of an operation fits the ids before it and gives those after it. -/
theorem retell_announcement (r : Registry) (o : Operation) :
    (o.announcement r).elim (some r.ids) (·.retell? r.ids) = some (o.apply r).ids := by
  cases o with
  | declare l => rfl
  | offer id => rfl
  | add d =>
    rw [Operation.apply, Operation.announcement, ids_add]
    split
    · rename_i hid
      exact if_pos hid
    · rename_i hid
      exact if_neg hid
  | remove id =>
    rw [Operation.announcement]
    by_cases hid : id ∈ r.ids
    · obtain ⟨old, hold⟩ := exists_find? hid
      obtain ⟨r', hr'⟩ : ∃ r', r.remove id = .ok r' := by simp [remove, hold]
      rw [if_pos hid, Operation.apply, hr', attempt, ids_remove hr']
      exact if_pos hid
    · rw [if_neg hid, Operation.apply, remove_eq_error r hid]
      rfl
  | associate l id languageId matcher =>
    cases h : r.associate l id languageId matcher with
    | error f => simp [Operation.announcement, Operation.apply, attempt, h]
    | ok r' => simp [Operation.announcement, Operation.apply, attempt, h, ids_associate h]
  | update id u =>
    have hids : ((Operation.update id u).apply r).ids = r.ids := by
      cases h : r.update id u with
      | error f => simp [Operation.apply, attempt, h]
      | ok r' => simp [Operation.apply, attempt, h, ids_update h]
    rw [hids, Operation.announcement]
    cases hd : r.find? id with
    | none => rfl
    | some d =>
      rw [find?_update hd]
      exact retell_changeOf? (by rw [id_of_find? hd]; exact mem_ids_of_find? hd)

/-- What is told of several operations, one after the other. -/
def log (r : Registry) : List Operation → List RegistryEvent
  | [] => []
  | o :: rest => (o.announcement r).toList ++ log (o.apply r) rest

theorem log_concat (r : Registry) (operations : List Operation) (o : Operation) :
    r.log (operations ++ [o]) =
      r.log operations ++ (o.announcement (operations.foldl Operation.apply r)).toList := by
  induction operations generalizing r with
  | nil => simp [log]
  | cons o' rest ih => simp [log, ih]

theorem retell_log (r : Registry) (operations : List Operation) :
    (r.log operations).foldlM RegistryEvent.retell? r.ids =
      some (operations.foldl Operation.apply r).ids := by
  induction operations generalizing r with
  | nil => rfl
  | cons o rest ih =>
    have hfirst : (o.announcement r).toList.foldlM RegistryEvent.retell? r.ids =
        some (o.apply r).ids := by
      rw [← retell_announcement r o]
      cases o.announcement r <;> simp
    rw [log, List.foldlM_append, hfirst]
    exact ih _

/-! ## A subscriber -/

/-- On one thread, operations are made and a subscriber takes what comes next. -/
inductive Step where
  | operate (o : Operation)
  | receive

def Step.operation? : Step → Option Operation
  | operate o => some o
  | receive => none

/-- A registry, and how far a subscriber is. -/
structure Listening where
  registry : Registry
  cursor : Nat
  heard : List RegistryEvent
  /-- How many events are gone that the subscriber never heard. -/
  missed : Nat

namespace Listening

def start : Listening := ⟨.empty, 0, [], 0⟩

def after (s : Listening) : Step → Listening
  | .operate o => { s with registry := o.apply s.registry }
  | .receive =>
    match s.registry.events.receive s.cursor with
    | (.item e, cursor) => { s with cursor, heard := s.heard ++ [e] }
    | (.lagged n, cursor) => { s with cursor, missed := s.missed + n }
    | (.empty, cursor) => { s with cursor }

def run (steps : List Step) : Listening := steps.foldl after start

/-- Where a subscriber is that lost nothing so far: what it heard and what is ahead of it is the
log. When the rest of what is ahead gets lost, what it heard stays a part of the log. -/
structure Follows (s : Listening) (operations : List Operation) : Prop where
  registry : s.registry = Registry.run operations
  sound : s.registry.events.IsSound
  cursor : s.cursor ≤ s.registry.events.sent
  heard : s.heard <+: Registry.empty.log operations
  ahead : s.registry.events.oldest ≤ s.cursor →
    s.heard ++ s.registry.events.ahead s.cursor = Registry.empty.log operations

variable {s : Listening} {operations : List Operation}

theorem Follows.operate (hs : s.Follows operations) (o : Operation) :
    (s.after (.operate o)).Follows (operations ++ [o]) := by
  obtain ⟨r, cursor, heard, missed⟩ := s
  obtain rfl : r = Registry.run operations := hs.registry
  have hlog : Registry.empty.log (operations ++ [o]) =
      Registry.empty.log operations ++ (o.announcement (Registry.run operations)).toList :=
    log_concat .empty operations o
  have hevents := events_apply (Registry.run operations) o
  cases ha : o.announcement (Registry.run operations) with
  | none =>
    rw [ha] at hlog hevents
    change (o.apply (Registry.run operations)).events = (Registry.run operations).events at hevents
    rw [Option.toList_none, List.append_nil] at hlog
    constructor
    case registry => exact (run_concat operations o).symm
    all_goals simp only [after, hevents, hlog]
    case sound => exact hs.sound
    case cursor => exact hs.cursor
    case heard => exact hs.heard
    case ahead => exact hs.ahead
  | some e =>
    rw [ha] at hlog hevents
    change (o.apply (Registry.run operations)).events =
      (Registry.run operations).events.send e at hevents
    rw [Option.toList_some] at hlog
    constructor
    case registry => exact (run_concat operations o).symm
    all_goals simp only [after, hevents, hlog]
    case sound => exact hs.sound.send e
    case cursor => exact Nat.le_succ_of_le hs.cursor
    case heard => exact hs.heard.trans (List.prefix_append _ _)
    case ahead =>
      intro hkept
      have hearlier := Nat.le_trans (Broadcast.oldest_le_send hs.sound e) hkept
      rw [← hs.ahead hearlier, Broadcast.ahead_send hs.sound hs.cursor hkept, List.append_assoc]

theorem Follows.receive (hs : s.Follows operations)
    (hkept : (s.after .receive).missed = s.missed) : (s.after .receive).Follows operations := by
  by_cases hlagged : s.cursor < s.registry.events.oldest
  · -- Something is lost, so the count of what is missed goes up.
    simp only [after, Broadcast.receive, if_pos hlagged] at hkept
    omega
  have holdest := Nat.le_of_not_lt hlagged
  have hlog := hs.ahead holdest
  have hnext := Broadcast.receive_of_kept holdest
  cases hahead : s.registry.events.ahead s.cursor with
  | nil =>
    rw [hahead] at hnext
    simpa only [after, hnext] using hs
  | cons e rest =>
    have hsucc := Broadcast.ahead_succ holdest
    rw [hahead] at hnext hsucc hlog
    simp only [after, hnext]
    refine ⟨hs.registry, hs.sound, Broadcast.lt_sent_of_ahead hs.sound holdest hahead, ?_,
      fun _ => ?_⟩
    · exact ⟨rest, by simpa using hlog⟩
    · simpa [hsucc] using hlog

theorem missed_after (s : Listening) (step : Step) : s.missed ≤ (s.after step).missed := by
  cases step with
  | operate o => exact Nat.le_refl _
  | receive =>
    unfold after
    dsimp only
    split
    · exact Nat.le_refl _
    · exact Nat.le_add_right _ _
    · exact Nat.le_refl _

theorem missed_foldl (s : Listening) (steps : List Step) :
    s.missed ≤ (steps.foldl after s).missed := by
  induction steps generalizing s with
  | nil => exact Nat.le_refl _
  | cons step rest ih => exact Nat.le_trans (missed_after s step) (ih _)

/-- As long as nothing is missed, a subscriber follows the operations. -/
theorem Follows.foldl {steps : List Step} (hs : s.Follows operations) (hzero : s.missed = 0)
    (hmissed : (steps.foldl after s).missed = 0) :
    (steps.foldl after s).Follows (operations ++ steps.filterMap Step.operation?) := by
  induction steps generalizing s operations with
  | nil => simpa using hs
  | cons step rest ih =>
    have hnext : (s.after step).missed = 0 :=
      Nat.eq_zero_of_le_zero (hmissed ▸ missed_foldl (s.after step) rest)
    cases step with
    | operate o => simpa [Step.operation?] using ih (hs.operate o) hnext hmissed
    | receive => exact ih (hs.receive (hnext.trans hzero.symm)) hnext hmissed

theorem follows_start : start.Follows [] where
  registry := rfl
  sound := Nat.le_refl 0
  cursor := Nat.le_refl 0
  heard := List.nil_prefix
  ahead _ := rfl

theorem follows_run {steps : List Step} (hmissed : (run steps).missed = 0) :
    (run steps).Follows (steps.filterMap Step.operation?) := by
  simpa [run] using follows_start.foldl rfl hmissed

/-- The events that are heard are part of what there is to tell of the operations, each of them fits
those before it, and after the last one they tell which definitions there are and in which order.
An operation that fails changes nothing, and nothing is told of it. -/
theorem heard_eq_log {steps : List Step} (hmissed : (run steps).missed = 0) :
    let s := run steps
    let operations := steps.filterMap Step.operation?
    s.registry = Registry.run operations ∧
    s.heard <+: Registry.empty.log operations ∧
    (∃ ids, RegistryEvent.retellAll? s.heard = some ids) ∧
    (s.cursor = s.registry.events.sent →
      s.heard = Registry.empty.log operations ∧
      RegistryEvent.retellAll? s.heard = some (s.registry.definitions.map (·.id))) ∧
    ∀ (o : Operation) (f : HubError), o.outcome s.registry = .error f →
      o.apply s.registry = s.registry ∧ o.announcement s.registry = none := by
  intro s operations
  have hs : s.Follows operations := follows_run hmissed
  have hretold : (Registry.empty.log operations).foldlM RegistryEvent.retell? [] =
      some s.registry.ids := by
    rw [hs.registry]
    exact retell_log .empty operations
  refine ⟨hs.registry, hs.heard, ?_, fun hcaught => ?_, fun o f hf => ?_⟩
  · obtain ⟨rest, hrest⟩ := hs.heard
    rw [← hrest, List.foldlM_append] at hretold
    obtain ⟨ids, hids, -⟩ := Option.bind_eq_some_iff.mp hretold
    exact ⟨ids, hids⟩
  · have hahead := hs.ahead (hcaught ▸ Nat.sub_le _ _)
    rw [hcaught, Broadcast.ahead_sent hs.sound, List.append_nil] at hahead
    refine ⟨hahead, ?_⟩
    rw [RegistryEvent.retellAll?, hahead]
    exact hretold
  · have hsame : o.apply s.registry = s.registry := by
      rw [Operation.apply_eq_attempt, hf]
      rfl
    exact ⟨hsame, announcement_eq_none hf⟩

/-- An update that sets what is there already is not told, nor one of what is not there. -/
theorem heard_of_updates :
    let settings : DefinitionUpdate := ⟨some (.str "fast"), none, none⟩
    let steps : List Step :=
      [.operate (.add (.new "py" .factory)), .operate (.update "py" settings), .receive,
        .operate (.update "py" settings), .operate (.update "rs" settings), .receive,
        .operate (.update "py" ⟨some .null, some .null, some false⟩), .receive]
    (run steps).missed = 0 ∧ (run steps).cursor = (run steps).registry.events.sent ∧
    (run steps).heard =
      [.added "py", .changed "py" true false false, .changed "py" true false true] := by
  intro settings steps
  have hmissed : (run steps).missed = 0 := by decide +kernel
  have hcaught : (run steps).cursor = (run steps).registry.events.sent := by decide +kernel
  obtain ⟨-, -, -, hall, -⟩ := heard_eq_log hmissed
  refine ⟨hmissed, hcaught, (hall hcaught).1.trans ?_⟩
  decide +kernel

end Listening

end Registry

end LanguageHub
