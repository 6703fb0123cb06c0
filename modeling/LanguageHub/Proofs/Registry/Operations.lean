import LanguageHub.Proofs.Event.Subscribers
import LanguageHub.Registry.Basic

/-!
# Operations on a registry

Whatever is done to a registry, each definition in it stays the same object unless its loss is
announced, and at most one event is announced at a time.
-/

namespace LanguageHub

/-- The id of which all sessions are to go. -/
def RegistryEvent.lost? : RegistryEvent → Option String
  | removed id | replaced id => some id
  | added _ | changed .. => none

namespace Registry

/-- What may be done to a registry. -/
inductive Operation where
  | declare (l : Language)
  | add (d : ServerDefinition)
  | remove (id : String)
  | associate (language : Language) (id : String) (languageId : Option String)
      (matcher : Option DocumentMatcher)
  | update (id : String) (u : DefinitionUpdate)
  | offer (id : String)

/-- The registry after an attempt, which changes nothing when it fails. -/
def attempt (r : Registry) (outcome : Except HubError Registry) : Registry :=
  match outcome with
  | .ok r' => r'
  | .error _ => r

namespace Operation

def apply (r : Registry) : Operation → Registry
  | declare l => r.declareLanguage l
  | add d => r.add d
  | remove id => r.attempt (r.remove id)
  | associate language id languageId matcher =>
    r.attempt (r.associate language id languageId matcher)
  | update id u => r.attempt (r.update id u)
  | offer id => r.registerFactory id

end Operation

/-- Which object is registered under an id. -/
def serial? (r : Registry) (id : String) : Option Nat := (r.find? id).map (·.serial)

/-- One registry comes to be another, and at most this event tells of it. -/
structure Becomes (r : Registry) (announced : Option RegistryEvent) (r' : Registry) : Prop where
  events : r'.events = announced.elim r.events r.events.send
  serials : ∀ id n, r.serial? id = some n →
    r'.serial? id = some n ∨ announced.bind (·.lost?) = some id

variable {r : Registry}

theorem Becomes.refl (r : Registry) : r.Becomes none r := ⟨rfl, fun _ _ h => .inl h⟩

theorem Becomes.of_quiet {r' : Registry} (hevents : r'.events = r.events)
    (hdefinitions : r'.definitions = r.definitions) : r.Becomes none r' where
  events := hevents
  serials id n h := .inl (by rwa [serial?, find?, hdefinitions])

theorem find?_modify (r : Registry) (id : String) (f : ServerDefinition → ServerDefinition)
    (hf : ∀ d, d.id = id → (f d).id = id) (k : String) :
    (r.modify id f).find? k = if k = id then (r.find? k).map f else r.find? k := by
  unfold find? modify
  generalize r.definitions = ds
  induction ds with
  | nil => simp
  | cons d ds ih =>
    rw [List.map_cons, List.find?_cons, List.find?_cons]
    by_cases hd : d.id = id
    · have hfd := hf d hd
      by_cases hk : k = id
      · simp [hd, hk, hfd]
      · have hne : (id == k) = false := by simpa using Ne.symm hk
        simp only [hd, beq_self_eq_true, if_true, hfd, hne]
        exact ih
    · have hkept : (d.id == id) = false := by simpa using hd
      simp only [hkept, Bool.false_eq_true, if_false]
      by_cases hk : d.id = k
      · have hki : k ≠ id := fun heq => hd (hk.trans heq)
        simp [hk, hki]
      · have hother : (d.id == k) = false := by simpa using hk
        simp only [hother]
        exact ih

theorem serial?_modify (r : Registry) (id : String) (f : ServerDefinition → ServerDefinition)
    (hid : ∀ d, (f d).id = d.id) (hserial : ∀ d, (f d).serial = d.serial) (k : String) :
    (r.modify id f).serial? k = r.serial? k := by
  unfold serial?
  rw [find?_modify r id f fun d hd => (hid d).trans hd]
  split
  · cases r.find? k with
    | none => rfl
    | some d => exact congrArg some (hserial d)
  · rfl

/-- What is found under an id has that id. -/
theorem id_of_find? {id : String} {d : ServerDefinition} (h : r.find? id = some d) : d.id = id := by
  simpa using List.find?_some h

theorem id_adopt (r : Registry) (d : ServerDefinition) : (r.adopt d).id = d.id := by
  unfold adopt
  generalize r.associationsFor d.id = associations
  induction associations generalizing d with
  | nil => rfl
  | cons a rest ih =>
    rw [List.foldl_cons, ih]
    unfold ServerDefinition.recordLanguageId
    split <;> rfl

/-! ## Every operation -/

theorem becomes_add (r : Registry) (d : ServerDefinition) : ∃ e, r.Becomes e (r.add d) := by
  have hid : (r.adopt { d with serial := r.nextSerial }).id = d.id := id_adopt r _
  unfold add
  generalize r.adopt { d with serial := r.nextSerial } = d' at hid
  dsimp only
  split
  · rename_i old hold
    refine ⟨some (.replaced d'.id), rfl, fun id n hn => ?_⟩
    by_cases hsame : id = d'.id
    · exact .inr (congrArg some hsame.symm)
    · refine .inl ?_
      rw [← hn]
      have hfind := find?_modify { r with nextSerial := r.nextSerial + 1 } d'.id (fun _ => d')
        (fun _ _ => rfl) id
      rw [if_neg hsame] at hfind
      exact congrArg (Option.map ServerDefinition.serial) hfind
  · refine ⟨some (.added d'.id), rfl, fun id n hn => .inl ?_⟩
    unfold serial? find? at hn ⊢
    obtain ⟨old, hold, hserial⟩ := Option.map_eq_some_iff.mp hn
    simp [emit, List.find?_append, hold, hserial]

theorem becomes_remove (r : Registry) (id : String) :
    ∃ e, r.Becomes e (r.attempt (r.remove id)) := by
  unfold remove
  split
  · exact ⟨none, .refl r⟩
  · refine ⟨some (.removed id), rfl, fun k n hn => ?_⟩
    by_cases hsame : id = k
    · exact .inr (congrArg some hsame)
    · refine .inl ?_
      unfold serial? find? at hn ⊢
      obtain ⟨old, hold, hserial⟩ := Option.map_eq_some_iff.mp hn
      have hkept : (r.definitions.filter (·.id != id)).find? (·.id == k) = some old := by
        rw [List.find?_filter, ← hold]
        congr 1
        funext d
        by_cases hd : d.id = k <;> simp [hd, Ne.symm hsame]
      simp [attempt, emit, hkept, hserial]

theorem becomes_associate (r : Registry) (language : Language) (id : String)
    (languageId : Option String) (matcher : Option DocumentMatcher) :
    r.Becomes none (r.attempt (r.associate language id languageId matcher)) := by
  unfold associate
  split
  · exact .refl r
  · refine ⟨rfl, fun k n hn => .inl ?_⟩
    rw [← hn]
    refine serial?_modify r id _ (fun d => ?_) (fun d => ?_) k <;>
      (unfold ServerDefinition.recordLanguageId; split <;> rfl)

theorem becomes_update (r : Registry) (id : String) (u : DefinitionUpdate) :
    ∃ e, r.Becomes e (r.attempt (r.update id u)) := by
  unfold update
  split
  · exact ⟨none, .refl r⟩
  · rename_i d _
    dsimp only [attempt]
    have hserials : ∀ k, (r.modify id fun d' => { d' with
        settings := (replaceValue d.settings u.settings).1
        initializationOptions :=
          (replaceValue d.initializationOptions u.initializationOptions).1
        enabled := u.enabled.getD d.enabled }).serial? k = r.serial? k :=
      serial?_modify r id _ (fun _ => rfl) fun _ => rfl
    split
    · exact ⟨some _, rfl, fun k n hn => .inl ((hserials k).trans hn)⟩
    · exact ⟨none, rfl, fun k n hn => .inl ((hserials k).trans hn)⟩

/-- A definition stays the same object unless the event tells that it is lost. -/
theorem becomes_apply (r : Registry) (o : Operation) : ∃ e, r.Becomes e (o.apply r) := by
  cases o with
  | declare l => exact ⟨none, .of_quiet rfl rfl⟩
  | add d => exact becomes_add r d
  | remove id => exact becomes_remove r id
  | associate language id languageId matcher => exact ⟨none, becomes_associate r ..⟩
  | update id u => exact becomes_update r id u
  | offer id => exact ⟨none, .of_quiet rfl rfl⟩

/-! ## What is found after every operation -/

theorem find?_add (r : Registry) (d : ServerDefinition) (k : String) :
    (r.add d).find? k =
      if k = d.id then some (r.adopt { d with serial := r.nextSerial }) else r.find? k := by
  have hid : (r.adopt { d with serial := r.nextSerial }).id = d.id := id_adopt r _
  unfold add
  generalize r.adopt { d with serial := r.nextSerial } = d' at hid
  dsimp only
  rw [← hid]
  split
  · rename_i old hold
    refine (find?_modify { r with nextSerial := r.nextSerial + 1 } d'.id (fun _ => d')
      (fun _ _ => rfl) k).trans ?_
    by_cases hk : k = d'.id
    · rw [if_pos hk, if_pos hk, hk, hold]
      rfl
    · rw [if_neg hk, if_neg hk]
      rfl
  · rename_i hnone
    change (r.definitions ++ [d']).find? (·.id == k) = _
    rw [List.find?_append]
    by_cases hk : k = d'.id
    · rw [if_pos hk, hk, show r.definitions.find? (·.id == d'.id) = none from hnone]
      simp
    · rw [if_neg hk]
      simp [find?, Ne.symm hk]

theorem find?_remove {id : String} {r' : Registry} (h : r.remove id = .ok r') (k : String) :
    r'.find? k = if k = id then none else r.find? k := by
  unfold remove at h
  split at h
  · contradiction
  · obtain rfl := Except.ok.inj h
    change (r.definitions.filter (·.id != id)).find? (·.id == k) = _
    rw [List.find?_filter]
    by_cases hk : k = id
    · rw [if_pos hk, List.find?_eq_none]
      simp [hk]
    · rw [if_neg hk]
      refine congrArg (List.find? · r.definitions) (funext fun d => ?_)
      by_cases hd : d.id = k <;> simp [hd, hk]

/-- What an update of `old` makes of a definition. -/
def revised (u : DefinitionUpdate) (old d : ServerDefinition) : ServerDefinition :=
  { d with
    settings := (replaceValue old.settings u.settings).1
    initializationOptions := (replaceValue old.initializationOptions u.initializationOptions).1
    enabled := u.enabled.getD old.enabled }

/-- What an update of a definition tells subscribers. -/
def revision (u : DefinitionUpdate) (id : String) (old : ServerDefinition) :
    Option RegistryEvent :=
  let settings := (replaceValue old.settings u.settings).2
  let options := (replaceValue old.initializationOptions u.initializationOptions).2
  let enabled := u.enabled.getD old.enabled != old.enabled
  if settings || options || enabled then some (.changed id settings options enabled) else none

/-- The registry after it told subscribers of an event, if there is one. -/
def tell (r : Registry) (e : Option RegistryEvent) : Registry := e.elim r r.emit

theorem update_eq_ok_iff {id : String} {u : DefinitionUpdate} {r' : Registry} :
    r.update id u = .ok r' ↔
      ∃ d, r.find? id = some d ∧ r' = (r.modify id (revised u d)).tell (revision u id d) := by
  unfold update
  cases r.find? id with
  | none => simp
  | some d =>
    simp only [Except.ok.injEq, Option.some.injEq, exists_eq_left', revision]
    rw [eq_comm]
    split <;> rfl

theorem update_of_find? {id : String} {u : DefinitionUpdate} {d : ServerDefinition}
    (hd : r.find? id = some d) :
    r.update id u = .ok ((r.modify id (revised u d)).tell (revision u id d)) :=
  update_eq_ok_iff.mpr ⟨d, hd, rfl⟩

/-! ## Which ids are registered -/

/-- The registry after some operations on the empty one. -/
def run (operations : List Operation) : Registry := operations.foldl Operation.apply .empty

theorem run_concat (operations : List Operation) (o : Operation) :
    run (operations ++ [o]) = o.apply (run operations) := by
  simp [run]

/-- What each of the operations preserves holds after all of them. -/
theorem run_induction {P : Registry → Prop} {operations : List Operation} (hempty : P .empty)
    (hstep : ∀ o ∈ operations, ∀ r, P r → P (o.apply r)) : P (run operations) := by
  unfold run
  generalize Registry.empty = r at hempty
  induction operations generalizing r with
  | nil => exact hempty
  | cons o rest ih =>
    exact ih (fun o ho => hstep o (List.mem_cons_of_mem _ ho)) _
      (hstep o List.mem_cons_self r hempty)

def ids (r : Registry) : List String := r.definitions.map (·.id)

theorem find?_eq_none_iff {id : String} : r.find? id = none ↔ id ∉ r.ids := by
  simp [find?, ids]

theorem mem_ids_of_find? {id : String} {d : ServerDefinition} (h : r.find? id = some d) :
    id ∈ r.ids := by
  refine Decidable.by_contra fun hid => ?_
  rw [find?_eq_none_iff.mpr hid] at h
  contradiction

theorem exists_find? {id : String} (hid : id ∈ r.ids) : ∃ d, r.find? id = some d :=
  Option.ne_none_iff_exists'.mp fun h => find?_eq_none_iff.mp h hid

theorem find?_of_mem (hr : r.ids.Nodup) {d : ServerDefinition} (hd : d ∈ r.definitions) :
    r.find? d.id = some d := by
  unfold ids at hr
  unfold find?
  generalize r.definitions = ds at hr hd
  induction ds with
  | nil => contradiction
  | cons e ds ih =>
    rw [List.map_cons, List.nodup_cons] at hr
    rcases List.mem_cons.mp hd with rfl | hd
    · simp
    · have hne : e.id ≠ d.id := fun h => hr.1 (h ▸ List.mem_map_of_mem hd)
      rw [List.find?_cons_of_neg (by simpa using hne)]
      exact ih hr.2 hd

theorem ids_modify (r : Registry) (id : String) (f : ServerDefinition → ServerDefinition)
    (hf : ∀ d, d.id = id → (f d).id = id) : (r.modify id f).ids = r.ids := by
  unfold ids modify
  rw [List.map_map]
  refine List.map_congr_left fun d _ => ?_
  by_cases hd : d.id = id
  · simp [hd, hf d hd]
  · simp [hd]

theorem ids_tell (r : Registry) (e : Option RegistryEvent) : (r.tell e).ids = r.ids := by
  cases e <;> rfl

/-- A definition comes last, unless it takes the place of another one. -/
theorem ids_add (r : Registry) (d : ServerDefinition) :
    (r.add d).ids = if d.id ∈ r.ids then r.ids else r.ids ++ [d.id] := by
  have hid : (r.adopt { d with serial := r.nextSerial }).id = d.id := id_adopt r _
  unfold add
  generalize r.adopt { d with serial := r.nextSerial } = d' at hid
  dsimp only
  rw [← hid]
  split
  · rename_i old hold
    rw [if_pos (mem_ids_of_find? (r := r) hold)]
    exact ids_modify { r with nextSerial := r.nextSerial + 1 } d'.id (fun _ => d') fun _ _ => rfl
  · rename_i hnone
    rw [if_neg (find?_eq_none_iff (r := r).mp hnone)]
    exact List.map_append

theorem ids_remove {id : String} {r' : Registry} (h : r.remove id = .ok r') :
    r'.ids = r.ids.filter (· != id) := by
  unfold remove at h
  split at h
  · contradiction
  · obtain rfl := Except.ok.inj h
    exact (List.filter_map (p := (· != id)) (f := ServerDefinition.id) (l := r.definitions)).symm

theorem id_recordLanguageId (d : ServerDefinition) (l : Language) (languageId : String) :
    (d.recordLanguageId l languageId).id = d.id := by
  unfold ServerDefinition.recordLanguageId
  split <;> rfl

theorem ids_associate {l : Language} {id : String} {languageId : Option String}
    {matcher : Option DocumentMatcher} {r' : Registry}
    (h : r.associate l id languageId matcher = .ok r') : r'.ids = r.ids := by
  unfold associate at h
  split at h
  · contradiction
  · obtain rfl := Except.ok.inj h
    exact ids_modify r id _ fun d hd => (id_recordLanguageId d ..).trans hd

theorem ids_update {id : String} {u : DefinitionUpdate} {r' : Registry}
    (h : r.update id u = .ok r') : r'.ids = r.ids := by
  obtain ⟨d, -, rfl⟩ := update_eq_ok_iff.mp h
  rw [ids_tell]
  exact ids_modify r id _ fun _ hd => hd

theorem nodup_ids_apply (hr : r.ids.Nodup) (o : Operation) : (o.apply r).ids.Nodup := by
  cases o with
  | declare l => exact hr
  | offer id => exact hr
  | add d =>
    rw [Operation.apply, ids_add]
    split
    · exact hr
    · rename_i hd
      exact List.nodup_append.mpr ⟨hr, by simp, by grind⟩
  | remove id =>
    cases h : r.remove id with
    | error f => simpa [Operation.apply, attempt, h] using hr
    | ok r' =>
      simp only [Operation.apply, attempt, h, ids_remove h]
      exact hr.filter _
  | associate l id languageId matcher =>
    cases h : r.associate l id languageId matcher with
    | error f => simpa [Operation.apply, attempt, h] using hr
    | ok r' => simpa [Operation.apply, attempt, h, ids_associate h] using hr
  | update id u =>
    cases h : r.update id u with
    | error f => simpa [Operation.apply, attempt, h] using hr
    | ok r' => simpa [Operation.apply, attempt, h, ids_update h] using hr

theorem nodup_ids_run (operations : List Operation) : (run operations).ids.Nodup :=
  run_induction (P := fun r => r.ids.Nodup) List.nodup_nil fun o _ _ hr => nodup_ids_apply hr o

end Registry

end LanguageHub

/-!
# Serials

Every definition that is registered gets a new serial, which it keeps while it is changed. So who
remembers the serial of a definition finds none with another id.

Laws: every operation keeps the serials apart.
-/

namespace LanguageHub.Registry

variable {r r' : Registry} {id : String} {d e : ServerDefinition}

/-- Definitions with different ids have different serials, and all of these were given out. -/
structure Numbered (r : Registry) : Prop where
  apart : ∀ d ∈ r.definitions, ∀ e ∈ r.definitions, d.serial = e.serial → d.id = e.id
  issued : ∀ d ∈ r.definitions, d.serial < r.nextSerial

theorem Numbered.id_object? (hr : r.Numbered) (hd : d ∈ r.definitions)
    (he : r.object? d.serial = some e) : e.id = d.id := by
  unfold Registry.object? at he
  rw [List.find?_append] at he
  cases hfind : r.definitions.find? (·.serial == d.serial) with
  | none =>
    have hother := List.find?_eq_none.mp hfind d hd
    simp at hother
  | some e' =>
    rw [hfind] at he
    obtain rfl := Option.some.inj he
    exact hr.apart _ (List.mem_of_find?_eq_some hfind) d hd
      (by simpa using List.find?_some hfind)

/-- Definitions that were there before keep their serials apart. -/
theorem Numbered.of_mem (hr : r.Numbered) (hnext : r'.nextSerial = r.nextSerial)
    (h : ∀ d ∈ r'.definitions, ∃ e ∈ r.definitions, e.id = d.id ∧ e.serial = d.serial) :
    r'.Numbered where
  apart d hd e he hserial := by
    obtain ⟨d', hd', hid, hsame⟩ := h d hd
    obtain ⟨e', he', hid', hsame'⟩ := h e he
    rw [← hid, ← hid']
    exact hr.apart d' hd' e' he' (hsame.trans (hserial.trans hsame'.symm))
  issued d hd := by
    obtain ⟨d', hd', -, hsame⟩ := h d hd
    rw [hnext, ← hsame]
    exact hr.issued d' hd'

theorem Numbered.modify (hr : r.Numbered) {f : ServerDefinition → ServerDefinition}
    (hf : ∀ d, (f d).id = d.id ∧ (f d).serial = d.serial) : (r.modify id f).Numbered := by
  refine hr.of_mem rfl fun d hd => ?_
  obtain ⟨e, he, rfl⟩ := List.mem_map.mp hd
  refine ⟨e, he, ?_⟩
  split
  · exact ⟨(hf e).1.symm, (hf e).2.symm⟩
  · exact ⟨rfl, rfl⟩

theorem serial_recordLanguageId (d : ServerDefinition) (l : Language) (languageId : String) :
    (d.recordLanguageId l languageId).serial = d.serial := by
  unfold ServerDefinition.recordLanguageId
  split <;> rfl

theorem serial_adopt (r : Registry) (d : ServerDefinition) : (r.adopt d).serial = d.serial := by
  unfold adopt
  generalize r.associationsFor d.id = associations
  induction associations generalizing d with
  | nil => rfl
  | cons a rest ih => rw [List.foldl_cons, ih, serial_recordLanguageId]

/-- The definition that is added is the only one with its serial. -/
theorem numbered_of_new (hr : r.Numbered) (hserial : d.serial = r.nextSerial)
    (hnext : r'.nextSerial = r.nextSerial + 1)
    (h : ∀ e ∈ r'.definitions, e = d ∨ e ∈ r.definitions) : r'.Numbered where
  apart e he e' he' hsame := by
    rcases h e he with rfl | hold <;> rcases h e' he' with rfl | hold'
    · rfl
    · exact absurd (hr.issued e' hold') (by omega)
    · exact absurd (hr.issued e hold) (by omega)
    · exact hr.apart e hold e' hold' hsame
  issued e he := by
    rcases h e he with rfl | hold
    · omega
    · have := hr.issued e hold
      omega

theorem numbered_add (hr : r.Numbered) (d : ServerDefinition) : (r.add d).Numbered := by
  have hserial : (r.adopt { d with serial := r.nextSerial }).serial = r.nextSerial :=
    serial_adopt r _
  unfold add
  generalize r.adopt { d with serial := r.nextSerial } = d' at hserial
  dsimp only
  split
  · refine numbered_of_new hr hserial rfl fun e he => ?_
    obtain ⟨e', he', rfl⟩ := List.mem_map.mp he
    split
    · exact .inl rfl
    · exact .inr he'
  · refine numbered_of_new hr hserial rfl fun e he => ?_
    rcases List.mem_append.mp he with hold | hnew
    · exact .inr hold
    · exact .inl (List.mem_singleton.mp hnew)

theorem numbered_remove (hr : r.Numbered) (h : r.remove id = .ok r') : r'.Numbered := by
  unfold remove at h
  split at h
  · contradiction
  · obtain rfl := Except.ok.inj h
    exact hr.of_mem rfl fun d hd => ⟨d, (List.mem_filter.mp hd).1, rfl, rfl⟩

theorem numbered_associate {l : Language} {languageId : Option String}
    {matcher : Option DocumentMatcher} (hr : r.Numbered)
    (h : r.associate l id languageId matcher = .ok r') : r'.Numbered := by
  unfold associate at h
  split at h
  · contradiction
  · obtain rfl := Except.ok.inj h
    have hmodified : (r.modify id (·.recordLanguageId l (languageId.getD l.id))).Numbered :=
      hr.modify fun d => ⟨id_recordLanguageId d .., serial_recordLanguageId d ..⟩
    exact ⟨hmodified.apart, hmodified.issued⟩

theorem numbered_update {u : DefinitionUpdate} (hr : r.Numbered) (h : r.update id u = .ok r') :
    r'.Numbered := by
  obtain ⟨d, -, rfl⟩ := update_eq_ok_iff.mp h
  have hmodified : (r.modify id (revised u d)).Numbered := hr.modify fun _ => ⟨rfl, rfl⟩
  cases revision u id d <;> exact ⟨hmodified.apart, hmodified.issued⟩

theorem numbered_apply (hr : r.Numbered) (o : Operation) : (o.apply r).Numbered := by
  have hattempt : ∀ outcome, (∀ r', outcome = .ok r' → r'.Numbered) →
      (r.attempt outcome).Numbered := fun outcome h => by
    cases outcome with
    | error f => exact hr
    | ok r' => exact h r' rfl
  cases o with
  | declare l => exact ⟨hr.apart, hr.issued⟩
  | offer id => exact ⟨hr.apart, hr.issued⟩
  | add d => exact numbered_add hr d
  | remove id => exact hattempt _ fun _ => numbered_remove hr
  | associate l id languageId matcher => exact hattempt _ fun _ => numbered_associate hr
  | update id u => exact hattempt _ fun _ => numbered_update hr

theorem numbered_run (operations : List Operation) : (run operations).Numbered :=
  run_induction (P := Numbered) ⟨nofun, nofun⟩ fun o _ _ hr => numbered_apply hr o

end LanguageHub.Registry
