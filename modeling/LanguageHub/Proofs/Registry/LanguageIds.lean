import LanguageHub.Proofs.Registry.Operations

/-!
# Language ids and associations

Each definition keeps a table of the ids that its server has for languages, while the associations
of all definitions stand in one list. The table is filled when an association is registered and when
a definition takes over those of the one that it replaces; it always says what the first association
for the language says.
-/

namespace LanguageHub

/-- The first id of two that is recorded for a language stays. -/
theorem ServerDefinition.lookup_recordLanguageId (d : ServerDefinition) (l : Language)
    (languageId x : String) :
    List.lookup x (d.recordLanguageId l languageId).languageIds =
      (List.lookup x d.languageIds).or (if l.id = x then some languageId else none) := by
  have hcopy : List.lookup x [(l.id, languageId)] = if l.id = x then some languageId else none := by
    by_cases hx : l.id = x
    · simp [hx]
    · have hother : (x == l.id) = false := by simpa using Ne.symm hx
      simp [List.lookup_cons, hother, hx]
  unfold recordLanguageId
  split
  · rename_i found hfound
    by_cases hx : l.id = x
    · simp [← hx, hfound]
    · simp [hx]
  · rw [List.lookup_append, hcopy]

namespace Registry

variable {r : Registry}

/-- What the first of some associations says that lets a definition serve a language. -/
def firstLanguageId (associations : List LanguageAssociation) (id language : String) :
    Option String :=
  (associations.find? fun a => a.definitionId == id && a.language.id == language).map (·.languageId)

/-- A definition comes to a registry with nothing in its table. -/
def Operation.BringsNew : Operation → Prop
  | add d => d.languageIds = []
  | _ => True

/-- Associations and tables agree. -/
structure IsCoherent (r : Registry) : Prop where
  registered : ∀ a ∈ r.associations, a.definitionId ∈ r.ids
  recorded : ∀ {id : String} {d : ServerDefinition}, r.find? id = some d →
    ∀ x, List.lookup x d.languageIds = firstLanguageId r.associations id x

theorem lookup_foldl_record (associations : List LanguageAssociation) (d : ServerDefinition)
    (x : String) :
    List.lookup x (associations.foldl
        (fun d a => d.recordLanguageId a.language a.languageId) d).languageIds =
      (List.lookup x d.languageIds).or
        ((associations.find? (·.language.id == x)).map (·.languageId)) := by
  induction associations generalizing d with
  | nil => simp
  | cons a rest ih =>
    rw [List.foldl_cons, ih, ServerDefinition.lookup_recordLanguageId, Option.or_assoc]
    by_cases hx : a.language.id = x <;> simp [hx]

theorem lookup_adopt (r : Registry) {d : ServerDefinition} (hd : d.languageIds = []) (x : String) :
    List.lookup x (r.adopt d).languageIds = firstLanguageId r.associations d.id x := by
  unfold adopt associationsFor firstLanguageId
  rw [lookup_foldl_record, hd, List.find?_filter]
  simp only [List.lookup_nil, Option.none_or, Bool.decide_and, Bool.decide_eq_true]

theorem associations_add (r : Registry) (d : ServerDefinition) :
    (r.add d).associations = r.associations := by
  unfold add
  dsimp only
  split <;> rfl

/-! ## Every operation -/

theorem IsCoherent.add (hr : r.IsCoherent) {d : ServerDefinition} (hd : d.languageIds = []) :
    (r.add d).IsCoherent where
  registered a ha := by
    rw [associations_add] at ha
    rw [ids_add]
    split
    · exact hr.registered a ha
    · exact List.mem_append_left _ (hr.registered a ha)
  recorded {id e} he x := by
    rw [find?_add] at he
    rw [associations_add]
    split at he
    · rename_i hid
      obtain rfl := Option.some.inj he
      rw [hid]
      exact lookup_adopt r (d := { d with serial := r.nextSerial }) hd x
    · exact hr.recorded he x

/-- What is left of the associations is all that there is for other definitions. -/
theorem firstLanguageId_filter {associations : List LanguageAssociation} {id k : String}
    (hk : k ≠ id) (x : String) :
    firstLanguageId (associations.filter (·.definitionId != id)) k x =
      firstLanguageId associations k x := by
  unfold firstLanguageId
  rw [List.find?_filter]
  refine congrArg (Option.map _ <| List.find? · associations) (funext fun a => ?_)
  by_cases ha : a.definitionId = k
  · simp [ha, hk, Bool.beq_eq_decide_eq]
  · simp [ha]

theorem associations_remove {id : String} {r' : Registry} (h : r.remove id = .ok r') :
    r'.associations = r.associations.filter (·.definitionId != id) := by
  unfold remove at h
  split at h
  · contradiction
  · obtain rfl := Except.ok.inj h
    rfl

theorem IsCoherent.remove (hr : r.IsCoherent) {id : String} {r' : Registry}
    (h : r.remove id = .ok r') : r'.IsCoherent where
  registered a ha := by
    rw [associations_remove h, List.mem_filter] at ha
    rw [ids_remove h, List.mem_filter]
    exact ⟨hr.registered a ha.1, ha.2⟩
  recorded {k d} hd x := by
    rw [find?_remove h] at hd
    split at hd
    · contradiction
    · rename_i hk
      rw [associations_remove h, firstLanguageId_filter hk]
      exact hr.recorded hd x

theorem firstLanguageId_append (associations : List LanguageAssociation) (a : LanguageAssociation)
    (id x : String) :
    firstLanguageId (associations ++ [a]) id x = (firstLanguageId associations id x).or
      (if a.definitionId = id ∧ a.language.id = x then some a.languageId else none) := by
  unfold firstLanguageId
  rw [List.find?_append, Option.map_or]
  congr 1
  by_cases ha : a.definitionId = id ∧ a.language.id = x
  · simp [ha]
  · rw [if_neg ha, List.find?_cons_of_neg (by simpa using ha)]
    rfl

theorem IsCoherent.associate (hr : r.IsCoherent) {l : Language} {id : String}
    {languageId : Option String} {matcher : Option DocumentMatcher} {r' : Registry}
    (h : r.associate l id languageId matcher = .ok r') : r'.IsCoherent := by
  have hids := ids_associate h
  unfold Registry.associate at h
  split at h
  · contradiction
  · rename_i old hold
    obtain rfl := Except.ok.inj h
    constructor
    case registered =>
      intro a ha
      rw [hids]
      rcases List.mem_append.mp ha with ha | ha
      · exact hr.registered a ha
      · obtain rfl := List.mem_singleton.mp ha
        exact mem_ids_of_find? hold
    case recorded =>
      intro k d hd x
      change (r.modify id _).find? k = some d at hd
      rw [find?_modify r id _ fun d hd => (id_recordLanguageId d ..).trans hd] at hd
      change _ = firstLanguageId (r.associations ++ _) k x
      rw [firstLanguageId_append]
      split at hd
      · rename_i hk
        obtain ⟨e, he, rfl⟩ := Option.map_eq_some_iff.mp hd
        rw [ServerDefinition.lookup_recordLanguageId, hr.recorded he]
        simp [hk]
      · rename_i hk
        rw [if_neg fun h => hk h.1.symm, Option.or_none]
        exact hr.recorded hd x

/-- What leaves associations and tables alone leaves them in agreement. -/
theorem IsCoherent.of_same (hr : r.IsCoherent) {r' : Registry} (hids : r'.ids = r.ids)
    (hassociations : r'.associations = r.associations)
    (htables : ∀ {k d}, r'.find? k = some d →
      ∃ e, r.find? k = some e ∧ d.languageIds = e.languageIds) : r'.IsCoherent where
  registered a ha := hids ▸ hr.registered a (hassociations ▸ ha)
  recorded {k d} hd x := by
    obtain ⟨e, he, hsame⟩ := htables hd
    rw [hsame, hassociations]
    exact hr.recorded he x

theorem IsCoherent.update (hr : r.IsCoherent) {id : String} {u : DefinitionUpdate} {r' : Registry}
    (h : r.update id u = .ok r') : r'.IsCoherent := by
  have hids := ids_update h
  obtain ⟨old, hold, rfl⟩ := update_eq_ok_iff.mp h
  refine hr.of_same hids (by cases revision u id old <;> rfl) fun {k d} hd => ?_
  have hd : (r.modify id (revised u old)).find? k = some d := by
    cases he : revision u id old <;> rw [he] at hd <;> exact hd
  rw [find?_modify r id (revised u old) fun _ hd => hd] at hd
  split at hd
  · obtain ⟨e, he, rfl⟩ := Option.map_eq_some_iff.mp hd
    exact ⟨e, he, rfl⟩
  · exact ⟨d, hd, rfl⟩

theorem IsCoherent.apply (hr : r.IsCoherent) {o : Operation} (ho : o.BringsNew) :
    (o.apply r).IsCoherent := by
  cases o with
  | declare l => exact hr.of_same rfl rfl fun hd => ⟨_, hd, rfl⟩
  | offer id => exact hr.of_same rfl rfl fun hd => ⟨_, hd, rfl⟩
  | add d => exact hr.add ho
  | remove id =>
    cases h : r.remove id with
    | error f => simpa [Operation.apply, attempt, h] using hr
    | ok r' => simpa [Operation.apply, attempt, h] using hr.remove h
  | associate l id languageId matcher =>
    cases h : r.associate l id languageId matcher with
    | error f => simpa [Operation.apply, attempt, h] using hr
    | ok r' => simpa [Operation.apply, attempt, h] using hr.associate h
  | update id u =>
    cases h : r.update id u with
    | error f => simpa [Operation.apply, attempt, h] using hr
    | ok r' => simpa [Operation.apply, attempt, h] using hr.update h

end Registry

end LanguageHub
