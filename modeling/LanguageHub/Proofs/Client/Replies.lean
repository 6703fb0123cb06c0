import LanguageHub.Client.Basic
import LanguageHub.Proofs.Wire.Framing
import LanguageHub.Proofs.Wire.Messages
import Mathlib.Data.List.Forall2

/-!
# What a client answers

A server asks for its settings by section: a section is a path of keys with dots between them,
which leads through objects. Without a section it gets everything, and so it does with an empty
one. Of what else it may ask, few methods are known.

Law: every request has one answer, with its id, and the answer is the one that its method and
its parameters call for.
-/

namespace LanguageHub.Client

/-! ## Sections -/

/-- A way through objects from member to member. -/
inductive Descends : Json → List String → Json → Prop
  | here (v : Json) : Descends v [] v
  | member {members : List (String × Json)} {key : String} {keys : List String} {v w : Json}
      (hmember : Json.lookup key members = some v) (hrest : Descends v keys w) :
      Descends (.obj members) (key :: keys) w

/-- The keys that are named with dots between them. -/
structure IsPath (name : String) (keys : List String) : Prop where
  joined : ".".intercalate keys = name
  plain : ∀ key ∈ keys, '.' ∉ key.toList

/-- What the settings say about a section: all of them without a name or with an empty one, and
null where the keys lead nowhere. -/
inductive IsSetting : Option Json → Option String → Json → Prop
  | unset (name? : Option String) : IsSetting none name? .null
  | unnamed (settings : Json) : IsSetting (some settings) none settings
  | empty (settings : Json) : IsSetting (some settings) (some "") settings
  | found {settings v : Json} {name : String} {keys : List String} (hname : name ≠ "")
      (hpath : IsPath name keys) (hway : Descends settings keys v) :
      IsSetting (some settings) (some name) v
  | missing {settings : Json} {name : String} {keys : List String} (hname : name ≠ "")
      (hpath : IsPath name keys) (hnowhere : ∀ v, ¬ Descends settings keys v) :
      IsSetting (some settings) (some name) .null

theorem isPath_splitOn (name : String) :
    IsPath name ((Text.splitOn '.' name.toList).map String.ofList) where
  joined := by
    refine String.toList_injective ?_
    rw [String.toList_intercalate, List.map_map]
    simpa [Function.comp_def] using Text.intercalate_splitOn '.' name.toList
  plain key hkey := by
    obtain ⟨piece, hpiece, rfl⟩ := List.mem_map.mp hkey
    rw [String.toList_ofList]
    exact Text.separator_not_mem_splitOn hpiece

theorem descends_iff {v w : Json} {keys : List String} :
    Descends v keys w ↔ keys.foldlM (fun v key => v.get? key) v = some w := by
  induction keys generalizing v with
  | nil =>
    constructor
    · rintro ⟨⟩
      rfl
    · intro h
      obtain rfl := Option.some.inj h
      exact .here v
  | cons key keys ih =>
    rw [List.foldlM_cons]
    constructor
    · rintro (_ | ⟨hmember, hrest⟩)
      simpa [Json.get?, hmember] using ih.mp hrest
    · intro h
      obtain ⟨u, hu, hrest⟩ := Option.bind_eq_some_iff.mp h
      cases v with
      | obj members => exact .member hu (ih.mpr hrest)
      | _ => cases hu

theorem isSetting_sectionOf (settings? : Option Json) (name? : Option String) :
    IsSetting settings? name? (sectionOf settings? name?) := by
  cases settings? with
  | none => exact .unset name?
  | some settings =>
    cases name? with
    | none => exact .unnamed settings
    | some name =>
      by_cases hname : name = ""
      · subst hname
        exact .empty settings
      · have hpath := isPath_splitOn name
        have hsection : section? settings (Text.splitOn '.' name.toList) =
            ((Text.splitOn '.' name.toList).map String.ofList).foldlM
              (fun v key => v.get? key) settings := by
          rw [List.foldlM_map]
          rfl
        rw [sectionOf, if_neg hname, hsection]
        cases hfound : List.foldlM (fun v key => v.get? key) settings
            ((Text.splitOn '.' name.toList).map String.ofList) with
        | none =>
          refine .missing hname hpath fun v hway => ?_
          rw [descends_iff, hfound] at hway
          cases hway
        | some v => exact .found hname hpath (descends_iff.mpr hfound)

/-! ## Items -/

/-- A text that may be missing, and may be null then. -/
inductive IsOptional : Option Json → Option String → Prop
  | missing : IsOptional none none
  | null : IsOptional (some .null) none
  | text (s : String) : IsOptional (some (.str s)) (some s)

/-- An item of what a server asks for: the address of a document, of which the client makes
nothing, and the name of a section. -/
inductive IsItem : Json → Option String → Prop
  | object {members : List (String × Json)} {uri? name? : Option String}
      (huri : IsOptional (Json.lookup "scopeUri" members) uri?)
      (hvalid : ∀ uri ∈ uri?, Uri.isValid uri = true)
      (hname : IsOptional (Json.lookup "section" members) name?) : IsItem (.obj members) name?
  | array {uri name : Json} {uri? name? : Option String} (huri : IsOptional (some uri) uri?)
      (hvalid : ∀ uri ∈ uri?, Uri.isValid uri = true) (hname : IsOptional (some name) name?) :
      IsItem (.arr [uri, name]) name?

/-- Parameters that ask for the settings of these sections. -/
inductive AsksFor : Json → List (Option String) → Prop
  | object {members : List (String × Json)} {items : List Json} {names : List (Option String)}
      (hitems : Json.lookup "items" members = some (.arr items))
      (heach : List.Forall₂ IsItem items names) : AsksFor (.obj members) names
  | array {items : List Json} {names : List (Option String)}
      (heach : List.Forall₂ IsItem items names) : AsksFor (.arr [.arr items]) names

/-- An optional text is read as it is when it may be there. -/
theorem isOptional_iff {valid : String → Bool} {schema : Schema}
    (hschema : ∀ v, schema.read? v = (v.str?.filter valid).map .str) {v? : Option Json}
    {w? : Option Json} : schema.field? .optional v? = some w? ↔
      ∃ s?, w? = s?.map .str ∧ IsOptional v? s? ∧ ∀ s ∈ s?, valid s = true := by
  constructor
  · intro h
    match v? with
    | none =>
      obtain rfl := Option.some.inj h
      exact ⟨none, rfl, .missing, by simp⟩
    | some .null =>
      obtain rfl := Option.some.inj h
      exact ⟨none, rfl, .null, by simp⟩
    | some (.str s) =>
      by_cases hs : valid s = true
      · simp [Schema.field?, hschema, Json.str?, hs] at h
        exact ⟨some s, by simp [← h], .text s, by simpa using hs⟩
      · simp [Schema.field?, hschema, Json.str?, hs] at h
    | some (.bool _) | some (.num _) | some (.arr _) | some (.obj _) =>
      simp [Schema.field?, hschema, Json.str?] at h
  · rintro ⟨s?, rfl, (_ | _ | s), hvalid⟩
    · rfl
    · rfl
    · simp [Schema.field?, hschema, Json.str?, hvalid s rfl]

def itemSchema : Schema :=
  .record [Schema.optional "scopeUri" .uri, Schema.optional "section" .string]

/-- What is kept of an item, from its address and its name. -/
def itemOf? (uri? name? : Option Json) : Option Json :=
  (Schema.string.field? .optional name?).bind fun name? =>
    (Schema.uri.field? .optional uri?).map fun uri? =>
      .mkObj ((uri?.map ("scopeUri", ·)).toList ++ (name?.map ("section", ·)).toList)

theorem read?_item_obj (members : List (String × Json)) : itemSchema.read? (.obj members) =
    itemOf? (Json.lookup "scopeUri" members) (Json.lookup "section" members) := by
  simp only [itemSchema, Schema.optional, Schema.read?, Schema.readMembers?_cons,
    Schema.readMembers?_nil, itemOf?]
  cases Schema.string.field? .optional (Json.lookup "section" members) with
  | none => rfl
  | some name? => simp [Function.comp_def]

theorem readOrdered?_optional (name : String) (schema : Schema)
    (fields : List (String × Presence × Schema)) (v : Json) (vs : List Json) :
    Schema.readOrdered? ((name, .optional, schema) :: fields) (v :: vs) =
      (Schema.readOrdered? fields vs).bind fun rest =>
        (schema.field? .optional (some v)).map fun v? => (v?.map (name, ·)).toList ++ rest := by
  rw [Schema.readOrdered?.eq_def]
  dsimp only
  congr 1
  funext rest
  cases v with
  | null => rfl
  | _ =>
    dsimp only [Schema.field?]
    generalize schema.read? _ = read?
    cases read? <;> rfl

theorem read?_item_arr (uri name : Json) :
    itemSchema.read? (.arr [uri, name]) = itemOf? (some uri) (some name) := by
  have hend : Schema.readOrdered? [] [] = some [] := rfl
  simp only [itemSchema, Schema.optional, Schema.read?, readOrdered?_optional, hend, itemOf?]
  cases Schema.string.field? .optional (some name) with
  | none => rfl
  | some name? => simp [Function.comp_def]

theorem itemOf?_iff {uri? name? : Option Json} {s? : Option String} :
    (∃ v, itemOf? uri? name? = some v ∧ (v.get? "section").bind Json.str? = s?) ↔
      ∃ u?, IsOptional uri? u? ∧ (∀ uri ∈ u?, Uri.isValid uri = true) ∧ IsOptional name? s? := by
  have hstring : ∀ v, Schema.string.read? v = (v.str?.filter fun _ => true).map .str := by
    intro v
    cases v <;> rfl
  have huri : ∀ v, Schema.uri.read? v = (v.str?.filter Uri.isValid).map .str := by
    intro v
    cases v with
    | str s =>
      by_cases hs : Uri.isValid s = true <;> simp [Schema.read?, Json.str?, hs, Option.filter]
    | _ => rfl
  have hsection : ∀ (uri? : Option Json) (s? : Option String),
      ((Json.mkObj ((uri?.map ("scopeUri", ·)).toList ++
        ((s?.map Json.str).map ("section", ·)).toList)).get? "section").bind Json.str? = s? := by
    intro uri? s?
    cases uri? <;> cases s? <;> simp [Json.get?_mkObj, Json.lookup, Json.str?]
  constructor
  · rintro ⟨v, hv, hname⟩
    obtain ⟨w?, hw, hv⟩ := Option.bind_eq_some_iff.mp hv
    obtain ⟨x?, hx, rfl⟩ := Option.map_eq_some_iff.mp hv
    obtain ⟨t?, rfl, hname', -⟩ := (isOptional_iff hstring).mp hw
    obtain ⟨u?, rfl, huri', hvalid⟩ := (isOptional_iff huri).mp hx
    rw [hsection] at hname
    exact ⟨u?, huri', hvalid, hname ▸ hname'⟩
  · rintro ⟨u?, huri', hvalid, hname⟩
    refine ⟨_, ?_, hsection (u?.map .str) s?⟩
    rw [itemOf?, (isOptional_iff hstring).mpr ⟨s?, rfl, hname, fun _ _ => rfl⟩,
      (isOptional_iff huri).mpr ⟨u?, rfl, huri', hvalid⟩]
    rfl

theorem isItem_iff {item : Json} {name? : Option String} : IsItem item name? ↔
    ∃ v, itemSchema.read? item = some v ∧ (v.get? "section").bind Json.str? = name? := by
  match item with
  | .obj members =>
    rw [read?_item_obj, itemOf?_iff]
    constructor
    · rintro (⟨huri, hvalid, hname⟩ | _)
      exact ⟨_, huri, hvalid, hname⟩
    · rintro ⟨u?, huri, hvalid, hname⟩
      exact .object huri hvalid hname
  | .arr [uri, name] =>
    rw [read?_item_arr, itemOf?_iff]
    constructor
    · rintro (_ | ⟨huri, hvalid, hname⟩)
      exact ⟨_, huri, hvalid, hname⟩
    · rintro ⟨u?, huri, hvalid, hname⟩
      exact .array huri hvalid hname
  | .arr [] | .arr [_] | .arr (_ :: _ :: _ :: _) =>
    -- An array is an item with all of its members only.
    constructor
    · rintro ⟨⟩
    · rintro ⟨v, hv, -⟩
      simp [itemSchema, Schema.optional, Schema.read?, Schema.readOrdered?] at hv
  | .null | .bool _ | .num _ | .str _ =>
    constructor
    · rintro ⟨⟩
    · rintro ⟨_, ⟨⟩, _⟩

theorem mapM_eq_some_iff {α β : Type} {f : α → Option β} {as : List α} {bs : List β} :
    as.mapM f = some bs ↔ List.Forall₂ (fun a b => f a = some b) as bs := by
  induction as generalizing bs with
  | nil => simp [eq_comm]
  | cons a as ih =>
    simp only [List.mapM_cons, Option.bind_eq_bind, Option.bind_eq_some_iff, Option.pure_def,
      Option.some.injEq, ih, List.forall₂_cons_left_iff]
    constructor
    · rintro ⟨b, hb, bs, hbs, rfl⟩
      exact ⟨b, bs, hb, hbs, rfl⟩
    · rintro ⟨b, bs, hb, hbs, rfl⟩
      exact ⟨b, hb, bs, hbs, rfl⟩

/-- The names in what is kept of the items. -/
theorem forall₂_isItem_iff {items : List Json} {names : List (Option String)} :
    List.Forall₂ IsItem items names ↔ ∃ vs, items.mapM itemSchema.read? = some vs ∧
      vs.map (fun v => (v.get? "section").bind Json.str?) = names := by
  simp only [mapM_eq_some_iff]
  induction items generalizing names with
  | nil => simp [eq_comm]
  | cons item items ih =>
    constructor
    · rintro (_ | ⟨hitem, hrest⟩)
      obtain ⟨v, hv, hname⟩ := isItem_iff.mp hitem
      obtain ⟨vs, hvs, rfl⟩ := ih.mp hrest
      exact ⟨v :: vs, .cons hv hvs, by rw [List.map_cons, hname]⟩
    · rintro ⟨_, _ | ⟨hv, hvs⟩, rfl⟩
      exact .cons (isItem_iff.mpr ⟨_, hv, rfl⟩) (ih.mpr ⟨_, hvs, rfl⟩)

/-- The names in parameters that ask rightly. -/
def asked? (params : Json) : Option (List (Option String)) :=
  (Schema.configurationParams.read? params).map fun v =>
    (((v.get? "items").bind Json.arr?).getD []).map fun item =>
      (item.get? "section").bind Json.str?

theorem askedSections_eq (params : Json) : askedSections params = (asked? params).getD [] := by
  unfold askedSections asked?
  cases Schema.configurationParams.read? params <;> rfl

theorem configurationParams_eq :
    Schema.configurationParams = .record [("items", .required, .list itemSchema)] :=
  rfl

/-- What is kept of parameters, from their items. -/
def paramsOf? (items : Json) : Option Json :=
  ((Schema.list itemSchema).read? items).map fun v => .mkObj [("items", v)]

theorem read?_params_obj {members : List (String × Json)} {items : Json}
    (hitems : Json.lookup "items" members = some items) :
    Schema.configurationParams.read? (.obj members) = paramsOf? items := by
  change (Schema.readMembers? [("items", .required, .list itemSchema)] members).map _ = _
  rw [Schema.readMembers?_cons, Schema.readMembers?_nil, hitems, Schema.field?_required, paramsOf?]
  cases (Schema.list itemSchema).read? items <;> rfl

theorem read?_params_arr (items : Json) :
    Schema.configurationParams.read? (.arr [items]) = paramsOf? items := by
  change (Schema.readOrdered? [("items", .required, .list itemSchema)] [items]).map _ = _
  rw [Schema.readOrdered?.eq_def, paramsOf?]
  dsimp only
  cases (Schema.list itemSchema).read? items <;> rfl

theorem asked?_of_items {params items : Json} {names : List (Option String)}
    (hread : Schema.configurationParams.read? params = paramsOf? items) :
    asked? params = some names ↔ ∃ vs, items = .arr vs ∧ List.Forall₂ IsItem vs names := by
  rw [asked?, hread, paramsOf?]
  cases items with
  | arr vs =>
    simp only [Json.arr.injEq, exists_eq_left', forall₂_isItem_iff, Schema.read?,
      Option.map_map, Option.map_eq_some_iff]
    refine exists_congr fun kept => and_congr_right fun _ => ?_
    simp [Json.get?_mkObj, Json.lookup, Json.arr?]
  | _ => simp [Schema.read?]

theorem asksFor_iff {params : Json} {names : List (Option String)} :
    AsksFor params names ↔ asked? params = some names := by
  match params with
  | .obj members =>
    cases hitems : Json.lookup "items" members with
    | none =>
      have hread : Schema.configurationParams.read? (.obj members) = none := by
        simp [Schema.configurationParams, Schema.required, Schema.read?, Schema.readMembers?_cons,
          Schema.readMembers?_nil, hitems, Schema.field?]
      constructor
      · rintro (⟨hlist, -⟩ | _)
        cases hitems.symm.trans hlist
      · intro h
        simp [asked?, hread] at h
    | some items =>
      rw [asked?_of_items (read?_params_obj hitems)]
      constructor
      · rintro (⟨hlist, heach⟩ | _)
        exact ⟨_, Option.some.inj (hitems.symm.trans hlist), heach⟩
      · rintro ⟨vs, rfl, heach⟩
        exact .object hitems heach
  | .arr [items] =>
    rw [asked?_of_items (read?_params_arr items)]
    constructor
    · rintro (_ | heach)
      exact ⟨_, rfl, heach⟩
    · rintro ⟨vs, rfl, heach⟩
      exact .array heach
  | .arr [] =>
    constructor
    · rintro ⟨⟩
    · rintro ⟨⟩
  | .arr (_ :: _ :: _) =>
    constructor
    · rintro ⟨⟩
    · intro h
      simp [asked?, configurationParams_eq, Schema.read?, Schema.readOrdered?] at h
  | .null | .bool _ | .num _ | .str _ =>
    constructor
    · rintro ⟨⟩
    · rintro ⟨⟩

/-! ## Answers -/

/-- The methods to which the client says yes. -/
def agreeable : List String :=
  ["client/registerCapability", "client/unregisterCapability", "window/workDoneProgress/create"]

/-- The answer that a request calls for. -/
structure IsReply (folders : List WorkspaceFolder) (settings? : Option Json) (r : Request)
    (a : Response) : Prop where
  version : a.version = "2.0"
  id : a.id = some r.id
  /-- One value for each section that is asked for, in their order. -/
  settings : r.method = "workspace/configuration" → a.error = none ∧
    ∃ values, a.result = some (.arr values) ∧
      (∀ names, AsksFor r.params names → List.Forall₂ (IsSetting settings?) names values) ∧
      ((∀ names, ¬ AsksFor r.params names) → values = [])
  folders : r.method = "workspace/workspaceFolders" → a.error = none ∧
    a.result = some (.arr (folders.map (·.toJson)))
  agreed : r.method ∈ agreeable → a.error = none ∧ a.result = some .null
  unknown : r.method ∉ ["workspace/configuration", "workspace/workspaceFolders"] ++ agreeable →
    a.result = none ∧ ∃ e, a.error = some e ∧ e.code = -32601

theorem isSetting_askedSections (settings? : Option Json) (params : Json) :
    let values := (askedSections params).map (sectionOf settings?)
    (∀ names, AsksFor params names → List.Forall₂ (IsSetting settings?) names values) ∧
      ((∀ names, ¬ AsksFor params names) → values = []) := by
  intro values
  constructor
  · intro names hasks
    have hnames : askedSections params = names := by
      rw [askedSections_eq, asksFor_iff.mp hasks, Option.getD_some]
    simp only [values, hnames, List.forall₂_map_right_iff, List.forall₂_same]
    exact fun name? _ => isSetting_sectionOf settings? name?
  · intro hwrong
    have hnone : asked? params = none := by
      refine Option.eq_none_iff_forall_ne_some.mpr fun names hnames => ?_
      exact hwrong names (asksFor_iff.mpr hnames)
    simp [values, askedSections_eq, hnone]

theorem isReply_agreed (folders : List WorkspaceFolder) (settings? : Option Json) {r : Request}
    (hmethod : r.method ∈ agreeable) :
    IsReply folders settings? r ⟨Message.protocolVersion, some r.id, some .null, none⟩ where
  version := rfl
  id := rfl
  settings hother := by simp [hother, agreeable] at hmethod
  folders hother := by simp [hother, agreeable] at hmethod
  agreed _ := ⟨rfl, rfl⟩
  unknown hother := absurd (List.mem_append_right _ hmethod) hother

/-- Every request has one answer, with its id, and it is the one that is called for. -/
theorem isReply_answerTo (folders : List WorkspaceFolder) (settings? : Option Json) (r : Request) :
    ∃ a, answerTo folders settings? r = .response a ∧ IsReply folders settings? r a := by
  unfold answerTo
  split
  · rename_i hmethod
    refine ⟨_, rfl, rfl, rfl, fun _ => ⟨rfl, _, rfl, isSetting_askedSections settings? r.params⟩,
      ?_, ?_, ?_⟩ <;> simp [hmethod, agreeable]
  · rename_i hmethod
    refine ⟨_, rfl, rfl, rfl, ?_, fun _ => ⟨rfl, rfl⟩, ?_, ?_⟩ <;> simp [hmethod, agreeable]
  · rename_i hmethod
    exact ⟨_, rfl, isReply_agreed folders settings? (by simp [hmethod, agreeable])⟩
  · rename_i hmethod
    exact ⟨_, rfl, isReply_agreed folders settings? (by simp [hmethod, agreeable])⟩
  · rename_i hmethod
    exact ⟨_, rfl, isReply_agreed folders settings? (by simp [hmethod, agreeable])⟩
  · rename_i hsettings hfolders hregister hunregister hprogress
    refine ⟨_, rfl, rfl, rfl, fun h => (hsettings h).elim, fun h => (hfolders h).elim, ?_,
      fun _ => ⟨rfl, _, rfl, rfl⟩⟩
    intro hagreed
    simp only [agreeable, List.mem_cons, List.not_mem_nil, or_false] at hagreed
    exact (hagreed.elim hregister (Or.rec hunregister hprogress)).elim

end LanguageHub.Client
