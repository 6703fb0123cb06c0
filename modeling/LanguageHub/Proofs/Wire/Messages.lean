import LanguageHub.Wire.Message
import LanguageHub.Proofs.Json.RoundTrip

/-!
# What a value is classified as

The members of an object decide what message it is, whatever their order; any other value is none.
A request is an object with a text as its version and its method, and with an id.
-/

namespace LanguageHub

open Json (lookup)

/-! ## Members of objects -/

namespace Json

theorem lookup_insertField (key name : String) (v : Json) (fields : List (String × Json)) :
    lookup key (insertField name v fields) = if key = name then some v else lookup key fields := by
  induction fields with
  | nil => simp [insertField, lookup]
  | cons f fields ih =>
    obtain ⟨k, w⟩ := f
    unfold insertField
    split
    · simp [lookup]
    split
    · rename_i heq
      by_cases hkey : key = name <;> simp [lookup, hkey, ← heq]
    · rename_i hne
      by_cases hkey : key = k
      · simp [lookup, hkey, Ne.symm hne]
      · simp [lookup, hkey, ih]

theorem lookup_append (key : String) (first second : List (String × Json)) :
    lookup key (first ++ second) = (lookup key first).or (lookup key second) := by
  induction first with
  | nil => rfl
  | cons f first ih =>
    obtain ⟨k, v⟩ := f
    by_cases hkey : key = k <;> simp [lookup, hkey, ih]

/-- Of several members of one name the last one counts. -/
theorem get?_mkObj (key : String) (fields : List (String × Json)) :
    (mkObj fields).get? key = lookup key fields.reverse := by
  suffices hfold : ∀ acc : List (String × Json),
      lookup key (fields.foldl (fun acc f => insertField f.1 f.2 acc) acc) =
        (lookup key fields.reverse).or (lookup key acc) by
    exact (hfold []).trans (Option.or_none ..)
  induction fields with
  | nil => simp [lookup]
  | cons f fields ih =>
    intro acc
    obtain ⟨k, v⟩ := f
    rw [List.foldl_cons, ih, List.reverse_cons, lookup_append, Option.or_assoc,
      lookup_insertField]
    by_cases hkey : key = k <;> simp [lookup, hkey]

end Json

/-! ## Fields of records -/

namespace Schema

/-- What a field is read as, when it fits: there may be none. -/
def field? (schema : Schema) : Presence → Option Json → Option (Option Json)
  | .required, none => none
  | .required, some v => (schema.read? v).map some
  | .optional, none | .optional, some .null => some none
  | .optional, some v => (schema.read? v).map some
  | _, none | _, some .null => some (some .null)
  | _, some v => (schema.read? v).map some

theorem readMembers?_cons (name : String) (presence : Presence) (schema : Schema)
    (fields : List (String × Presence × Schema)) (members : List (String × Json)) :
    readMembers? ((name, presence, schema) :: fields) members =
      (readMembers? fields members).bind fun rest =>
        (schema.field? presence (lookup name members)).map fun v? =>
          (v?.map (name, ·)).toList ++ rest := by
  rw [readMembers?]
  congr 1
  funext rest
  split <;> simp_all [field?]
  all_goals cases schema.read? _ <;> rfl

theorem readMembers?_nil (members : List (String × Json)) : readMembers? [] members = some [] := rfl

theorem field?_required (schema : Schema) (v : Json) :
    schema.field? .required (some v) = (schema.read? v).map some := rfl

theorem field?_string (v? : Option Json) :
    Schema.string.field? .required v? = (v?.bind Json.str?).map fun s => some (.str s) := by
  rcases v? with _ | _ | _ <;> rfl

/-- A value that may be missing, and must fit when it is there and not null. -/
def option? {α : Type} (read : Json → Option α) (v? : Option Json) : Option (Option α) :=
  match v?.filter (!·.isNull) with
  | none => some none
  | some v => (read v).map some

theorem option?_none {α : Type} (read : Json → Option α) : option? read none = some none := rfl

theorem option?_of_present {α : Type} (read : Json → Option α) {v : Json}
    (h : v.isNull = false) : option? read (some v) = (read v).map some := by
  simp [option?, Option.filter, h]

theorem option?_some (v? : Option Json) : option? some v? = some (v?.filter (!·.isNull)) := by
  rcases v? with _ | _ | _ <;> rfl

theorem field?_optional (schema : Schema) (v? : Option Json) :
    schema.field? .optional v? = option? schema.read? v? := by
  rcases v? with _ | _ | _ <;> rfl

theorem field?_defaulted_any (v? : Option Json) :
    Schema.any.field? .defaulted v? = some (some (v?.getD .null)) := by
  rcases v? with _ | _ | _ <;> rfl

end Schema

/-! ## Ids -/

namespace RequestId

/-- A number of 64 bits, or a text. -/
def IsWord : RequestId → Prop
  | number n => -2 ^ 63 ≤ n ∧ n < 2 ^ 63
  | text _ => True

variable {id : RequestId} {v : Json}

theorem read?_number (n : Int) : schema.read? (.num (.int n)) =
    if -2 ^ 63 ≤ n ∧ n < 2 ^ 63 then some (.num (.int n)) else none := by
  have hmin : Int64.minValue.toInt = -2 ^ 63 := by decide
  have hmax : Int64.maxValue.toInt = 2 ^ 63 - 1 := by decide
  have hin : (Int64.minValue.toInt ≤ n ∧ n ≤ Int64.maxValue.toInt) ↔ -2 ^ 63 ≤ n ∧ n < 2 ^ 63 := by
    omega
  simp only [schema, Schema.int64, Schema.read?, Schema.readFirst?, hin]
  split <;> rfl

theorem ofJson?_number (n : Int) : ofJson? (.num (.int n)) =
    if -2 ^ 63 ≤ n ∧ n < 2 ^ 63 then some (number n) else none := by
  rw [ofJson?, read?_number]
  by_cases hn : -2 ^ 63 ≤ n ∧ n < 2 ^ 63
  · rw [if_pos hn, if_pos hn]
  · rw [if_neg hn, if_neg hn]

/-- An id is read from what is written for it, and from nothing else. -/
theorem ofJson?_eq_some_iff : ofJson? v = some id ↔ id.IsWord ∧ v = id.toJson := by
  constructor
  · intro h
    match v with
    | .num (.int n) =>
      rw [ofJson?_number] at h
      obtain ⟨hn, h⟩ := Option.ite_none_right_eq_some.mp h
      obtain rfl := Option.some.inj h
      exact ⟨hn, rfl⟩
    | .str s =>
      obtain rfl := Option.some.inj h
      exact ⟨trivial, rfl⟩
    | .null | .bool _ | .num (.double _) | .arr _ | .obj _ => cases h
  · rintro ⟨hword, rfl⟩
    cases id with
    | number n => exact (ofJson?_number n).trans (if_pos hword)
    | text s => rfl

theorem IsWord.ofJson? (h : id.IsWord) : ofJson? id.toJson = some id :=
  ofJson?_eq_some_iff.mpr ⟨h, rfl⟩

theorem read?_schema (v : Json) : schema.read? v = (ofJson? v).map toJson := by
  match v with
  | .num (.int n) =>
    rw [ofJson?_number, read?_number]
    split <;> rfl
  | .null | .bool _ | .num (.double _) | .str _ | .arr _ | .obj _ => rfl

theorem bind_ofJson?_of_option? {v? : Option Json} {id? : Option RequestId}
    (h : Schema.option? ofJson? v? = some id?) : (id?.map toJson).bind ofJson? = id? := by
  unfold Schema.option? at h
  split at h
  · obtain rfl := Option.some.inj h
    rfl
  · obtain ⟨id, hid, rfl⟩ := Option.map_eq_some_iff.mp h
    exact (ofJson?_eq_some_iff.mp hid).1.ofJson?

theorem option?_schema (v? : Option Json) : Schema.option? schema.read? v? =
    (Schema.option? ofJson? v?).map fun id? => id?.map toJson := by
  unfold Schema.option?
  split
  · rfl
  · simp [read?_schema, Function.comp_def]

theorem field?_schema (v? : Option Json) :
    schema.field? .required v? = (v?.bind ofJson?).map fun id => some id.toJson := by
  cases v? with
  | none => rfl
  | some v =>
    simp [Schema.field?, read?_schema, Function.comp_def]

theorem isNull_toJson (id : RequestId) : id.toJson.isNull = false := by
  cases id <;> rfl

end RequestId

/-! ## The three kinds -/

section Kinds

open Message

variable (members : List (String × Json))

theorem Request.ofJson?_obj : Request.ofJson? (.obj members) =
    ((lookup "jsonrpc" members).bind Json.str?).bind fun version =>
      ((lookup "id" members).bind RequestId.ofJson?).bind fun id =>
        ((lookup "method" members).bind Json.str?).map fun method =>
          ⟨version, id, method, (lookup "params" members).getD .null⟩ := by
  simp only [Request.ofJson?, requestSchema, Schema.required, Schema.read?,
    Schema.readMembers?_cons, Schema.readMembers?_nil, Schema.field?_string,
    Schema.field?_defaulted_any, RequestId.field?_schema]
  cases (lookup "method" members).bind Json.str? with
  | none => simp
  | some method =>
    cases hid : (lookup "id" members).bind RequestId.ofJson? with
    | none => simp
    | some id =>
      have hid : RequestId.ofJson? id.toJson = some id := by
        obtain ⟨v, -, hv⟩ := Option.bind_eq_some_iff.mp hid
        exact (RequestId.ofJson?_eq_some_iff.mp hv).1.ofJson?
      cases (lookup "jsonrpc" members).bind Json.str? with
      | none => simp
      | some version => simp [Json.get?_mkObj, lookup, hid, Json.str?]

theorem Notification.ofJson?_obj : Notification.ofJson? (.obj members) =
    ((lookup "jsonrpc" members).bind Json.str?).bind fun version =>
      ((lookup "method" members).bind Json.str?).map fun method =>
        ⟨version, method, (lookup "params" members).getD .null⟩ := by
  simp only [Notification.ofJson?, notificationSchema, Schema.required, Schema.read?,
    Schema.readMembers?_cons, Schema.readMembers?_nil, Schema.field?_string,
    Schema.field?_defaulted_any]
  cases (lookup "method" members).bind Json.str? with
  | none => simp
  | some method =>
    cases (lookup "jsonrpc" members).bind Json.str? with
    | none => simp
    | some version => simp [Json.get?_mkObj, lookup, Json.str?]

theorem Response.ofJson?_obj : Response.ofJson? (.obj members) =
    ((lookup "jsonrpc" members).bind Json.str?).bind fun version =>
      (Schema.option? RequestId.ofJson? (lookup "id" members)).bind fun id? =>
        (Schema.option? errorSchema.read? (lookup "error" members)).map fun error? =>
          ⟨version, id?, (lookup "result" members).filter (!·.isNull),
            error?.bind ResponseError.ofJson?⟩ := by
  simp only [Response.ofJson?, responseSchema, Schema.required, Schema.optional, Schema.read?,
    Schema.readMembers?_cons, Schema.readMembers?_nil, Schema.field?_string,
    Schema.field?_optional, Schema.option?_some, RequestId.option?_schema]
  generalize (lookup "result" members).filter (!·.isNull) = result?
  cases Schema.option? errorSchema.read? (lookup "error" members) with
  | none => simp
  | some error? =>
    cases hid : Schema.option? RequestId.ofJson? (lookup "id" members) with
    | none => simp
    | some id? =>
      cases (lookup "jsonrpc" members).bind Json.str? with
      | none => simp
      | some version =>
        have hid : (id?.map RequestId.toJson).bind RequestId.ofJson? = id? :=
          RequestId.bind_ofJson?_of_option? hid
        cases error? <;> cases result? <;> cases id? <;>
          simp_all [Json.get?_mkObj, lookup, Json.str?]

end Kinds

/-- A value that is this request. -/
structure IsRequest (v : Json) (r : Request) : Prop where
  version : v.get? "jsonrpc" = some (.str r.version)
  id : v.get? "id" = some r.id.toJson
  word : r.id.IsWord
  method : v.get? "method" = some (.str r.method)
  params : r.params = (v.get? "params").getD .null

/-- A value that is this notification. -/
structure IsNotification (v : Json) (n : Notification) : Prop where
  version : v.get? "jsonrpc" = some (.str n.version)
  noId : v.present? "id" = none
  method : v.get? "method" = some (.str n.method)
  params : n.params = (v.get? "params").getD .null

namespace Message

variable {v : Json} {members : List (String × Json)}

theorem str?_eq_some_iff {s : String} : v.str? = some s ↔ v = .str s := by
  cases v <;> simp [Json.str?]

theorem bind_str?_eq_some_iff {v? : Option Json} {s : String} :
    v?.bind Json.str? = some s ↔ v? = some (.str s) := by
  simp [Option.bind_eq_some_iff, str?_eq_some_iff]

theorem exists_members {key : String} {w : Json} (h : v.get? key = some w) :
    ∃ members, v = .obj members := by
  cases v with
  | obj members => exact ⟨members, rfl⟩
  | _ => cases h

theorem request?_eq_some_iff {r : Request} :
    Request.ofJson? (.obj members) = some r ↔ IsRequest (.obj members) r := by
  rw [Request.ofJson?_obj]
  constructor
  · intro h
    obtain ⟨version, hversion, h⟩ := Option.bind_eq_some_iff.mp h
    obtain ⟨id, hid, h⟩ := Option.bind_eq_some_iff.mp h
    obtain ⟨method, hmethod, rfl⟩ := Option.map_eq_some_iff.mp h
    obtain ⟨w, hw, hid⟩ := Option.bind_eq_some_iff.mp hid
    obtain ⟨hword, rfl⟩ := RequestId.ofJson?_eq_some_iff.mp hid
    exact ⟨bind_str?_eq_some_iff.mp hversion, hw, hword, bind_str?_eq_some_iff.mp hmethod, rfl⟩
  · rintro ⟨hversion, hid, hword, hmethod, hparams⟩
    obtain ⟨version, id, method, params⟩ := r
    simp only [Json.get?] at hversion hid hmethod hparams
    simp [hversion, hid, hmethod, hparams, hword.ofJson?, Json.str?]

theorem notification?_eq_some_iff {n : Notification} :
    Notification.ofJson? (.obj members) = some n ↔
      lookup "jsonrpc" members = some (.str n.version) ∧
        lookup "method" members = some (.str n.method) ∧
          n.params = (lookup "params" members).getD .null := by
  rw [Notification.ofJson?_obj]
  constructor
  · intro h
    obtain ⟨version, hversion, h⟩ := Option.bind_eq_some_iff.mp h
    obtain ⟨method, hmethod, rfl⟩ := Option.map_eq_some_iff.mp h
    exact ⟨bind_str?_eq_some_iff.mp hversion, bind_str?_eq_some_iff.mp hmethod, rfl⟩
  · rintro ⟨hversion, hmethod, hparams⟩
    obtain ⟨version, method, params⟩ := n
    simp only at hversion hmethod hparams
    simp [hversion, hmethod, hparams, Json.str?]

/-- A value is classified as a request when it is one. -/
theorem classify?_eq_request_iff {r : Request} :
    classify? v = some (.request r) ↔ IsRequest v r := by
  constructor
  · intro h
    unfold classify? at h
    dsimp only at h
    split at h
    · rename_i hmethod _
      obtain ⟨w, hw⟩ := Option.isSome_iff_exists.mp hmethod
      obtain ⟨members, rfl⟩ := exists_members (bind_str?_eq_some_iff.mp hw)
      simp only [Option.map_eq_some_iff, Message.request.injEq, exists_eq_right] at h
      exact request?_eq_some_iff.mp h
    all_goals simp at h
  · intro h
    obtain ⟨members, rfl⟩ := exists_members h.method
    have hid : (Json.obj members).present? "id" = some r.id.toJson := by
      simp [Json.present?, h.id, Option.filter, r.id.isNull_toJson]
    simp [classify?, h.method, hid, Json.str?, request?_eq_some_iff.mpr h]

theorem classify?_eq_notification_iff {n : Notification} :
    classify? v = some (.notification n) ↔ IsNotification v n := by
  constructor
  · intro h
    unfold classify? at h
    dsimp only at h
    split at h
    case h_2 hmethod hid =>
      obtain ⟨w, hw⟩ := Option.isSome_iff_exists.mp hmethod
      obtain ⟨members, rfl⟩ := exists_members (bind_str?_eq_some_iff.mp hw)
      simp only [Option.map_eq_some_iff, Message.notification.injEq, exists_eq_right] at h
      obtain ⟨hversion, hmethod, hparams⟩ := notification?_eq_some_iff.mp h
      exact ⟨hversion, by simpa using hid, hmethod, hparams⟩
    all_goals simp at h
  · intro h
    obtain ⟨members, rfl⟩ := exists_members h.method
    have hread := notification?_eq_some_iff.mpr ⟨h.version, h.method, h.params⟩
    simp [classify?, h.method, h.noId, Json.str?, hread]

/-- What has an id and no method is read as a response. -/
theorem classify?_of_id (hmethod : v.get? "method" = none) {w : Json}
    (hid : v.present? "id" = some w) : classify? v = (Response.ofJson? v).map .response := by
  simp [classify?, hmethod, hid]

end Message

end LanguageHub

/-!
# Messages survive encoding

A message is written as an object with its members in the order of its kind. What is taken from the
frame, parsed and classified is a message of the same kind with the same members; only a result of
null reads as none.
-/

namespace LanguageHub

open Json (Exact nestingLimit)
open Frame (addressLimit)

/-! ## What is written -/

def ResponseError.members (e : ResponseError) : List (String × Json) :=
  [("code", .ofInt e.code), ("message", .str e.message)] ++ (e.data.map ("data", ·)).toList

namespace Message

/-- The members of a message in the order in which they are written. -/
def members : Message → List (String × Json)
  | request r => [("jsonrpc", .str r.version), ("id", r.id.toJson), ("method", .str r.method),
      ("params", r.params)]
  | notification n => [("jsonrpc", .str n.version), ("method", .str n.method),
      ("params", n.params)]
  | response r => [("jsonrpc", .str r.version), ("id", .ofOption RequestId.toJson r.id)] ++
      (r.result.map ("result", ·)).toList ++
      (r.error.map fun e => ("error", .obj e.members)).toList

theorem orderedText_eq (fields : List (String × Json)) :
    orderedText (fields.map fun f => (f.1, f.2.text)) = (Json.obj fields).text := by
  simp only [orderedText, Json.text, Json.fieldsText_eq, List.map_map]
  rfl

end Message

theorem ResponseError.text_eq (e : ResponseError) : e.text = (Json.obj e.members).text := by
  rw [← Message.orderedText_eq]
  obtain ⟨code, message, data⟩ := e
  cases data <;> rfl

namespace Message

theorem text_eq (m : Message) : m.text = (Json.obj m.members).text := by
  rw [← orderedText_eq]
  cases m with
  | request r => rfl
  | notification n => rfl
  | response r =>
    obtain ⟨version, id, result, error⟩ := r
    cases result <;> cases error <;>
      simp [text, Response.text, members, ResponseError.text_eq, Json.text]

/-! ## What is read -/

variable {version method : String} {id : RequestId} {params result : Json}

/-- The body of a message is read as the object with its members. -/
theorem read?_body {m : Message} (h : ∀ f ∈ m.members, Exact (nestingLimit - 1) f.2) :
    Json.read? m.body = some (.mkObj m.members) := by
  have hreads := Json.reads_obj (fun f hf _ hafter => (h f hf).reads hafter) []
  have hbody : m.body.toList = m.text := String.toList_ofList
  rw [← text_eq, List.append_nil, ← hbody] at hreads
  exact Json.read?_of_reads hreads

end Message

theorem RequestId.IsWord.exact {id : RequestId} (h : id.IsWord) (depth : Nat) :
    Exact depth id.toJson := by
  cases id with
  | number n => exact .int h.1 (Int.lt_trans h.2 (by decide))
  | text s => exact .str s

namespace Message

variable {version method : String} {id : RequestId} {params result : Json}

theorem classify?_request (hid : id.IsWord) :
    classify? (.mkObj (members (.request ⟨version, id, method, params⟩))) =
      some (.request ⟨version, id, method, params⟩) :=
  classify?_eq_request_iff.mpr
    { version := by simp [Json.get?_mkObj, members, Json.lookup]
      id := by simp [Json.get?_mkObj, members, Json.lookup]
      word := hid
      method := by simp [Json.get?_mkObj, members, Json.lookup]
      params := by simp [Json.get?_mkObj, members, Json.lookup] }

theorem classify?_notification :
    classify? (.mkObj (members (.notification ⟨version, method, params⟩))) =
      some (.notification ⟨version, method, params⟩) :=
  classify?_eq_notification_iff.mpr
    { version := by simp [Json.get?_mkObj, members, Json.lookup]
      noId := by simp [Json.present?, Json.get?_mkObj, members, Json.lookup]
      method := by simp [Json.get?_mkObj, members, Json.lookup]
      params := by simp [Json.get?_mkObj, members, Json.lookup] }

/-- A result of null reads as none. -/
theorem classify?_success (hid : id.IsWord) :
    classify? (.mkObj (members (.success id result))) = some (.response
      ⟨protocolVersion, some id, (some result).filter (!·.isNull), none⟩) := by
  have hobj : Json.mkObj (members (.success id result)) =
      .obj [("id", id.toJson), ("jsonrpc", .str protocolVersion), ("result", result)] := rfl
  rw [hobj, classify?_of_id (w := id.toJson) (by simp [Json.get?, Json.lookup])
    (by simp [Json.present?, Json.get?, Json.lookup, id.isNull_toJson]), Response.ofJson?_obj]
  simp [Json.lookup, Json.str?, Schema.option?_none,
    Schema.option?_of_present _ id.isNull_toJson, hid.ofJson?]

theorem ofJson?_error {code : Int} (hcode : -2 ^ 63 ≤ code ∧ code < 2 ^ 63) (message : String) :
    errorSchema.read? (.obj (ResponseError.members ⟨code, message, none⟩)) =
        some (.obj (ResponseError.members ⟨code, message, none⟩)) ∧
      ResponseError.ofJson? (.obj (ResponseError.members ⟨code, message, none⟩)) =
        some ⟨code, message, none⟩ := by
  have hread : errorSchema.read? (.obj (ResponseError.members ⟨code, message, none⟩)) =
      some (.obj (ResponseError.members ⟨code, message, none⟩)) := by
    have hmin : Int64.minValue.toInt = -2 ^ 63 := by decide
    have hmax : Int64.maxValue.toInt = 2 ^ 63 - 1 := by decide
    have hin : Int64.minValue.toInt ≤ code ∧ code ≤ Int64.maxValue.toInt := by omega
    have hcode' : Schema.int64.read? (.ofInt code) = some (.ofInt code) := if_pos hin
    simp [ResponseError.members, errorSchema, Schema.required, Schema.optional, Schema.read?,
      Schema.readMembers?_cons, Schema.readMembers?_nil, Schema.field?_optional,
      Schema.field?_required, Schema.option?_none, Json.lookup, hcode']
    rfl
  refine ⟨hread, ?_⟩
  rw [ResponseError.ofJson?, hread]
  rfl

theorem classify?_failure (hid : id.IsWord) {code : Int} (hcode : -2 ^ 63 ≤ code ∧ code < 2 ^ 63)
    (message : String) : classify? (.mkObj (members (.failure id code message))) =
      some (.failure id code message) := by
  obtain ⟨hread, herror⟩ := ofJson?_error hcode message
  have hobj : Json.mkObj (members (.failure id code message)) =
      .obj [("error", .obj (ResponseError.members ⟨code, message, none⟩)), ("id", id.toJson),
        ("jsonrpc", .str protocolVersion)] := rfl
  rw [hobj, classify?_of_id (w := id.toJson) (by simp [Json.get?, Json.lookup])
    (by simp [Json.present?, Json.get?, Json.lookup, id.isNull_toJson]), Response.ofJson?_obj]
  simp [Json.lookup, Json.str?, Schema.option?_of_present _ id.isNull_toJson,
    Schema.option?_of_present _ (show Json.isNull (.obj _) = false from rfl), hid.ofJson?, hread,
    herror, failure]

/-! ## From the writer to the reader -/

/-- A message that can be sent: any request and any notification, and the responses that are built.
Its payload has room inside the object of the message. -/
inductive Sendable : Message → Prop
  | request {version method : String} {id : RequestId} {params : Json} (hid : id.IsWord)
      (hparams : Exact (nestingLimit - 1) params) :
      Sendable (.request ⟨version, id, method, params⟩)
  | notification {version method : String} {params : Json}
      (hparams : Exact (nestingLimit - 1) params) :
      Sendable (.notification ⟨version, method, params⟩)
  | success {id : RequestId} {result : Json} (hid : id.IsWord)
      (hresult : Exact (nestingLimit - 1) result) : Sendable (.success id result)
  | failure {id : RequestId} {code : Int} (message : String) (hid : id.IsWord)
      (hcode : -2 ^ 63 ≤ code ∧ code < 2 ^ 63) : Sendable (.failure id code message)

/-- The same message, where no result is as good as a result of null. -/
inductive Same : Message → Message → Prop
  | request (r : Request) : Same (.request r) (.request r)
  | notification (n : Notification) : Same (.notification n) (.notification n)
  | response {version : String} {id : Option RequestId} {result result' : Option Json}
      {error : Option ResponseError} (h : result.getD .null = result'.getD .null) :
      Same (.response ⟨version, id, result, error⟩) (.response ⟨version, id, result', error⟩)

theorem Sendable.exact_members {m : Message} (h : m.Sendable) :
    ∀ f ∈ m.members, Exact (nestingLimit - 1) f.2 := by
  cases h with
  | @request version method id params hid hparams =>
    change ∀ f ∈ [("jsonrpc", .str version), ("id", id.toJson), ("method", .str method),
      ("params", params)], _
    simpa using ⟨.str _, hid.exact _, .str _, hparams⟩
  | @notification version method params hparams =>
    change ∀ f ∈ [("jsonrpc", .str version), ("method", .str method), ("params", params)], _
    simpa using ⟨.str _, .str _, hparams⟩
  | @success id result hid hresult =>
    change ∀ f ∈ [("jsonrpc", .str protocolVersion), ("id", id.toJson), ("result", result)], _
    simpa using ⟨.str _, hid.exact _, hresult⟩
  | @failure id code message hid hcode =>
    have herror : Exact (nestingLimit - 1)
        (.obj [("code", .ofInt code), ("message", .str message)]) :=
      .obj (show ["code", "message"].Pairwise (· < ·) by decide)
        (by simpa using ⟨.int hcode.1 (Int.lt_trans hcode.2 (by decide)), .str _⟩)
    change ∀ f ∈ [("jsonrpc", .str protocolVersion), ("id", id.toJson),
      ("error", .obj [("code", .ofInt code), ("message", .str message)])], _
    simpa using ⟨.str _, hid.exact _, herror⟩

theorem Sendable.classify? {m : Message} (h : m.Sendable) :
    ∃ m', Message.classify? (.mkObj m.members) = some m' ∧ m.Same m' := by
  cases h with
  | request hid hparams => exact ⟨_, classify?_request hid, .request _⟩
  | notification hparams => exact ⟨_, classify?_notification, .notification _⟩
  | @success id result hid hresult =>
    refine ⟨_, classify?_success hid, .response ?_⟩
    cases result <;> rfl
  | failure message hid hcode => exact ⟨_, classify?_failure hid hcode message, .response rfl⟩

/-- A message that is written, framed, taken from the front of a buffer, parsed and classified is
the same message, whatever its payload contains and whatever follows it. (The bytes of a frame have
addresses, which is what `hfits` says.) -/
theorem received_of_sendable {m : Message} (h : m.Sendable)
    (hfits : m.frame.length < addressLimit) (rest : Frame.Bytes) :
    Frame.take (m.frame ++ rest) = (.ok (some m.body), rest) ∧
      ∃ m', (Json.read? m.body).bind Message.classify? = some m' ∧ m.Same m' := by
  rw [frame_eq_encode] at hfits ⊢
  refine ⟨Frame.take_encode hfits rest, ?_⟩
  rw [read?_body h.exact_members]
  exact h.classify?

/-- The payload of a notification looks like a request and has characters of every kind. -/
theorem received_of_sendable_lookalike :
    let m := ofNotification "note" (.obj [("id", .ofInt (-1)), ("method", .str "\"é\n\x01😀")])
    m.Sendable ∧ m.frame.length < addressLimit ∧
      Frame.take (m.frame ++ [67]) = (.ok (some m.body), [67]) ∧
      (Json.read? m.body).bind Message.classify? = some m := by
  intro m
  have hsendable : m.Sendable :=
    .notification (.obj (by decide) (by simpa using ⟨.int (by decide) (by decide), .str _⟩))
  have hfits : m.frame.length < addressLimit := by decide +kernel
  obtain ⟨htake, m', hread, hsame⟩ := received_of_sendable hsendable hfits [67]
  have hsame : Same (.notification ⟨_, _, _⟩) m' := hsame
  cases hsame
  exact ⟨hsendable, hfits, htake, hread⟩

end Message

end LanguageHub
