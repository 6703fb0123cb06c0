import LanguageHub.Feature.Basic
import LanguageHub.Proofs.Client.Replies
import LanguageHub.Proofs.Wire.Messages
import Mathlib.Data.List.Forall2

/-!
# Locations in answers

A record comes as an object or as an array of its fields in order, and so do positions, ranges,
locations and links. A link leads to a location: its target, and the part of that to select.

Laws: what is read as a location, and what as a link; which locations an answer about the usages of
one kind has.
-/

namespace LanguageHub

open Json (lookup)

/-! ## Records -/

/-- The fields of a record with these names, where some may be missing. -/
inductive HasFields (names : List String) : Json → List (Option Json) → Prop
  | object (members : List (String × Json)) :
      HasFields names (.obj members) (names.map (lookup · members))
  | array {items : List Json} (h : items.length = names.length) :
      HasFields names (.arr items) (items.map some)

namespace Schema

variable {fields : List (String × Presence × Schema)} {v w : Json} {schema : Schema} {name : String}

/-- Fields in their order with what they are read as. -/
def readFields? : List (String × Presence × Schema) → List (Option Json) →
    Option (List (String × Json))
  | (name, presence, schema) :: fields, v? :: vs => do
    let w? ← schema.field? presence v?
    let rest ← readFields? fields vs
    pure ((w?.map (name, ·)).toList ++ rest)
  | [], [] => some []
  | _, _ => none

theorem readMembers?_eq (fields : List (String × Presence × Schema))
    (members : List (String × Json)) :
    readMembers? fields members = readFields? fields (fields.map fun f => lookup f.1 members) := by
  induction fields with
  | nil => rfl
  | cons f fields ih =>
    obtain ⟨name, presence, schema⟩ := f
    rw [readMembers?_cons, ih, List.map_cons, readFields?]
    cases readFields? fields (fields.map fun f => lookup f.1 members) <;>
      cases schema.field? presence (lookup name members) <;> rfl

theorem readOrdered?_cons {presence : Presence} (hpresence : presence ≠ .defaulted) (name : String)
    (schema : Schema) (fields : List (String × Presence × Schema)) (v : Json) (vs : List Json) :
    readOrdered? ((name, presence, schema) :: fields) (v :: vs) =
      (readOrdered? fields vs).bind fun rest =>
        (schema.field? presence (some v)).map fun v? => (v?.map (name, ·)).toList ++ rest := by
  cases presence with
  | defaulted => exact absurd rfl hpresence
  | required =>
    rw [readOrdered?.eq_def]
    dsimp only [field?]
    cases schema.read? v <;> rfl
  | optional => exact Client.readOrdered?_optional name schema fields v vs
  | nullable =>
    rw [readOrdered?.eq_def]
    cases v with
    | null => rfl
    | _ =>
      dsimp only [field?]
      generalize schema.read? _ = read
      cases read <;> rfl

/-- An array has all fields of a record none of which has a default. -/
theorem readOrdered?_eq (hfields : ∀ f ∈ fields, f.2.1 ≠ .defaulted) (items : List Json) :
    readOrdered? fields items = readFields? fields (items.map some) := by
  induction fields generalizing items with
  | nil => cases items <;> rfl
  | cons f fields ih =>
    obtain ⟨name, presence, schema⟩ := f
    rw [List.forall_mem_cons] at hfields
    cases items with
    | nil =>
      cases presence with
      | defaulted => exact absurd rfl hfields.1
      | _ => rfl
    | cons v items =>
      rw [readOrdered?_cons hfields.1, List.map_cons, readFields?, ← ih hfields.2 items]
      cases readOrdered? fields items <;> cases schema.field? presence (some v) <;> rfl

theorem readFields?_nil_iff {vs : List (Option Json)} {ws : List (String × Json)} :
    readFields? [] vs = some ws ↔ vs = [] ∧ ws = [] := by
  cases vs <;> simp [readFields?, eq_comm]

theorem readFields?_cons_iff {presence : Presence} {vs : List (Option Json)}
    {ws : List (String × Json)} : readFields? ((name, presence, schema) :: fields) vs = some ws ↔
      ∃ v? rest w? others, vs = v? :: rest ∧ schema.field? presence v? = some w? ∧
        readFields? fields rest = some others ∧ ws = (w?.map (name, ·)).toList ++ others := by
  constructor
  · intro h
    cases vs with
    | nil => cases h
    | cons v? rest =>
      obtain ⟨w?, hw, h⟩ := Option.bind_eq_some_iff.mp h
      obtain ⟨others, hothers, h⟩ := Option.bind_eq_some_iff.mp h
      exact ⟨v?, rest, w?, others, rfl, hw, hothers, (Option.some.inj h).symm⟩
  · rintro ⟨v?, rest, w?, others, rfl, hw, hothers, rfl⟩
    rw [readFields?, hw, hothers]
    rfl

theorem length_of_readFields? {vs : List (Option Json)} {ws : List (String × Json)}
    (h : readFields? fields vs = some ws) : vs.length = fields.length := by
  induction fields generalizing vs ws with
  | nil => rw [(readFields?_nil_iff.mp h).1, List.length_nil, List.length_nil]
  | cons f fields ih =>
    obtain ⟨_, rest, _, _, rfl, -, hrest, -⟩ := readFields?_cons_iff.mp h
    rw [List.length_cons, List.length_cons, ih hrest]

theorem field?_required_iff {v? w? : Option Json} :
    schema.field? .required v? = some w? ↔
      ∃ v w, v? = some v ∧ schema.read? v = some w ∧ w? = some w := by
  cases v? with
  | none => simp [field?]
  | some v =>
    rw [field?_required, Option.map_eq_some_iff]
    constructor
    · rintro ⟨w, hw, rfl⟩
      exact ⟨v, w, rfl, hw, rfl⟩
    · rintro ⟨_, w, ⟨⟩, hw, rfl⟩
      exact ⟨w, hw, rfl⟩

/-- A record is read field by field, however it comes. -/
theorem read?_record_iff (hfields : ∀ f ∈ fields, f.2.1 ≠ .defaulted) :
    (Schema.record fields).read? v = some w ↔ ∃ vs ws, HasFields (fields.map (·.1)) v vs ∧
      readFields? fields vs = some ws ∧ w = .mkObj ws := by
  constructor
  · intro h
    cases v with
    | obj members =>
      rw [read?, readMembers?_eq] at h
      obtain ⟨ws, hws, rfl⟩ := Option.map_eq_some_iff.mp h
      exact ⟨_, ws, .object members, by rwa [List.map_map], rfl⟩
    | arr items =>
      rw [read?, readOrdered?_eq hfields] at h
      obtain ⟨ws, hws, rfl⟩ := Option.map_eq_some_iff.mp h
      exact ⟨_, ws, .array (by simpa using length_of_readFields? hws), hws, rfl⟩
    | _ => cases h
  · rintro ⟨vs, ws, hv, hws, rfl⟩
    cases hv with
    | object members =>
      rw [List.map_map] at hws
      rw [read?, readMembers?_eq]
      exact Option.map_eq_some_iff.mpr ⟨ws, hws, rfl⟩
    | array hlength =>
      rw [read?, readOrdered?_eq hfields]
      exact Option.map_eq_some_iff.mpr ⟨ws, hws, rfl⟩

/-- A record with two fields that must be there. -/
theorem read?_pair_iff {a b : String} {first second : Schema} :
    (Schema.record [required a first, required b second]).read? v = some w ↔
      ∃ x y x' y', HasFields [a, b] v [some x, some y] ∧ first.read? x = some x' ∧
        second.read? y = some y' ∧ w = .mkObj [(a, x'), (b, y')] := by
  rw [read?_record_iff (by simp [required])]
  simp only [required, readFields?_cons_iff, readFields?_nil_iff, field?_required_iff]
  constructor
  · rintro ⟨_, _, hv, ⟨_, _, _, _, rfl, ⟨x, x', rfl, hx, rfl⟩,
      ⟨_, _, _, _, rfl, ⟨y, y', rfl, hy, rfl⟩, ⟨rfl, rfl⟩, rfl⟩, rfl⟩, rfl⟩
    exact ⟨x, y, x', y', hv, hx, hy, rfl⟩
  · rintro ⟨x, y, x', y', hv, hx, hy, rfl⟩
    exact ⟨_, _, hv, ⟨_, _, _, _, rfl, ⟨x, x', rfl, hx, rfl⟩,
      ⟨_, _, _, _, rfl, ⟨y, y', rfl, hy, rfl⟩, ⟨rfl, rfl⟩, rfl⟩, rfl⟩, rfl⟩

theorem read?_unsigned32_iff : unsigned32.read? v = some w ↔
    ∃ n < UInt32.size, v = .ofNat n ∧ w = .ofNat n := by
  constructor
  · intro h
    cases v with
    | num n =>
      cases n with
      | int n =>
        simp only [unsigned32, read?] at h
        split at h
        · rename_i hbounds
          obtain ⟨m, rfl⟩ := Int.eq_ofNat_of_zero_le hbounds.1
          exact ⟨m, by omega, rfl, (Option.some.inj h).symm⟩
        · cases h
      | double bits => cases h
    | _ => cases h
  · rintro ⟨n, hn, rfl, rfl⟩
    exact if_pos ⟨Int.natCast_nonneg n, by omega⟩

theorem read?_uri_iff : Schema.uri.read? v = some w ↔
    ∃ s, Uri.isValid s = true ∧ v = .str s ∧ w = .str s := by
  constructor
  · intro h
    cases v with
    | str s =>
      simp only [read?] at h
      split at h
      · exact ⟨s, by assumption, rfl, (Option.some.inj h).symm⟩
      · cases h
    | _ => cases h
  · rintro ⟨s, hvalid, rfl, rfl⟩
    exact if_pos hvalid

end Schema

/-! ## Positions and ranges -/

/-- The value is a position, of numbers of 32 bits. -/
structure IsPosition (v : Json) (p : Position) : Prop where
  fields : HasFields ["line", "character"] v [some (.ofNat p.line), some (.ofNat p.character)]
  fits : Text.Fits p

def IsRange (v : Json) (r : Range) : Prop :=
  ∃ start stop, HasFields ["start", "end"] v [some start, some stop] ∧
    IsPosition start r.start ∧ IsPosition stop r.stop

variable {v w : Json} {p : Position} {r : Range} {l : Location}

theorem nat?_ofNat (n : Nat) : (Json.ofNat n).nat? = some n := by
  simp [Json.ofNat, Json.nat?]

/-- What is read of a value is what the value is, when it is anything. -/
theorem eq_some_iff_of_reads {α : Type} {result : Option α} {Is : α → Prop} {a : α}
    (hreads : ∀ a, Is a → result = some a) (hany : result.isSome = true → ∃ a, Is a) :
    result = some a ↔ Is a := by
  refine ⟨fun h => ?_, hreads a⟩
  obtain ⟨b, hb⟩ := hany (by rw [h, Option.isSome_some])
  obtain rfl := Option.some.inj ((hreads b hb).symm.trans h)
  exact hb

theorem isSome_of_isSome_bind {α β : Type} {a? : Option α} {f : α → Option β}
    (h : (a?.bind f).isSome = true) : a?.isSome = true := by
  cases a? with
  | none => cases h
  | some a => rfl

theorem read?_position_iff :
    Schema.position.read? v = some w ↔ ∃ p, IsPosition v p ∧ w = p.toJson := by
  simp only [Schema.position, Schema.read?_pair_iff, Schema.read?_unsigned32_iff]
  constructor
  · rintro ⟨_, _, _, _, hv, ⟨line, hline, rfl, rfl⟩, ⟨column, hcolumn, rfl, rfl⟩, rfl⟩
    exact ⟨⟨line, column⟩, ⟨hv, hline, hcolumn⟩, rfl⟩
  · rintro ⟨p, ⟨hv, hline, hcolumn⟩, rfl⟩
    exact ⟨_, _, _, _, hv, ⟨p.line, hline, rfl, rfl⟩, ⟨p.character, hcolumn, rfl, rfl⟩, rfl⟩

theorem position_ofJson?_iff : Position.ofJson? v = some p ↔ IsPosition v p := by
  refine eq_some_iff_of_reads (fun p hp => ?_) fun hsome => ?_
  · rw [Position.ofJson?, read?_position_iff.mpr ⟨p, hp, rfl⟩]
    simp [Position.toJson, Json.get?_mkObj, Json.lookup, nat?_ofNat]
  · obtain ⟨w, hw⟩ := Option.isSome_iff_exists.mp (isSome_of_isSome_bind hsome)
    obtain ⟨p, hp, -⟩ := read?_position_iff.mp hw
    exact ⟨p, hp⟩

theorem isPosition_toJson (h : Text.Fits p) : IsPosition p.toJson p :=
  ⟨.object _, h⟩

theorem read?_range_iff : Schema.range.read? v = some w ↔ ∃ r, IsRange v r ∧ w = r.toJson := by
  simp only [Schema.range, Schema.read?_pair_iff, read?_position_iff]
  constructor
  · rintro ⟨_, _, _, _, hv, ⟨start, hstart, rfl⟩, ⟨stop, hstop, rfl⟩, rfl⟩
    exact ⟨⟨start, stop⟩, ⟨_, _, hv, hstart, hstop⟩, rfl⟩
  · rintro ⟨r, ⟨_, _, hv, hstart, hstop⟩, rfl⟩
    exact ⟨_, _, _, _, hv, ⟨_, hstart, rfl⟩, ⟨_, hstop, rfl⟩, rfl⟩

theorem range_ofJson?_iff : Range.ofJson? v = some r ↔ IsRange v r := by
  refine eq_some_iff_of_reads (fun r hr => ?_) fun hsome => ?_
  · obtain ⟨_, _, _, hstart, hstop⟩ := id hr
    have hstart' := position_ofJson?_iff.mpr (isPosition_toJson hstart.fits)
    have hstop' := position_ofJson?_iff.mpr (isPosition_toJson hstop.fits)
    rw [Range.ofJson?, read?_range_iff.mpr ⟨r, hr, rfl⟩]
    simp [Range.toJson, Json.get?_mkObj, Json.lookup, hstart', hstop']
  · obtain ⟨w, hw⟩ := Option.isSome_iff_exists.mp (isSome_of_isSome_bind hsome)
    obtain ⟨r, hr, -⟩ := read?_range_iff.mp hw
    exact ⟨r, hr⟩

theorem isRange_toJson (h : IsRange v r) : IsRange r.toJson r := by
  obtain ⟨_, _, _, hstart, hstop⟩ := h
  exact ⟨_, _, .object _, isPosition_toJson hstart.fits, isPosition_toJson hstop.fits⟩

/-- A range that may be missing, and may be null then. -/
inductive IsOptionalRange : Option Json → Option Range → Prop
  | missing : IsOptionalRange none none
  | null : IsOptionalRange (some .null) none
  | range {v : Json} {r : Range} (h : IsRange v r) : IsOptionalRange (some v) (some r)

theorem field?_range_iff {v? w? : Option Json} : Schema.range.field? .optional v? = some w? ↔
    ∃ r?, IsOptionalRange v? r? ∧ w? = r?.map Range.toJson := by
  match v? with
  | none =>
    constructor
    · rintro ⟨⟩
      exact ⟨none, .missing, rfl⟩
    · rintro ⟨_, ⟨⟩, rfl⟩
      rfl
  | some .null =>
    constructor
    · rintro ⟨⟩
      exact ⟨none, .null, rfl⟩
    · rintro ⟨_, _ | _ | ⟨⟨_, _, ⟨⟩, -⟩⟩, rfl⟩
      rfl
  | some (.bool _) | some (.num _) | some (.str _) | some (.arr _) | some (.obj _) =>
    simp only [Schema.field?, Option.map_eq_some_iff, read?_range_iff]
    constructor
    · rintro ⟨_, ⟨r, hr, rfl⟩, rfl⟩
      exact ⟨some r, .range hr, rfl⟩
    · rintro ⟨_, _ | _ | hr, rfl⟩
      exact ⟨_, ⟨_, hr, rfl⟩, rfl⟩

/-! ## Locations and links -/

def IsLocation (v : Json) (l : Location) : Prop :=
  ∃ range, HasFields ["uri", "range"] v [some (.str l.uri), some range] ∧
    Uri.isValid l.uri = true ∧ IsRange range l.range

/-- The value is a link to the location: to a target, and in it to what is to be selected. It may
say where it starts. -/
def IsLink (v : Json) (l : Location) : Prop :=
  ∃ origin? target selection,
    HasFields ["originSelectionRange", "targetUri", "targetRange", "targetSelectionRange"] v
      [origin?, some (.str l.uri), some target, some selection] ∧
    (∃ r?, IsOptionalRange origin? r?) ∧ Uri.isValid l.uri = true ∧ (∃ r, IsRange target r) ∧
    IsRange selection l.range

theorem read?_location_iff :
    Schema.location.read? v = some w ↔ ∃ l, IsLocation v l ∧ w = l.toJson := by
  simp only [Schema.location, Schema.read?_pair_iff, Schema.read?_uri_iff, read?_range_iff]
  constructor
  · rintro ⟨_, _, _, _, hv, ⟨uri, hvalid, rfl, rfl⟩, ⟨r, hr, rfl⟩, rfl⟩
    exact ⟨⟨uri, r⟩, ⟨_, hv, hvalid, hr⟩, rfl⟩
  · rintro ⟨l, ⟨_, hv, hvalid, hr⟩, rfl⟩
    exact ⟨_, _, _, _, hv, ⟨l.uri, hvalid, rfl, rfl⟩, ⟨_, hr, rfl⟩, rfl⟩

theorem location_ofJson?_iff : Location.ofJson? v = some l ↔ IsLocation v l := by
  refine eq_some_iff_of_reads (fun l hl => ?_) fun hsome => ?_
  · obtain ⟨_, _, _, hr⟩ := id hl
    have hr' := range_ofJson?_iff.mpr (isRange_toJson hr)
    rw [Location.ofJson?, read?_location_iff.mpr ⟨l, hl, rfl⟩]
    simp [Location.toJson, Json.get?_mkObj, Json.lookup, Json.str?, hr']
  · obtain ⟨w, hw⟩ := Option.isSome_iff_exists.mp (isSome_of_isSome_bind hsome)
    obtain ⟨l, hl, -⟩ := read?_location_iff.mp hw
    exact ⟨l, hl⟩

/-- The form in which a link is read. -/
def linkForm (r? : Option Range) (target : Range) (l : Location) : Json :=
  .mkObj (((r?.map Range.toJson).map ("originSelectionRange", ·)).toList ++
    [("targetUri", .str l.uri), ("targetRange", target.toJson),
      ("targetSelectionRange", l.range.toJson)])

theorem read?_link_iff : Schema.locationLink.read? v = some w ↔
    ∃ origin? target selection uri r? t r, HasFields
      ["originSelectionRange", "targetUri", "targetRange", "targetSelectionRange"] v
        [origin?, some (.str uri), some target, some selection] ∧
      IsOptionalRange origin? r? ∧ Uri.isValid uri = true ∧ IsRange target t ∧
      IsRange selection r ∧ w = linkForm r? t ⟨uri, r⟩ := by
  rw [Schema.locationLink, Schema.read?_record_iff (by simp [Schema.required, Schema.optional])]
  simp only [Schema.required, Schema.optional, Schema.readFields?_cons_iff,
    Schema.readFields?_nil_iff, Schema.field?_required_iff, field?_range_iff,
    Schema.read?_uri_iff, read?_range_iff]
  constructor
  · rintro ⟨_, _, hv, ⟨origin?, _, _, _, rfl, ⟨r?, horigin, rfl⟩,
      ⟨_, _, _, _, rfl, ⟨_, _, rfl, ⟨uri, hvalid, rfl, rfl⟩, rfl⟩,
      ⟨_, _, _, _, rfl, ⟨target, _, rfl, ⟨t, ht, rfl⟩, rfl⟩,
      ⟨_, _, _, _, rfl, ⟨selection, _, rfl, ⟨r, hr, rfl⟩, rfl⟩, ⟨rfl, rfl⟩, rfl⟩, rfl⟩, rfl⟩, rfl⟩,
      rfl⟩
    exact ⟨_, _, _, uri, r?, t, r, hv, horigin, hvalid, ht, hr, rfl⟩
  · rintro ⟨origin?, target, selection, uri, r?, t, r, hv, horigin, hvalid, ht, hr, rfl⟩
    exact ⟨_, _, hv, ⟨origin?, _, _, _, rfl, ⟨r?, horigin, rfl⟩,
      ⟨_, _, _, _, rfl, ⟨_, _, rfl, ⟨uri, hvalid, rfl, rfl⟩, rfl⟩,
      ⟨_, _, _, _, rfl, ⟨target, _, rfl, ⟨t, ht, rfl⟩, rfl⟩,
      ⟨_, _, _, _, rfl, ⟨selection, _, rfl, ⟨r, hr, rfl⟩, rfl⟩, ⟨rfl, rfl⟩, rfl⟩, rfl⟩, rfl⟩, rfl⟩,
      rfl⟩

theorem location_ofLink?_iff : Location.ofLink? v = some l ↔ IsLink v l := by
  refine eq_some_iff_of_reads (fun l hl => ?_) fun hsome => ?_
  · obtain ⟨_, _, _, hv, ⟨r?, horigin⟩, hvalid, ⟨t, ht⟩, hr⟩ := hl
    have hr' := range_ofJson?_iff.mpr (isRange_toJson hr)
    rw [Location.ofLink?, read?_link_iff.mpr
      ⟨_, _, _, _, r?, t, _, hv, horigin, hvalid, ht, hr, rfl⟩]
    cases r? <;> simp [linkForm, Json.get?_mkObj, Json.lookup, Json.str?, hr']
  · obtain ⟨w, hw⟩ := Option.isSome_iff_exists.mp (isSome_of_isSome_bind hsome)
    obtain ⟨_, _, _, uri, r?, t, r, hv, horigin, hvalid, ht, hr, -⟩ := read?_link_iff.mp hw
    exact ⟨⟨uri, r⟩, _, _, _, hv, ⟨r?, horigin⟩, hvalid, ⟨t, ht⟩, hr⟩

/-! ## Answers -/

/-- The locations that an answer about usages of a kind has. Only references are never a single
location or links; a list of what could be either is one of locations. -/
inductive HasLocations (kind : UsageKind) : Json → List Location → Prop
  | null : HasLocations kind .null []
  | single {v : Json} {l : Location} (hkind : kind ≠ .reference) (h : IsLocation v l) :
      HasLocations kind v [l]
  | several {items : List Json} {ls : List Location} (h : List.Forall₂ IsLocation items ls) :
      HasLocations kind (.arr items) ls
  | links {items : List Json} {ls : List Location} (hkind : kind ≠ .reference)
      (hother : ∀ ls', ¬ List.Forall₂ IsLocation items ls') (h : List.Forall₂ IsLink items ls) :
      HasLocations kind (.arr items) ls

theorem mapM_ofJson?_iff {items : List Json} {ls : List Location} :
    items.mapM Location.ofJson? = some ls ↔ List.Forall₂ IsLocation items ls := by
  simp only [Client.mapM_eq_some_iff, location_ofJson?_iff]

theorem mapM_ofLink?_iff {items : List Json} {ls : List Location} :
    items.mapM Location.ofLink? = some ls ↔ List.Forall₂ IsLink items ls := by
  simp only [Client.mapM_eq_some_iff, location_ofLink?_iff]

/-- A text is no record, and so a list of records is not itself a location. -/
theorem not_isLocation_arr {R : Json → Location → Prop} (htext : ∀ s l, ¬ R (.str s) l)
    {items : List Json} {ls : List Location} (h : List.Forall₂ R items ls) :
    ¬ IsLocation (.arr items) l := by
  rintro ⟨range, hfields, -⟩
  generalize hvs : [some (.str l.uri), some range] = vs at hfields
  cases hfields with
  | array =>
    cases h with
    | nil => cases hvs
    | cons hhead _ =>
      obtain rfl := Option.some.inj (List.cons.inj hvs).1
      exact htext _ _ hhead

theorem not_isLocation_str (s : String) (l : Location) : ¬ IsLocation (.str s) l := by
  rintro ⟨_, ⟨⟩, -⟩

theorem not_isLink_str (s : String) (l : Location) : ¬ IsLink (.str s) l := by
  rintro ⟨_, _, _, ⟨⟩, -⟩

theorem mapM_or_eq_some_iff {items : List Json} {ls : List Location} :
    (items.mapM Location.ofJson?).or (items.mapM Location.ofLink?) = some ls ↔
      List.Forall₂ IsLocation items ls ∨
        (∀ ls', ¬ List.Forall₂ IsLocation items ls') ∧ List.Forall₂ IsLink items ls := by
  simp only [Option.or_eq_some_iff, Option.eq_none_iff_forall_ne_some, ne_eq, mapM_ofJson?_iff,
    mapM_ofLink?_iff]

theorem locationsOf_of_isLocation (h : IsLocation v l) : locationsOf v = some [l] := by
  unfold locationsOf
  rw [location_ofJson?_iff.mpr h]

theorem locationsOf_arr {items : List Json} (h : ∀ l, ¬ IsLocation (.arr items) l) :
    locationsOf (.arr items) =
      (items.mapM Location.ofJson?).or (items.mapM Location.ofLink?) := by
  have hread : Location.ofJson? (.arr items) = none :=
    Option.eq_none_iff_forall_ne_some.mpr fun l hl => h l (location_ofJson?_iff.mp hl)
  unfold locationsOf
  rw [hread]

theorem locationsOf_iff {ls : List Location} : locationsOf v = some ls ↔
    (∃ l, IsLocation v l ∧ ls = [l]) ∨ ∃ items, v = .arr items ∧
      (List.Forall₂ IsLocation items ls ∨
        (∀ ls', ¬ List.Forall₂ IsLocation items ls') ∧ List.Forall₂ IsLink items ls) := by
  constructor
  · intro h
    by_cases hsingle : ∃ l, IsLocation v l
    · obtain ⟨l, hl⟩ := hsingle
      rw [locationsOf_of_isLocation hl] at h
      exact .inl ⟨l, hl, (Option.some.inj h).symm⟩
    · rw [not_exists] at hsingle
      cases v with
      | arr items =>
        rw [locationsOf_arr hsingle, mapM_or_eq_some_iff] at h
        exact .inr ⟨items, rfl, h⟩
      | _ =>
        unfold locationsOf at h
        split at h
        · exact absurd (location_ofJson?_iff.mp (by assumption)) (hsingle _)
        · cases h
  · rintro (⟨l, hl, rfl⟩ | ⟨items, rfl, hitems⟩)
    · exact locationsOf_of_isLocation hl
    · have hlist : ∀ l, ¬ IsLocation (.arr items) l := fun l =>
        hitems.elim (not_isLocation_arr not_isLocation_str) fun hlinks =>
          not_isLocation_arr not_isLink_str hlinks.2
      rw [locationsOf_arr hlist, mapM_or_eq_some_iff]
      exact hitems

theorem not_isLocation_null (l : Location) : ¬ IsLocation .null l := by
  rintro ⟨_, ⟨⟩, -⟩

theorem locations?_of_ne_reference {kind : UsageKind} (hkind : kind ≠ .reference)
    (hnull : v ≠ .null) : kind.locations? v = locationsOf v := by
  cases v with
  | null => exact absurd rfl hnull
  | _ => cases kind <;> first | rfl | exact absurd rfl hkind

theorem locations?_reference_iff {ls : List Location} (hnull : v ≠ .null) :
    UsageKind.reference.locations? v = some ls ↔
      ∃ items, v = .arr items ∧ items.mapM Location.ofJson? = some ls := by
  cases v with
  | null => exact absurd rfl hnull
  | arr items =>
    exact ⟨fun h => ⟨items, rfl, h⟩, fun ⟨_, hitems, h⟩ => Json.arr.inj hitems ▸ h⟩
  | _ => simp [UsageKind.locations?, Json.arr?]

theorem locations?_iff {kind : UsageKind} {ls : List Location} :
    kind.locations? v = some ls ↔ HasLocations kind v ls := by
  constructor
  · intro h
    by_cases hnull : v = .null
    · subst hnull
      obtain rfl : [] = ls := Option.some.inj h
      exact .null
    · by_cases hkind : kind = .reference
      · subst hkind
        obtain ⟨items, rfl, hls⟩ := (locations?_reference_iff hnull).mp h
        exact .several (mapM_ofJson?_iff.mp hls)
      · rw [locations?_of_ne_reference hkind hnull, locationsOf_iff] at h
        obtain ⟨l, hl, rfl⟩ | ⟨items, rfl, hitems | ⟨hother, hitems⟩⟩ := h
        · exact .single hkind hl
        · exact .several hitems
        · exact .links hkind hother hitems
  · intro h
    cases h with
    | null => rfl
    | single hkind hl =>
      have hnull : v ≠ .null := fun hv => not_isLocation_null _ (hv ▸ hl)
      rw [locations?_of_ne_reference hkind hnull, locationsOf_iff]
      exact .inl ⟨_, hl, rfl⟩
    | several hitems =>
      by_cases hkind : kind = .reference
      · subst hkind
        exact mapM_ofJson?_iff.mpr hitems
      · rw [locations?_of_ne_reference hkind Json.noConfusion, locationsOf_iff]
        exact .inr ⟨_, rfl, .inl hitems⟩
    | links hkind hother hitems =>
      rw [locations?_of_ne_reference hkind Json.noConfusion, locationsOf_iff]
      exact .inr ⟨_, rfl, .inr ⟨hother, hitems⟩⟩

end LanguageHub
