import LanguageHub.Proofs.Registry.Operations

/-!
# Which definitions serve a document

A document is served by every enabled definition that one of the associations names for its language
and its path, in the order in which these associations were registered. Whether a pattern fits a
text is left to the patterns.
-/

namespace LanguageHub

/-! ## The first of each -/

/-- Without later copies, what is picked from a list stands in the order of what it is picked
from. -/
theorem pairwise_eraseDups_filterMap {α β : Type} [DecidableEq β] (f : α → Option β)
    (xs : List α) :
    (xs.filterMap f).eraseDups.Pairwise fun b c =>
      xs.findIdx (f · == some b) < xs.findIdx (f · == some c) := by
  induction xs generalizing f with
  | nil => simp
  | cons x xs ih =>
    cases hx : f x with
    | none =>
      rw [List.filterMap_cons_none hx]
      simpa [List.findIdx_cons, hx] using ih f
    | some b =>
      rw [List.filterMap_cons_some hx, List.eraseDups_cons, List.pairwise_cons]
      have hrest : ((xs.filterMap f).filter fun c => !c == b) =
          xs.filterMap fun y => (f y).filter (· != b) := by
        rw [List.filter_filterMap]
        rfl
      rw [hrest]
      have hother : ∀ c ∈ (xs.filterMap fun y => (f y).filter (· != b)).eraseDups, c ≠ b := by
        intro c hc
        rw [List.mem_eraseDups, List.mem_filterMap] at hc
        obtain ⟨y, -, hy⟩ := hc
        simpa using (Option.filter_eq_some_iff.mp hy).2
      -- Leaving out the first one changes no place of the others.
      have hplace : ∀ c, c ≠ b → (x :: xs).findIdx (f · == some c) =
          xs.findIdx (fun y => (f y).filter (· != b) == some c) + 1 := by
        intro c hc
        have hne : (some b == some c) = false := by simpa using Ne.symm hc
        rw [List.findIdx_cons, hx, hne, cond_false]
        congr 2
        funext y
        cases f y with
        | none => rfl
        | some d => by_cases hd : d = b <;> simp [hd, Ne.symm hc, Option.filter]
      refine ⟨fun c hc => ?_, ?_⟩
      · rw [hplace c (hother c hc), List.findIdx_cons, hx]
        simp
      · refine (ih fun y => (f y).filter (· != b)).imp_of_mem fun {c d} hc hd hlt => ?_
        rw [hplace c (hother c hc), hplace d (hother d hd)]
        exact Nat.succ_lt_succ hlt

/-! ## Eligible associations -/

/-- The association lets this definition serve documents of the language at the path. -/
def LanguageAssociation.Serves (a : LanguageAssociation) (id : String) (l : Language)
    (path : String) : Prop :=
  a.definitionId = id ∧ a.language.id ∈ l.ancestry ∧
  ∀ m ∈ a.matcher, m.fits path ∨ ∃ name ∈ Path.fileName? path, m.fits name

instance (a : LanguageAssociation) (id : String) (l : Language) (path : String) :
    Decidable (a.Serves id l path) :=
  inferInstanceAs (Decidable (_ ∧ _ ∧ ∀ m ∈ a.matcher, _))

namespace Registry

variable {r : Registry}

/-- Which definition an association names for a document. -/
def namedBy (l : Language) (path : String) (a : LanguageAssociation) : Option String :=
  if l.isKindOf a.language && a.isEligible path then some a.definitionId else none

theorem namedBy_eq_some_iff {l : Language} {path id : String} {a : LanguageAssociation} :
    namedBy l path a = some id ↔ a.Serves id l path := by
  have heligible : a.isEligible path = true ↔
      ∀ m ∈ a.matcher, m.fits path ∨ ∃ name ∈ Path.fileName? path, m.fits name := by
    unfold LanguageAssociation.isEligible DocumentMatcher.isMatch
    cases a.matcher <;> cases Path.fileName? path <;> simp
  unfold namedBy LanguageAssociation.Serves
  rw [← heligible]
  simp only [Language.isKindOf, Bool.and_eq_true, List.contains_iff_mem]
  split <;> simp_all

theorem eligibleIds_eq (r : Registry) (l : Language) (path : String) :
    r.eligibleIds l path = (r.associations.filterMap (namedBy l path)).eraseDups := by
  unfold eligibleIds
  congr 1
  induction r.associations with
  | nil => rfl
  | cons a rest ih =>
    rw [List.filter_cons, List.filterMap_cons, namedBy]
    split <;> simp_all

/-- Where the first association is that lets a definition serve a document. -/
def place (r : Registry) (l : Language) (path id : String) : Nat :=
  r.associations.findIdx fun a => a.Serves id l path

theorem pairwise_eligibleIds (r : Registry) (l : Language) (path : String) :
    (r.eligibleIds l path).Pairwise fun x y => r.place l path x < r.place l path y := by
  have hplace : ∀ id, r.place l path id =
      r.associations.findIdx (namedBy l path · == some id) := by
    intro id
    refine congrArg (List.findIdx · r.associations) (funext fun a => ?_)
    rw [← Bool.coe_iff_coe]
    simp [namedBy_eq_some_iff]
  simp only [eligibleIds_eq, hplace]
  exact pairwise_eraseDups_filterMap _ _

theorem mem_eligibleIds {l : Language} {path id : String} :
    id ∈ r.eligibleIds l path ↔ ∃ a ∈ r.associations, a.Serves id l path := by
  rw [eligibleIds_eq, List.mem_eraseDups, List.mem_filterMap]
  simp only [namedBy_eq_some_iff]

theorem mem_definitionsFor (hr : r.ids.Nodup) {l : Language} {path : String}
    {d : ServerDefinition} :
    d ∈ r.definitionsFor l path ↔
      d ∈ r.definitions ∧ d.enabled ∧ ∃ a ∈ r.associations, a.Serves d.id l path := by
  unfold definitionsFor
  rw [List.mem_filter, List.mem_filterMap, ← mem_eligibleIds]
  constructor
  · rintro ⟨⟨id, hid, hd⟩, henabled⟩
    rw [← id_of_find? hd] at hid
    exact ⟨List.mem_of_find?_eq_some hd, henabled, hid⟩
  · rintro ⟨hd, henabled, hid⟩
    exact ⟨⟨d.id, hid, find?_of_mem hr hd⟩, henabled⟩

theorem pairwise_definitionsFor (r : Registry) (l : Language) (path : String) :
    (r.definitionsFor l path).Pairwise fun d e => r.place l path d.id < r.place l path e.id := by
  refine List.Pairwise.filter _ ?_
  refine (pairwise_eligibleIds r l path).filterMap r.find? fun x y hlt d hd e he => ?_
  rwa [id_of_find? hd, id_of_find? he]

/-- However a registry came about, a document is served by the enabled definitions with an
association for it and by no others, by each once, in the order of their first such associations. -/
theorem definitionsFor_of_run (operations : List Operation) (l : Language) (path : String) :
    let r := run operations
    (∀ d, d ∈ r.definitionsFor l path ↔
      d ∈ r.definitions ∧ d.enabled ∧ ∃ a ∈ r.associations, a.Serves d.id l path) ∧
    ((r.definitionsFor l path).map (·.id)).Nodup ∧
    (r.definitionsFor l path).Pairwise fun d e =>
      r.associations.findIdx (fun a => a.Serves d.id l path) <
        r.associations.findIdx fun a => a.Serves e.id l path := by
  intro r
  have hids : r.ids.Nodup := nodup_ids_run operations
  refine ⟨fun d => mem_definitionsFor hids, ?_, pairwise_definitionsFor r l path⟩
  rw [List.Nodup, List.pairwise_map]
  exact (pairwise_definitionsFor r l path).imp fun hlt heq => absurd hlt (by simp [heq])

end Registry

end LanguageHub
