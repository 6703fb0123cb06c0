import LanguageHub.Proofs.Registry.Operations
import LanguageHub.Proofs.Tables
import LanguageHub.Registry.Configured
import Mathlib.Logic.Relation

/-!
# Kinds of languages

The configuration gives a language at most one base, and the bases may lead back to where they
came from. A configured language is a kind of exactly those that its bases lead to, in loops too.
-/

namespace LanguageHub

namespace Language

/-- The first language is declared with the second one as its base. -/
def Derives (declared : List (String × Option String)) (id base : String) : Prop :=
  List.lookup id declared = some (some base)

/-- From a language along the bases, to one that was passed before or that has no base. -/
inductive Walk (declared : List (String × Option String)) :
    List String → String → List String → Prop
  | again {passed : List String} {id : String} (h : id ∈ passed) : Walk declared passed id [id]
  | last {passed : List String} {id : String} (h : id ∉ passed)
      (hroot : ∀ base, ¬ Derives declared id base) : Walk declared passed id [id]
  | onward {passed : List String} {id base : String} {chain : List String} (h : id ∉ passed)
      (hbase : Derives declared id base) (hrest : Walk declared (id :: passed) base chain) :
      Walk declared passed id (id :: chain)

variable {declared : List (String × Option String)} {x y z base : String}

theorem Derives.unique (h : Derives declared x y) (h' : Derives declared x z) : y = z := by
  unfold Derives at h h'
  rw [h] at h'
  simpa using h'

theorem derives_without (declared : List (String × Option String)) (id x y : String) :
    Derives (without declared id) x y ↔ x ≠ id ∧ Derives declared x y := by
  unfold Derives without
  rw [lookup_filter_keys (· != id)]
  by_cases hx : x = id <;> simp [hx]

/-! ## The ids of a chain -/

theorem ancestryIn_of_derives (h : Derives declared x base) :
    ancestryIn declared x = x :: ancestryIn (without declared x) base := by
  rw [ancestryIn]
  split
  · rename_i base' h'
    rw [h.unique h']
  · rename_i hnone
    exact absurd h (hnone base)

theorem ancestryIn_of_root (h : ∀ base, ¬ Derives declared x base) :
    ancestryIn declared x = [x] := by
  rw [ancestryIn]
  split
  · rename_i base hbase
    exact absurd hbase (h base)
  · rfl

theorem length_ancestryIn_le (declared : List (String × Option String)) (x : String) :
    (ancestryIn declared x).length ≤ declared.length + 1 := by
  fun_induction ancestryIn declared x with
  | case1 declared x base h ih =>
    have hless := length_without_lt h
    rw [List.length_cons]
    omega
  | case2 declared x h => simp

/-- What leads somewhere does so without the language that `base` is the base of, if need be from
`base` on. -/
theorem leads_without (hbase : Derives declared x base)
    (h : Relation.ReflTransGen (Derives declared) z y) :
    Relation.ReflTransGen (Derives (without declared x)) z y ∨
      Relation.ReflTransGen (Derives (without declared x)) base y := by
  induction h using Relation.ReflTransGen.head_induction_on with
  | refl => exact .inl .refl
  | head hstep hrest ih =>
    rename_i z w
    rcases ih with ih | ih
    · by_cases hz : z = x
      · subst hz
        rw [hstep.unique hbase] at ih
        exact .inr ih
      · exact .inl (.head ((derives_without declared x z w).mpr ⟨hz, hstep⟩) ih)
    · exact .inr ih

/-- A chain has the ids of all the languages that the bases lead to, and no others. -/
theorem mem_ancestryIn_iff (declared : List (String × Option String)) (x y : String) :
    y ∈ ancestryIn declared x ↔ Relation.ReflTransGen (Derives declared) x y := by
  fun_induction ancestryIn declared x with
  | case1 declared x base h ih =>
    rw [List.mem_cons, ih]
    constructor
    · rintro (rfl | hy)
      · exact .refl
      · refine .head h (Relation.ReflTransGen.mono (fun a b hab => ?_) _ _ hy)
        exact ((derives_without declared x a b).mp hab).2
    · intro hy
      rcases hy.cases_head with heq | ⟨w, hw, hrest⟩
      · exact .inl heq.symm
      · obtain rfl := Derives.unique hw h
        right
        rcases leads_without h hrest with hdirect | hfrom
        · exact hdirect
        · exact hfrom
  | case2 declared x h =>
    rw [List.mem_singleton]
    constructor
    · rintro rfl
      exact .refl
    · intro hy
      rcases hy.cases_head with heq | ⟨w, hw, -⟩
      · exact heq.symm
      · exact absurd hw (h w)

/-- The chain without the declarations of what was passed is the walk that stops at what was
passed. -/
theorem walk_ancestryIn (declared : List (String × Option String)) (passed : List String)
    (x : String) :
    Walk declared passed x (ancestryIn (declared.filter fun e => e.1 ∉ passed) x) := by
  have hopen : ∀ a b, Derives (declared.filter fun e => e.1 ∉ passed) a b ↔
      a ∉ passed ∧ Derives declared a b := by
    intro a b
    unfold Derives
    rw [lookup_filter_keys (· ∉ passed)]
    by_cases ha : a ∈ passed <;> simp [ha]
  by_cases hx : x ∈ passed
  · rw [ancestryIn_of_root fun base h => ((hopen x base).mp h).1 hx]
    exact .again hx
  · by_cases hroot : ∃ base, Derives declared x base
    · obtain ⟨base, hbase⟩ := hroot
      have hleft : Derives (declared.filter fun e => e.1 ∉ passed) x base :=
        (hopen x base).mpr ⟨hx, hbase⟩
      have hwithout : without (declared.filter fun e => e.1 ∉ passed) x =
          declared.filter fun e => e.1 ∉ x :: passed := by
        unfold without
        rw [List.filter_filter]
        refine List.filter_congr fun e _ => ?_
        by_cases he : e.1 = x <;> simp [he]
      have hless := length_without_lt hleft
      rw [ancestryIn_of_derives hleft, hwithout]
      exact .onward hx hbase (walk_ancestryIn declared (x :: passed) base)
    · rw [ancestryIn_of_root fun base h => hroot ⟨base, ((hopen x base).mp h).2⟩]
      exact .last hx fun base h => hroot ⟨base, h⟩
termination_by (declared.filter fun e => e.1 ∉ passed).length
decreasing_by rw [← hwithout]; exact hless

theorem ancestryIn_congr {declared' : List (String × Option String)}
    (h : ∀ k, List.lookup k declared = List.lookup k declared') (x : String) :
    ancestryIn declared x = ancestryIn declared' x := by
  fun_induction ancestryIn declared x generalizing declared' with
  | case1 declared x base hx ih =>
    have hx' : Derives declared' x base := (h x).symm.trans hx
    rw [ancestryIn_of_derives hx', ih fun k => ?_]
    unfold without
    rw [lookup_filter_keys (· != x), lookup_filter_keys (· != x), h]
  | case2 declared x hx =>
    exact (ancestryIn_of_root fun base hbase => hx base ((h x).trans hbase)).symm

/-! ## Configured languages -/

theorem ancestry_configured (declared : List (String × Option String)) (x : String) :
    (configured declared x).ancestry = ancestryIn declared x := by
  unfold configured ancestry
  by_cases hroot : ∃ base, Derives declared x base
  · obtain ⟨base, hbase⟩ := hroot
    rw [ancestryIn_of_derives hbase]
    rfl
  · rw [ancestryIn_of_root fun base h => hroot ⟨base, h⟩]
    rfl

theorem id_configured (declared : List (String × Option String)) (x : String) :
    (configured declared x).id = x := by
  have hancestry := ancestry_configured declared x
  by_cases hroot : ∃ base, Derives declared x base
  · obtain ⟨base, hbase⟩ := hroot
    rw [ancestryIn_of_derives hbase] at hancestry
    exact (List.cons.inj hancestry).1
  · rw [ancestryIn_of_root fun base h => hroot ⟨base, h⟩] at hancestry
    exact (List.cons.inj hancestry).1

theorem configured_of_not_declared (h : x ∉ declared.map Prod.fst) :
    configured declared x = plain x := by
  have hroot : ∀ base, ¬ Derives declared x base := by
    intro base hbase
    exact h (List.mem_map_of_mem (mem_of_lookup hbase))
  rw [configured, ancestryIn_of_root hroot]
  rfl

theorem isKindOf_configured (declared : List (String × Option String)) (x y : String) :
    (configured declared x).isKindOf (configured declared y) ↔
      Relation.ReflTransGen (Derives declared) x y := by
  unfold isKindOf
  rw [List.contains_iff_mem, ancestry_configured, id_configured, mem_ancestryIn_iff]

end Language

/-! ## The configured registry -/

/-- Steps that each succeed and preserve something do so one after the other. -/
theorem exists_foldlM {α σ ε : Type} {f : σ → α → Except ε σ} {P : σ → Prop} {xs : List α}
    (hstep : ∀ a ∈ xs, ∀ s, P s → ∃ s', f s a = .ok s' ∧ P s') {s : σ} (hs : P s) :
    ∃ s', xs.foldlM f s = .ok s' ∧ P s' := by
  induction xs generalizing s with
  | nil => exact ⟨s, rfl, hs⟩
  | cons a rest ih =>
    obtain ⟨s', hs', hP⟩ := hstep a List.mem_cons_self s hs
    obtain ⟨s'', hs'', hP'⟩ := ih (fun b hb => hstep b (List.mem_cons_of_mem a hb)) hP
    refine ⟨s'', ?_, hP'⟩
    rw [List.foldlM_cons, hs']
    exact hs''

/-- All patterns of the configuration compile. -/
def Config.PatternsCompile (c : Config) : Prop :=
  ∀ s ∈ c.servers, ∀ b ∈ s.languages, ∃ m, DocumentMatcher.ofPatterns b.patterns = .ok m

namespace Registry

theorem language_declareLanguage (r : Registry) (l : Language) (x : String) :
    (r.declareLanguage l).language x = if x = l.id then l else r.language x := by
  unfold language declareLanguage
  by_cases hx : x = l.id
  · simp [hx]
  · have hskip : (x == l.id) = false := by simpa using hx
    simp only [List.lookup_cons, hskip, lookup_filter_keys (· != l.id), if_neg hx]
    simp [hx]

/-- The registry with the languages that the configuration declares. -/
def declaring (c : Config) : Registry :=
  c.languages.foldl (fun r (id, _) => r.declareLanguage (.configured c.languages id)) empty

theorem language_declaring (c : Config) (x : String) :
    (declaring c).language x = .configured c.languages x := by
  have hfold : ∀ (es : List (String × Option String)) (r : Registry),
      (es.foldl (fun r (id, _) => r.declareLanguage (.configured c.languages id)) r).language x =
        if x ∈ es.map Prod.fst then .configured c.languages x else r.language x := by
    intro es
    induction es with
    | nil => simp
    | cons e rest ih =>
      intro r
      rw [List.foldl_cons, ih, language_declareLanguage, Language.id_configured]
      by_cases hrest : x ∈ rest.map Prod.fst
      · simp [hrest]
      · by_cases hx : x = e.1 <;> simp [hrest, hx]
  rw [declaring, hfold]
  split
  · rfl
  · rename_i hx
    exact (Language.configured_of_not_declared hx).symm

variable {r : Registry}

theorem exists_bind {server : String} {b : LanguageBinding} (hid : server ∈ r.ids)
    (hb : ∃ m, DocumentMatcher.ofPatterns b.patterns = .ok m) :
    ∃ r', r.bind server b = .ok r' ∧ r'.languages = r.languages ∧ server ∈ r'.ids := by
  have hassociate : ∀ matcher, ∃ r', r.associate (r.language b.language) server b.languageId
      matcher = .ok r' ∧ r'.languages = r.languages ∧ server ∈ r'.ids := by
    intro matcher
    obtain ⟨d, hd⟩ := exists_find? hid
    have hok : ∃ r', r.associate (r.language b.language) server b.languageId matcher = .ok r' ∧
        r'.languages = r.languages := by
      simp only [associate, hd]
      exact ⟨_, rfl, rfl⟩
    obtain ⟨r', hr', hlanguages⟩ := hok
    exact ⟨r', hr', hlanguages, ids_associate hr' ▸ hid⟩
  obtain ⟨m, hm⟩ := hb
  unfold bind
  split
  · exact hassociate none
  · rw [hm]
    exact hassociate (some m)

theorem exists_addConfigured (r : Registry) {s : ServerConfig}
    (hs : ∀ b ∈ s.languages, ∃ m, DocumentMatcher.ofPatterns b.patterns = .ok m) :
    ∃ r', r.addConfigured s = .ok r' ∧ r'.languages = r.languages := by
  have hlanguages : (r.add (.ofConfig s)).languages = r.languages := by
    unfold add
    dsimp only
    split <;> rfl
  have hid : s.id ∈ (r.add (.ofConfig s)).ids := by
    rw [ids_add]
    split
    · assumption
    · exact List.mem_append_right _ List.mem_cons_self
  let Kept := fun r' : Registry => r'.languages = r.languages ∧ s.id ∈ r'.ids
  have hbind : ∀ b ∈ s.languages, ∀ r', Kept r' → ∃ r'', r'.bind s.id b = .ok r'' ∧ Kept r'' := by
    rintro b hb r' ⟨hsame, hmem⟩
    obtain ⟨r'', hr'', hsame', hmem'⟩ := exists_bind hmem (hs b hb)
    exact ⟨r'', hr'', hsame'.trans hsame, hmem'⟩
  obtain ⟨r', hr', hsame, -⟩ := exists_foldlM (P := Kept) hbind ⟨hlanguages, hid⟩
  exact ⟨r', hr', hsame⟩

theorem exists_ofConfig {c : Config} (hc : c.PatternsCompile) :
    ∃ r, ofConfig c = .ok r ∧ ∀ x, r.language x = .configured c.languages x := by
  let Kept := fun r : Registry => r.languages = (declaring c).languages
  have hadd : ∀ s ∈ c.servers, ∀ r, Kept r → ∃ r', addConfigured r s = .ok r' ∧ Kept r' := by
    intro s hs r hr
    obtain ⟨r', hr', hsame⟩ := exists_addConfigured r (hc s hs)
    exact ⟨r', hr', hsame.trans hr⟩
  obtain ⟨r, hr, hlanguages⟩ := exists_foldlM hadd (s := declaring c) rfl
  refine ⟨r, hr, fun x => ?_⟩
  rw [← language_declaring c x, language, language, hlanguages]

/-- The walk along the bases of a configured language ends, and the language is a kind of exactly
those that it meets, in whatever order the languages are declared. -/
theorem kinds_of_ofConfig {c : Config} (hc : c.PatternsCompile) :
    ∃ r, ofConfig c = .ok r ∧
      (∀ x, r.language x = .configured c.languages x ∧
        Language.Walk c.languages [] x (r.language x).ancestry ∧
        (r.language x).ancestry.length ≤ c.languages.length + 1) ∧
      (∀ x y, (r.language x).isKindOf (r.language y) ↔
        Relation.ReflTransGen (Language.Derives c.languages) x y) ∧
      (∀ x, (r.language x).isKindOf (r.language x)) ∧
      (∀ x y z, (r.language x).isKindOf (r.language y) → (r.language y).isKindOf (r.language z) →
        (r.language x).isKindOf (r.language z)) ∧
      ∀ reordered, (c.languages.map Prod.fst).Nodup → c.languages.Perm reordered →
        ∃ r', ofConfig { c with languages := reordered } = .ok r' ∧
          ∀ x, r'.language x = r.language x := by
  obtain ⟨r, hr, hlanguage⟩ := exists_ofConfig hc
  have hkind : ∀ x y, (r.language x).isKindOf (r.language y) ↔
      Relation.ReflTransGen (Language.Derives c.languages) x y := by
    intro x y
    rw [hlanguage, hlanguage]
    exact Language.isKindOf_configured c.languages x y
  refine ⟨r, hr, ?_, hkind, ?_, ?_, ?_⟩
  · intro x
    have hwalk := Language.walk_ancestryIn c.languages [] x
    rw [List.filter_eq_self.mpr (by simp)] at hwalk
    rw [hlanguage, Language.ancestry_configured]
    exact ⟨rfl, hwalk, Language.length_ancestryIn_le c.languages x⟩
  · intro x
    exact (hkind x x).mpr .refl
  · intro x y z hxy hyz
    exact (hkind x z).mpr (((hkind x y).mp hxy).trans ((hkind y z).mp hyz))
  · intro reordered hkeys hperm
    obtain ⟨r', hr', hlanguage'⟩ := exists_ofConfig (c := { c with languages := reordered }) hc
    refine ⟨r', hr', fun x => ?_⟩
    have hsame := Language.ancestryIn_congr (lookup_perm hkeys hperm) x
    rw [hlanguage, hlanguage', Language.configured, Language.configured, hsame]

/-- A loop of two, a chain into it, a language that is its own base and a base that is not
declared. -/
theorem kinds_of_ofConfig_loop :
    let server : ServerConfig :=
      ⟨"py", none, none, some "pyls", [], none, [], none, false, .application, 5, true, none, none,
        [⟨"a", none, ["*.a"]⟩]⟩
    let c : Config :=
      { Config.default with
        languages := [("a", some "b"), ("b", some "c"), ("c", some "b"), ("d", some "d"),
          ("e", some "text")]
        servers := [server] }
    c.PatternsCompile ∧ ∃ r, ofConfig c = .ok r ∧ (r.language "a").isKindOf (r.language "c") ∧
      (r.language "c").isKindOf (r.language "c") ∧ (r.language "e").isKindOf (r.language "text") ∧
      (r.language "d").ancestry.length ≤ 6 ∧
      ∃ r', ofConfig { c with languages := c.languages.reverse } = .ok r' ∧
        ∀ x, r'.language x = r.language x := by
  intro server c
  have hc : c.PatternsCompile := by
    intro s hs b hb
    obtain rfl : s = server := by simpa [c] using hs
    obtain rfl : b = ⟨"a", none, ["*.a"]⟩ := by simpa [server] using hb
    exact ⟨_, rfl⟩
  obtain ⟨r, hr, hwalk, hkind, hself, -, hreorder⟩ := kinds_of_ofConfig hc
  refine ⟨hc, r, hr, ?_, hself "c", ?_, (hwalk "d").2.2, ?_⟩
  · exact (hkind "a" "c").mpr (.tail (.single (b := "b") rfl) rfl)
  · exact (hkind "e" "text").mpr (.single rfl)
  · exact hreorder c.languages.reverse (by decide) (List.reverse_perm _).symm

end Registry

end LanguageHub
