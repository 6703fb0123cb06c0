import LanguageHub.Proofs.Json.Doubles

/-!
# Different values are written differently

The text of a value begins with a character that tells its kind, and its end can be seen: a string
ends at its quote, a container at its bracket, and nothing that comes behind a number could belong
to it. So from what is written the value is known.
-/

namespace LanguageHub

/-! ## Numbers -/

/-- A number as JSON has them. -/
def JsonNumber.IsFinite : JsonNumber → Prop
  | int _ => True
  | double bits => Binary64.isFinite bits = true

namespace Json

open Numeral

theorem integerText_injective {a b : Int} (h : integerText a = integerText b) : a = b := by
  have hminus : ∀ n s, naturalText n ≠ '-' :: s := by
    intro n s heq
    have hmem : '-' ∈ naturalText n := heq ▸ List.mem_cons_self
    exact absurd (isDigit_of_mem_toDigits hmem) (by decide)
  have hnatural : ∀ n m, naturalText n = naturalText m → n = m := by
    intro n m heq
    rw [← ofDigits_toDigits n, ← ofDigits_toDigits m]
    exact congrArg ofDigits heq
  unfold integerText at h
  split at h <;> split at h
  · have habs := hnatural _ _ (List.cons.inj h).2
    omega
  · exact absurd h.symm (hminus _ _)
  · exact absurd h (hminus _ _)
  · have habs := hnatural _ _ h
    omega

theorem numberText_double {bits : UInt64} (h : (JsonNumber.double bits).IsFinite) :
    numberText (.double bits) = doubleText bits := if_pos h

theorem isNumeral_of_mem_integerText {n : Int} {c : Char} (h : c ∈ integerText n) :
    c = '-' ∨ isDigit c = true := by
  unfold integerText at h
  split at h
  · exact (List.mem_cons.mp h).imp_right isDigit_of_mem_toDigits
  · exact .inr (isDigit_of_mem_toDigits h)

theorem numberText_injective {a b : JsonNumber} (ha : a.IsFinite) (hb : b.IsFinite)
    (h : numberText a = numberText b) : a = b := by
  have hmark : ∀ n bits, (JsonNumber.double bits).IsFinite →
      numberText (.int n) ≠ numberText (.double bits) := by
    intro n bits hbits heq
    rw [numberText_double hbits, numberText, doubleText_eq] at heq
    have hnot : ∀ c, c = '.' ∨ c = 'e' → c ∉ integerText n := by
      rintro c hc hmem
      rcases hc with rfl | rfl <;>
        exact absurd (isNumeral_of_mem_integerText hmem) (by decide)
    rcases (isDecimal_decimal (Binary64.shortest (Binary64.magnitude bits))).mark with hin | hin
    · exact hnot '.' (.inl rfl) (heq ▸ List.mem_append_right _ hin)
    · exact hnot 'e' (.inr rfl) (heq ▸ List.mem_append_right _ hin)
  cases a with
  | int n =>
    cases b with
    | int m => rw [integerText_injective h]
    | double bits => exact absurd h (hmark n bits hb)
  | double bits =>
    cases b with
    | int m => exact absurd h.symm (hmark m bits ha)
    | double bits' =>
      rw [numberText_double ha, numberText_double hb] at h
      rw [doubleText_injective h]

theorem isNumeral_of_mem_numberText {n : JsonNumber} (hn : n.IsFinite) :
    ∀ c ∈ numberText n, isNumeral c = true := by
  intro c hc
  cases n with
  | int n =>
    rcases isNumeral_of_mem_integerText hc with rfl | hdigit
    · rfl
    · exact isNumeral_of_isDigit hdigit
  | double bits =>
    rw [numberText_double hn, doubleText_eq] at hc
    rcases List.mem_append.mp hc with hsign | hdecimal
    · split at hsign
      · rw [List.mem_singleton.mp hsign]
        rfl
      · cases hsign
    · exact (isDecimal_decimal _).all c hdecimal

/-! ## Values -/

/-- Every number in the value is one as JSON has them. -/
inductive IsFinite : Json → Prop
  | null : IsFinite .null
  | bool (b : Bool) : IsFinite (.bool b)
  | num {n : JsonNumber} (h : n.IsFinite) : IsFinite (.num n)
  | str (s : String) : IsFinite (.str s)
  | arr {items : List Json} (h : ∀ v ∈ items, IsFinite v) : IsFinite (.arr items)
  | obj {fields : List (String × Json)} (h : ∀ f ∈ fields, IsFinite f.2) : IsFinite (.obj fields)

theorem Exact.isFinite {depth : Nat} {v : Json} (h : Exact depth v) : v.IsFinite := by
  induction h with
  | null => exact .null
  | bool b => exact .bool b
  | int hlow hhigh => exact .num trivial
  | str s => exact .str s
  | arr h ih => exact .arr ih
  | obj hkeys h ih => exact .obj ih

theorem mem_of_lookup {key : String} {fields : List (String × Json)} {v : Json}
    (h : lookup key fields = some v) : (key, v) ∈ fields := by
  induction fields with
  | nil => cases h
  | cons f fields ih =>
    rw [lookup] at h
    split at h
    · rename_i hkey
      obtain rfl := Option.some.inj h
      exact hkey ▸ List.mem_cons_self
    · exact List.mem_cons_of_mem _ (ih h)

theorem IsFinite.get? {key : String} {v member : Json} (h : v.IsFinite)
    (hget : v.get? key = some member) : member.IsFinite := by
  cases h with
  | obj h => exact h _ (mem_of_lookup hget)
  | _ => cases hget

/-- How the text of a value may begin. -/
def Opens : Json → Char → Prop
  | .null, c => c = 'n'
  | .bool _, c => c = 't' ∨ c = 'f'
  | .num _, c => c = '-' ∨ isDigit c = true
  | .str _, c => c = '"'
  | .arr _, c => c = '['
  | .obj _, c => c = '\x7b'

def SameKind : Json → Json → Prop
  | .null, .null | .bool _, .bool _ | .num _, .num _ | .str _, .str _ | .arr _, .arr _
  | .obj _, .obj _ => True
  | _, _ => False

variable {v w : Json} {r s : List Char} {c : Char}

/-- The first character tells the kind of a value. -/
theorem sameKind_of_opens (hv : v.Opens c) (hw : w.Opens c) : SameKind v w := by
  have hnumeral : isDigit c = true → c ∉ ['n', 't', 'f', '"', '[', '\x7b'] := by
    intro hdigit hmem
    have hnone : ['n', 't', 'f', '"', '[', '\x7b'].all (!isDigit ·) = true := by decide
    have hother := List.all_eq_true.mp hnone c hmem
    rw [hdigit] at hother
    cases hother
  cases v <;> cases w <;> first | trivial | grind [Opens]

theorem exists_numberText {n : JsonNumber} (h : n.IsFinite) :
    ∃ c r, numberText n = c :: r ∧ (c = '-' ∨ isDigit c = true) := by
  cases n with
  | int n => exact exists_integerText n
  | double bits =>
    rw [numberText_double h, doubleText_eq]
    cases Binary64.isNegative bits with
    | true => exact ⟨'-', _, rfl, .inl rfl⟩
    | false =>
      obtain ⟨c, r, hdecimal, hc⟩ := (isDecimal_decimal
        (Binary64.shortest (Binary64.magnitude bits))).begins
      exact ⟨c, r, hdecimal, .inr hc⟩

theorem IsFinite.exists_text (h : v.IsFinite) : ∃ c r, v.text = c :: r ∧ v.Opens c := by
  cases h with
  | null => exact ⟨_, _, rfl, rfl⟩
  | bool b =>
    cases b
    · exact ⟨_, _, rfl, .inr rfl⟩
    · exact ⟨_, _, rfl, .inl rfl⟩
  | num h => exact exists_numberText h
  | str s => exact ⟨_, _, rfl, rfl⟩
  | arr h => exact ⟨_, _, rfl, rfl⟩
  | obj h => exact ⟨_, _, rfl, rfl⟩

theorem IsFinite.sameKind (hv : v.IsFinite) (hw : w.IsFinite) (h : v.text ++ r = w.text ++ s) :
    SameKind v w := by
  obtain ⟨c, _, htext, hopens⟩ := hv.exists_text
  obtain ⟨c', _, htext', hopens'⟩ := hw.exists_text
  rw [htext, htext'] at h
  obtain rfl := (List.cons.inj h).1
  exact sameKind_of_opens hopens hopens'

theorem IsFinite.begins (h : v.IsFinite) : Begins v.text := by
  obtain ⟨c, r, htext, hopens⟩ := h.exists_text
  refine ⟨c, r, htext, ?_⟩
  cases v with
  | num n =>
    refine ⟨isBlank_of_numeral hopens, ?_, ?_⟩ <;> rintro rfl <;>
      exact absurd hopens (show ¬ (_ ∨ _) by decide)
  | bool b => rcases hopens with rfl | rfl <;> decide
  | _ => cases hopens; decide

theorem isEnd_not_numeral (h : IsEnd r) : ∀ c ∈ r.head?, isNumeral c = false := by
  intro c hc
  rcases h c hc with rfl | rfl | rfl <;> rfl

/-- Nothing of a number is in what comes behind it. -/
theorem number_append_inj {a b : JsonNumber} (ha : a.IsFinite) (hb : b.IsFinite) (hr : IsEnd r)
    (hs : IsEnd s) (h : numberText a ++ r = numberText b ++ s) : a = b ∧ r = s := by
  have hfirst := span_append (isNumeral_of_mem_numberText ha) (isEnd_not_numeral hr)
  have hsecond := span_append (isNumeral_of_mem_numberText hb) (isEnd_not_numeral hs)
  rw [h] at hfirst
  exact ⟨numberText_injective ha hb (hfirst.1.symm.trans hsecond.1), hfirst.2.symm.trans hsecond.2⟩

/-- A string ends at its quote. -/
theorem quote_append_inj {a b : String} (h : quote a ++ r = quote b ++ s) : a = b ∧ r = s := by
  have hquote (a : String) (r : List Char) :
      quote a ++ r = '"' :: (a.toList.flatMap escapeChar ++ '"' :: r) := by
    simp [quote]
  rw [hquote, hquote] at h
  have hfirst := reads_stringBody a.toList r
  rw [(List.cons.inj h).2] at hfirst
  have hsame := hfirst.symm.trans (reads_stringBody b.toList s)
  obtain ⟨htext, hrest⟩ := Prod.mk.inj (Option.some.inj hsame)
  exact ⟨String.toList_inj.mp htext, hrest⟩

/-! ## Containers -/

section Containers

variable {α : Type} {write : α → List Char} {proper : α → Prop} {close : Char}

/-- The value with this text is known from the beginning of a text. -/
def Tells (write : α → List Char) (proper : α → Prop) (a : α) : Prop :=
  ∀ ⦃b r s⦄, proper b → IsEnd r → IsEnd s → write a ++ r = write b ++ s → a = b ∧ r = s

/-- What comes behind the first item. -/
def behind (write : α → List Char) (close : Char) (r : List Char) : List α → List Char
  | [] => close :: r
  | a :: as => ',' :: ([','].intercalate ((a :: as).map write) ++ close :: r)

theorem intercalate_cons_append (a : α) (as : List α) (r : List Char) :
    [','].intercalate ((a :: as).map write) ++ close :: r =
      write a ++ behind write close r as := by
  cases as with
  | nil => simp [behind]
  | cons b as => simp [behind, List.intercalate_cons_cons]

theorem isEnd_behind (hclose : close = ']' ∨ close = '\x7d') (r : List Char) (as : List α) :
    IsEnd (behind write close r as) := by
  cases as with
  | nil => exact isEnd_cons (.inr hclose) r
  | cons a as => exact isEnd_cons (.inl rfl) _

theorem intercalate_ne_close (hclose : close = ']' ∨ close = '\x7d') {a : α}
    (hbegins : Begins (write a)) (as : List α) :
    [','].intercalate ((a :: as).map write) ++ close :: r ≠ close :: s := by
  obtain ⟨c, t, ha, -, hbracket, hbrace⟩ := hbegins
  rw [intercalate_cons_append, ha]
  intro heq
  obtain rfl := (List.cons.inj heq).1
  exact hclose.elim hbracket hbrace

/-- A list is known from its items, up to and with its end. -/
theorem items_append_inj (hclose : close = ']' ∨ close = '\x7d')
    (hbegins : ∀ a, proper a → Begins (write a)) {as bs : List α} (has : ∀ a ∈ as, proper a)
    (hbs : ∀ b ∈ bs, proper b) (htells : ∀ a ∈ as, Tells write proper a)
    (h : [','].intercalate (as.map write) ++ close :: r =
      [','].intercalate (bs.map write) ++ close :: s) : as = bs ∧ r = s := by
  induction as generalizing bs with
  | nil =>
    cases bs with
    | nil => exact ⟨rfl, (List.cons.inj h).2⟩
    | cons b bs =>
      have hb := hbegins b (hbs b List.mem_cons_self)
      exact absurd h.symm (intercalate_ne_close hclose hb bs)
  | cons a as ih =>
    cases bs with
    | nil =>
      have ha := hbegins a (has a List.mem_cons_self)
      exact absurd h (intercalate_ne_close hclose ha as)
    | cons b bs =>
      rw [intercalate_cons_append, intercalate_cons_append] at h
      obtain ⟨rfl, hbehind⟩ := htells a List.mem_cons_self (hbs b List.mem_cons_self)
        (isEnd_behind hclose r as) (isEnd_behind hclose s bs) h
      have hcomma : close ≠ ',' := by rcases hclose with rfl | rfl <;> decide
      match as, bs with
      | [], [] => exact ⟨rfl, (List.cons.inj hbehind).2⟩
      | [], _ :: _ => exact absurd (List.cons.inj hbehind).1 hcomma
      | _ :: _, [] => exact absurd (List.cons.inj hbehind).1.symm hcomma
      | a' :: as, b' :: bs =>
        obtain ⟨hrest, hend⟩ := ih (fun c hc => has c (List.mem_cons_of_mem _ hc))
          (fun c hc => hbs c (List.mem_cons_of_mem _ hc))
          (fun c hc => htells c (List.mem_cons_of_mem _ hc)) (List.cons.inj hbehind).2
        exact ⟨congrArg (a :: ·) hrest, hend⟩

end Containers

/-! ## From what is written the value is known -/

theorem tells_member {f : String × Json} (h : Tells text IsFinite f.2) :
    Tells memberText (fun f => f.2.IsFinite) f := by
  rintro ⟨key, v⟩ r s hv hr hs heq
  rw [memberText, memberText, List.append_assoc, List.append_assoc] at heq
  obtain ⟨hkey, hrest⟩ := quote_append_inj heq
  obtain ⟨hvalue, hend⟩ := h hv hr hs (List.cons.inj hrest).2
  exact ⟨Prod.ext hkey hvalue, hend⟩

theorem IsFinite.tells (h : v.IsFinite) : Tells text IsFinite v := by
  induction h with
  | null =>
    intro w r s hw hr hs heq
    have hkind := IsFinite.null.sameKind hw heq
    cases hw with
    | null => exact ⟨rfl, List.append_cancel_left heq⟩
    | _ => exact hkind.elim
  | bool b =>
    intro w r s hw hr hs heq
    have hkind := (IsFinite.bool b).sameKind hw heq
    cases hw with
    | bool b' =>
      cases b <;> cases b'
      · exact ⟨rfl, List.append_cancel_left heq⟩
      · exact absurd (List.cons.inj heq).1 (by decide)
      · exact absurd (List.cons.inj heq).1 (by decide)
      · exact ⟨rfl, List.append_cancel_left heq⟩
    | _ => exact hkind.elim
  | num hn =>
    intro w r s hw hr hs heq
    have hkind := (IsFinite.num hn).sameKind hw heq
    cases hw with
    | num hm =>
      obtain ⟨rfl, hrest⟩ := number_append_inj hn hm hr hs heq
      exact ⟨rfl, hrest⟩
    | _ => exact hkind.elim
  | str a =>
    intro w r s hw hr hs heq
    have hkind := (IsFinite.str a).sameKind hw heq
    cases hw with
    | str b =>
      obtain ⟨rfl, hrest⟩ := quote_append_inj heq
      exact ⟨rfl, hrest⟩
    | _ => exact hkind.elim
  | @arr items h ih =>
    intro w r s hw hr hs heq
    have hkind := (IsFinite.arr h).sameKind hw heq
    cases hw with
    | arr h' =>
      simp only [text, itemsText_eq, List.cons_append, List.append_assoc, List.cons.injEq,
        true_and] at heq
      obtain ⟨rfl, hrest⟩ := items_append_inj (.inl rfl) (fun _ hv => hv.begins) h h' ih heq
      exact ⟨rfl, hrest⟩
    | _ => exact hkind.elim
  | @obj fields h ih =>
    intro w r s hw hr hs heq
    have hkind := (IsFinite.obj h).sameKind hw heq
    cases hw with
    | obj h' =>
      simp only [text, fieldsText_eq, List.cons_append, List.append_assoc, List.cons.injEq,
        true_and] at heq
      obtain ⟨rfl, hrest⟩ := items_append_inj (.inr rfl) (fun f _ => begins_memberText f) h h'
        (fun f hf => tells_member (ih f hf)) heq
      exact ⟨rfl, hrest⟩
    | _ => exact hkind.elim

/-- Different values are written differently. -/
theorem render_injective (hv : v.IsFinite) (hw : w.IsFinite) (h : v.render = w.render) : v = w := by
  have htext : v.text ++ [] = w.text ++ [] := congrArg (· ++ []) (String.ofList_injective h)
  have hnone : IsEnd [] := fun _ hc => absurd hc (Option.not_mem_none _)
  exact (hv.tells hw hnone hnone htext).1

end Json

end LanguageHub
