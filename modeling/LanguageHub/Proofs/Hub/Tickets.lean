import LanguageHub.Routine.Lock

/-!
# Locks and their tickets

A lock that nobody holds has nobody waiting, no ticket stands in it twice, and every ticket
in it was given out. Coming and leaving keep this, and the order in which tickets were given
out.
-/

namespace LanguageHub.Lock

/-- The tickets in the lock, its holder first. -/
def tickets (l : Lock) : List Nat := l.holder.toList ++ l.waiting

structure Valid (l : Lock) : Prop where
  waiting : l.holder = none → l.waiting = []
  nodup : l.tickets.Nodup
  issued : ∀ t ∈ l.tickets, t < l.next

theorem valid_free : free.Valid :=
  ⟨fun _ => rfl, by simp [free, tickets], by simp [free, tickets]⟩

theorem isFree_iff (l : Lock) : l.isFree = true ↔ l.holder = none := by
  cases h : l.holder <;> simp [isFree, h]

theorem isHeldBy_iff (l : Lock) (t : Nat) : l.isHeldBy t = true ↔ l.holder = some t := by
  simp [isHeldBy]

theorem isFree_of_tickets {l : Lock} (h : l.tickets = []) : l.isFree = true := by
  unfold tickets at h
  rw [List.append_eq_nil_iff, Option.toList_eq_nil_iff] at h
  rw [isFree_iff]
  exact h.1

theorem valid_of_tickets {l : Lock} (h : l.tickets = []) : l.Valid where
  waiting _ := (List.append_eq_nil_iff.mp h).2
  nodup := by
    rw [h]
    exact .nil
  issued t ht := by
    rw [h] at ht
    cases ht

/-! ## Coming -/

@[simp] theorem enter_ticket (l : Lock) : l.enter.1 = l.next := by
  unfold enter
  split <;> rfl

@[simp] theorem enter_next (l : Lock) : l.enter.2.next = l.next + 1 := by
  unfold enter
  split <;> rfl

theorem enter_holder (l : Lock) :
    l.enter.2.holder = if l.isFree then some l.next else l.holder := by
  unfold enter isFree
  split <;> simp [*]

theorem enter_isFree (l : Lock) : l.enter.2.isFree = false := by
  cases h : l.holder <;> simp [enter, isFree, h]

theorem Valid.tickets_enter {l : Lock} (h : l.Valid) :
    l.enter.2.tickets = l.tickets ++ [l.next] := by
  cases hholder : l.holder with
  | none => simp [enter, tickets, hholder, h.waiting hholder]
  | some t => simp [enter, tickets, hholder]

theorem mem_tickets_of_enter {l : Lock} {t : Nat} (h : t ∈ l.enter.2.tickets) :
    t ∈ l.tickets ∨ t = l.next := by
  cases hholder : l.holder with
  | none => simpa [enter, tickets, hholder, or_comm] using h
  | some t' => simpa [enter, tickets, hholder, or_assoc] using h

theorem next_mem_enter (l : Lock) : l.next ∈ l.enter.2.tickets := by
  cases hholder : l.holder <;> simp [enter, tickets, hholder]

theorem Valid.enter {l : Lock} (h : l.Valid) : l.enter.2.Valid where
  waiting hnone := by
    rw [enter_holder] at hnone
    cases hholder : l.holder <;> simp [isFree, hholder] at hnone
  nodup := by
    have hfresh : l.next ∉ l.tickets := fun hmem => Nat.lt_irrefl _ (h.issued _ hmem)
    simpa [h.tickets_enter, List.nodup_append] using ⟨h.nodup, fun t ht heq => hfresh (heq ▸ ht)⟩
  issued t ht := by
    rw [h.tickets_enter, List.mem_append, List.mem_singleton] at ht
    rw [enter_next]
    rcases ht with ht | rfl
    · have := h.issued t ht
      omega
    · omega

/-! ## Leaving -/

@[simp] theorem leave_next (l : Lock) (t : Nat) : (l.leave t).next = l.next := by
  unfold leave pass
  split <;> rfl

theorem leave_holder (l : Lock) (t : Nat) :
    (l.leave t).holder = if l.holder = some t then l.waiting.head? else l.holder := by
  simp only [leave, isHeldBy_iff]
  split <;> rfl

theorem tickets_pass (l : Lock) : l.pass.tickets = l.waiting := by
  cases h : l.waiting <;> simp [pass, tickets, h]

theorem mem_tickets_of_leave {l : Lock} {t t' : Nat} (h : t' ∈ (l.leave t).tickets) :
    t' ∈ l.tickets := by
  unfold leave at h
  split at h
  · rw [tickets_pass] at h
    exact List.mem_append_right _ h
  · simp only [tickets, List.mem_append, List.mem_filter] at h ⊢
    exact h.imp_right And.left

theorem Valid.tickets_leave {l : Lock} (h : l.Valid) (t : Nat) :
    (l.leave t).tickets = l.tickets.filter (· != t) := by
  have hnodup := h.nodup
  simp only [leave, isHeldBy_iff]
  cases hholder : l.holder with
  | none => simp [tickets, hholder, h.waiting hholder]
  | some t' =>
    simp only [tickets, hholder, Option.toList_some, List.cons_append, List.nil_append,
      List.nodup_cons] at hnodup
    by_cases ht : t' = t
    · subst ht
      have hkeep : l.waiting.filter (· != t') = l.waiting :=
        List.filter_eq_self.mpr fun t ht => by
          simpa using fun heq : t = t' => hnodup.1 (heq ▸ ht)
      rw [if_pos rfl, tickets_pass]
      simp [tickets, hholder, hkeep]
    · have hne : some t' ≠ some t := by simpa using ht
      simp [tickets, hholder, ht, hne]

theorem Valid.leave {l : Lock} (h : l.Valid) (t : Nat) : (l.leave t).Valid where
  waiting hnone := by
    rw [leave_holder] at hnone
    split at hnone
    · rename_i hholder
      have hempty : l.waiting = [] := by
        cases hwaiting : l.waiting <;> simp_all
      simp [Lock.leave, (isHeldBy_iff l t).mpr hholder, pass, hempty]
    · simp [Lock.leave, isHeldBy_iff, h.waiting hnone, *]
  nodup := by
    rw [h.tickets_leave]
    exact h.nodup.filter _
  issued t' ht' := by
    rw [h.tickets_leave] at ht'
    rw [leave_next]
    exact h.issued t' (List.mem_filter.mp ht').1

/-! ## In order -/

/-- The tickets stand in the order in which they were given out. -/
structure Ordered (l : Lock) : Prop extends l.Valid where
  sorted : l.tickets.Pairwise (· < ·)

theorem ordered_free : free.Ordered := ⟨valid_free, .nil⟩

/-- Whoever holds the lock came before all that wait. -/
theorem Ordered.le_of_holder {l : Lock} (h : l.Ordered) {t t' : Nat} (hholder : l.holder = some t)
    (hmem : t' ∈ l.tickets) : t ≤ t' := by
  have hsorted := h.sorted
  simp only [tickets, hholder, Option.toList_some, List.singleton_append, List.pairwise_cons,
    List.mem_cons] at hsorted hmem
  rcases hmem with rfl | hmem
  · exact Nat.le_refl _
  · exact Nat.le_of_lt (hsorted.1 t' hmem)

theorem Ordered.holder_lt_next {l : Lock} (h : l.Ordered) {t : Nat} (hholder : l.holder = some t) :
    t < l.next :=
  h.issued t (List.mem_append_left _ (by simp [hholder]))

theorem Ordered.enter {l : Lock} (h : l.Ordered) : l.enter.2.Ordered where
  toValid := h.toValid.enter
  sorted := by
    rw [h.tickets_enter, List.pairwise_append]
    refine ⟨h.sorted, List.pairwise_singleton .., fun t ht t' ht' => ?_⟩
    rw [List.mem_singleton.mp ht']
    exact h.issued t ht

theorem Ordered.leave {l : Lock} (h : l.Ordered) (t : Nat) : (l.leave t).Ordered where
  toValid := h.toValid.leave t
  sorted := by
    rw [h.tickets_leave]
    exact h.sorted.filter _

/-- How a lock changes while tickets are given out and only some of those that it has are given
back. -/
structure Follows (mine : Nat → Prop) (l l' : Lock) : Prop where
  next : l.next ≤ l'.next
  mem : ∀ t ∈ l'.tickets, t ∈ l.tickets ∨ l.next ≤ t
  stays : ∀ t ∈ l.tickets, ¬ mine t → t ∈ l'.tickets
  ordered : l.Ordered → l'.Ordered

namespace Follows

variable {mine : Nat → Prop} {l l' l'' : Lock}

theorem refl (l : Lock) : l.Follows mine l :=
  ⟨Nat.le_refl _, fun _ => .inl, fun _ ht _ => ht, id⟩

theorem trans (first : l.Follows mine l') (second : l'.Follows mine l'') :
    l.Follows mine l'' where
  next := Nat.le_trans first.next second.next
  mem t ht := (second.mem t ht).elim (first.mem t) fun hnew => .inr (Nat.le_trans first.next hnew)
  stays t ht hmine := second.stays t (first.stays t ht hmine) hmine
  ordered h := second.ordered (first.ordered h)

/-- Only what is in the lock matters. -/
theorem mono {mine' : Nat → Prop} (h : l.Follows mine l')
    (hmine : ∀ t ∈ l.tickets, mine t → mine' t) : l.Follows mine' l' :=
  ⟨h.next, h.mem, fun t ht hnot => h.stays t ht fun hown => hnot (hmine t ht hown), h.ordered⟩

end Follows

theorem follows_enter {mine : Nat → Prop} {l : Lock} (h : l.Valid) : l.Follows mine l.enter.2 where
  next := by
    rw [enter_next]
    exact Nat.le_succ _
  mem t ht := (mem_tickets_of_enter ht).imp_right fun heq => Nat.le_of_eq heq.symm
  stays t ht _ := by
    rw [h.tickets_enter]
    exact List.mem_append_left _ ht
  ordered h := h.enter

theorem follows_leave {mine : Nat → Prop} {l : Lock} (h : l.Valid) {t : Nat} (ht : mine t) :
    l.Follows mine (l.leave t) where
  next := Nat.le_of_eq (leave_next l t).symm
  mem t' ht' := .inl (mem_tickets_of_leave ht')
  stays t' ht' hother := by
    rw [h.tickets_leave, List.mem_filter]
    exact ⟨ht', by simpa using fun heq : t' = t => hother (heq ▸ ht)⟩
  ordered h := h.leave t

end LanguageHub.Lock
