import LanguageHub.Proofs.Hub.Moments

/-!
# Coming for locks and leaving them

Only calls come for the send lock of a synchronizer, and for one of the document only while
it is connected. Whoever leaves a lock leaves it tidy. Hence whoever comes to hold a lock
finds it tidy, whether it was free or was left by somebody else in between.
-/

namespace LanguageHub

open Routine Pact

namespace Scene

variable {u : String} {a : Actor} {x y : Scene} {n : LockName} {t : Nat}

/-- A new ticket for a lock. -/
def enter (x : Scene) (n : LockName) (me : Nat) : Scene :=
  { x with
    lock := fun n' => if n' = n then (x.lock n).enter.2 else x.lock n'
    owner := fun n' t => if n' = n ∧ t = (x.lock n).next then me else x.owner n' t }

/-- A ticket is given back. -/
def leave (x : Scene) (n : LockName) (t : Nat) : Scene :=
  { x with lock := fun n' => if n' = n then (x.lock n).leave t else x.lock n' }

/-- Whether a task may come for a lock. -/
def MayEnter (u : String) (a : Actor) (x : Scene) : LockName → Prop
  | .send k => a.isCall = true ∧ k < x.synchronizers.length ∧
    (x.Concerns u k → x.attached u = some k)
  | _ => True

/-! ## Coming -/

theorem enter_lock_self : (x.enter n t).lock n = (x.lock n).enter.2 := if_pos rfl

theorem enter_lock_of_ne {n' : LockName} (h : n' ≠ n) : (x.enter n t).lock n' = x.lock n' :=
  if_neg h

theorem enter_lock_cases (n' : LockName) :
    n' = n ∧ (x.enter n t).lock n' = (x.lock n).enter.2 ∨
      n' ≠ n ∧ (x.enter n t).lock n' = x.lock n' := by
  by_cases h : n' = n
  · exact .inl ⟨h, h ▸ enter_lock_self⟩
  · exact .inr ⟨h, enter_lock_of_ne h⟩

theorem quiet_of_quiet_enter (h : (x.enter n t).Quiet u) : x.Quiet u := by
  intro k hk
  have hfree := h k hk
  rcases enter_lock_cases (x := x) (n := n) (t := t) (.send k) with ⟨-, heq⟩ | ⟨-, heq⟩
  · rw [heq, Lock.enter_isFree] at hfree
    cases hfree
  · rwa [heq] at hfree

theorem MayEnter.quiet (hmay : MayEnter u a x n) (hnone : x.attached u = none) (h : x.Quiet u) :
    (x.enter n t).Quiet u := by
  intro k hk
  rcases enter_lock_cases (x := x) (n := n) (t := t) (.send k) with ⟨rfl, -⟩ | ⟨-, heq⟩
  · have hsome := hmay.2.2 hk
    simp [hnone] at hsome
  · rw [heq]
    exact h k hk

theorem Locked.enter (h : x.Locked u) (hmay : MayEnter u a x n) (t : Nat) :
    (x.enter n t).Locked u where
  valid n' := by
    rcases enter_lock_cases (x := x) (n := n) (t := t) n' with ⟨-, heq⟩ | ⟨-, heq⟩
    · rw [heq]
      exact (h.valid n).enter
    · rw [heq]
      exact h.valid n'
  inUse k hk := by
    rcases enter_lock_cases (x := x) (n := n) (t := t) (.send k) with ⟨rfl, -⟩ | ⟨-, heq⟩
    · exact hmay.2.1
    · rw [heq] at hk
      exact h.inUse k hk
  single k hk k' hne hk' := by
    rcases enter_lock_cases (x := x) (n := n) (t := t) (.send k') with ⟨rfl, -⟩ | ⟨-, heq⟩
    · have hsome : some k' = some k := (hmay.2.2 hk').symm.trans hk
      exact absurd (Option.some.inj hsome) hne
    · rw [heq]
      exact h.single k hk k' hne hk'
  exclusive k k' hk hk' hne := by
    rcases enter_lock_cases (x := x) (n := n) (t := t) (.send k) with ⟨rfl, -⟩ | ⟨-, heq⟩
    · refine .inr ?_
      rw [enter_lock_of_ne (by simpa using hne.symm)]
      exact h.single k (hmay.2.2 hk) k' hne.symm hk'
    · rcases enter_lock_cases (x := x) (n := n) (t := t) (.send k') with ⟨rfl, -⟩ | ⟨-, heq'⟩
      · refine .inl ?_
        rw [heq]
        exact h.single k' (hmay.2.2 hk') k hne hk
      · rw [heq, heq']
        exact h.exclusive k k' hk hk' hne
  quiet halone hstarted hnone := hmay.quiet hnone (h.quiet halone hstarted hnone)

theorem Inv.enter (h : x.Inv u) (hmay : MayEnter u a x n) (t : Nat) : (x.enter n t).Inv u where
  known := h.known
  wired := ⟨h.wired.1, h.wired.2, h.wired.3, h.wired.4, h.wired.5, h.wired.6, h.wired.7⟩
  filed := ⟨h.filed.1, h.filed.2, h.filed.3⟩
  locked := h.locked.enter hmay t
  tidy n' hfree := by
    have htidy : x.Tidy u n' := by
      refine h.tidy n' ?_
      rcases enter_lock_cases (x := x) (n := n) (t := t) n' with ⟨-, heq⟩ | ⟨-, heq⟩
      · rw [heq, Lock.enter_isFree] at hfree
        cases hfree
      · rwa [heq] at hfree
    cases n' <;> exact htidy
  closed i hi hnone hquiet := h.closed i hi hnone (quiet_of_quiet_enter hquiet)
  recalled := h.recalled

theorem always_enter (x : Scene) (n : LockName) (t : Nat) : x.Always (x.enter n t) where
  session := rfl
  clients := Nat.le_refl _
  linkOf _ _ := rfl
  isOpen _ h := h
  links := Nat.le_refl _
  isDue _ h := h
  synchronizers := Nat.le_refl _
  synchronizer _ _ := ⟨rfl, rfl⟩
  spoken _ h := h
  next n' := by
    rcases enter_lock_cases (x := x) (n := n) (t := t) n' with ⟨rfl, heq⟩ | ⟨-, heq⟩
    · rw [heq, Lock.enter_next]
      omega
    · exact Nat.le_of_eq (by rw [heq])
  owner n' t' ht := by
    refine if_neg ?_
    rintro ⟨rfl, rfl⟩
    exact Nat.lt_irrefl _ ht
  gone n' t' ht hmem := by
    rcases enter_lock_cases (x := x) (n := n) (t := t) n' with ⟨rfl, heq⟩ | ⟨-, heq⟩
    · rw [heq] at hmem
      rcases Lock.mem_tickets_of_enter hmem with hmem | rfl
      · exact hmem
      · exact absurd ht (Nat.lt_irrefl _)
    · rwa [heq] at hmem

theorem protected_enter (hmay : MayEnter u a x n) (n' : LockName) :
    Protected u x (x.enter n t) n' := by
  cases n' with
  | lifecycle s =>
    exact fun _ => ⟨.inl rfl, rfl, .inl rfl, fun _ h => h, .inl rfl, hmay.quiet⟩
  | provider s => trivial
  | writer c => exact fun _ => rfl
  | send k =>
    exact fun hk => ⟨hk, fun _ => rfl, rfl, fun _ h => ⟨h, id⟩, fun h => ⟨h, fun _ => id⟩⟩

theorem serves_enter (hmay : MayEnter u a x n) {n' : LockName} {t' : Nat}
    (ht' : t' < (x.lock n').next) : Serves u x (x.enter n t) n' t' := by
  rcases enter_lock_cases (x := x) (n := n) (t := t) n' with ⟨rfl, heq⟩ | ⟨-, heq⟩
  · unfold Serves
    rw [heq, Lock.enter_holder]
    cases hholder : (x.lock n').holder with
    | none =>
      refine ⟨(nomatch ·), fun _ h => ?_⟩
      have hnext : (x.lock n').next = t' := by simpa [Lock.isFree, hholder] using h
      omega
    | some t₀ =>
      simp only [Lock.isFree, hholder]
      exact ⟨fun h => ⟨h, protected_enter hmay n'⟩, fun hne h => absurd h hne⟩
  · unfold Serves
    rw [heq]
    exact ⟨fun h => ⟨h, protected_enter hmay n'⟩, fun hne h => absurd h hne⟩

theorem still_enter (hn : ∀ k, n ≠ .send k) : Still u x (x.enter n t) where
  heard _ := rfl
  synchronizers := rfl
  lock k := enter_lock_of_ne (hn k).symm
  text := rfl
  phase := rfl
  documents := .inl rfl
  front _ h := ⟨h, rfl⟩
  state h := h

theorem guarantee_enter (hmay : MayEnter u a x n) :
    x.Guarantee u a (x.enter n a.id) where
  always := always_enter x n a.id
  tickets _ _ ht _ := serves_enter hmay ht
  given k t ht hy := by
    rcases enter_lock_cases (x := x) (n := n) (t := a.id) (.send k) with ⟨rfl, heq⟩ | ⟨-, heq⟩
    · rw [heq, Lock.enter_next] at hy
      exact if_pos ⟨rfl, Nat.le_antisymm (Nat.lt_succ_iff.mp hy) ht⟩
    · rw [heq] at hy
      exact absurd (Nat.lt_of_le_of_lt ht hy) (Nat.lt_irrefl _)
  still ha := by
    refine still_enter fun k hk => ?_
    subst hk
    simp [hmay.1] at ha
  alone := rfl
  text := rfl
  phase := rfl

theorem rely_enter (hmay : MayEnter u a x n) (hn : ∀ k, n ≠ .send k) :
    x.Rely u a (x.enter n t) where
  always := always_enter x n t
  tickets _ _ ht _ := serves_enter hmay ht
  given k _ ht hy := by
    rw [enter_lock_of_ne (hn k).symm] at hy
    exact absurd (Nat.lt_of_le_of_lt ht hy) (Nat.lt_irrefl _)
  still _ _ := still_enter hn
  alone _ := rfl

/-! ## Leaving -/

theorem leave_lock_cases (n' : LockName) :
    n' = n ∧ (x.leave n t).lock n' = (x.lock n).leave t ∨
      n' ≠ n ∧ (x.leave n t).lock n' = x.lock n' := by
  by_cases h : n' = n
  · exact .inl ⟨h, h ▸ if_pos rfl⟩
  · exact .inr ⟨h, if_neg h⟩

theorem leave_isFree {n' : LockName} (h : (x.lock n').isFree = true) :
    ((x.leave n t).lock n').isFree = true := by
  rcases leave_lock_cases (x := x) (n := n) (t := t) n' with ⟨rfl, heq⟩ | ⟨-, heq⟩
  · have hnone := (Lock.isFree_iff _).mp h
    rw [heq, Lock.isFree_iff, Lock.leave_holder, hnone]
    simp
  · rwa [heq]

theorem quiet_leave (h : x.Quiet u) : (x.leave n t).Quiet u :=
  fun k hk => leave_isFree (h k hk)

theorem Locked.leave (h : x.Locked u) (n : LockName) (t : Nat) : (x.leave n t).Locked u where
  valid n' := by
    rcases leave_lock_cases (x := x) (n := n) (t := t) n' with ⟨-, heq⟩ | ⟨-, heq⟩
    · rw [heq]
      exact (h.valid n).leave t
    · rw [heq]
      exact h.valid n'
  inUse k hk := by
    refine h.inUse k ?_
    cases hfree : (x.lock (.send k)).isFree with
    | false => rfl
    | true =>
      rw [leave_isFree hfree] at hk
      cases hk
  single k hk k' hne hk' := leave_isFree (h.single k hk k' hne hk')
  exclusive k k' hk hk' hne := (h.exclusive k k' hk hk' hne).imp leave_isFree leave_isFree
  quiet halone hstarted hnone := quiet_leave (h.quiet halone hstarted hnone)

/-- A lock that is free once a ticket is given back was free before, or the ticket held it. -/
theorem isFree_of_leave {n' : LockName} (h : ((x.leave n t).lock n').isFree = true) :
    (x.lock n').isFree = true ∨ n' = n ∧ (x.lock n).holder = some t := by
  rcases leave_lock_cases (x := x) (n := n) (t := t) n' with ⟨rfl, heq⟩ | ⟨-, heq⟩
  · by_cases hheld : (x.lock n').holder = some t
    · exact .inr ⟨rfl, hheld⟩
    · rw [heq, Lock.isFree_iff, Lock.leave_holder, if_neg hheld] at h
      exact .inl ((Lock.isFree_iff _).mpr h)
  · rw [heq] at h
    exact .inl h

theorem Inv.leave (h : x.Inv u) (htidy : (x.lock n).holder = some t → x.Tidy u n)
    (hclosed : ∀ i, x.Front i → x.attached u = none → (x.leave n t).Quiet u → x.Closed u i) :
    (x.leave n t).Inv u where
  known := h.known
  wired := ⟨h.wired.1, h.wired.2, h.wired.3, h.wired.4, h.wired.5, h.wired.6, h.wired.7⟩
  filed := ⟨h.filed.1, h.filed.2, h.filed.3⟩
  locked := h.locked.leave n t
  tidy n' hfree := by
    have htidy' : x.Tidy u n' := by
      rcases isFree_of_leave hfree with hfree | ⟨rfl, hheld⟩
      · exact h.tidy n' hfree
      · exact htidy hheld
    cases n' <;> exact htidy'
  closed := hclosed
  recalled := h.recalled

theorem leave_lock_next {n' : LockName} : ((x.leave n t).lock n').next = (x.lock n').next := by
  rcases leave_lock_cases (x := x) (n := n) (t := t) n' with ⟨rfl, heq⟩ | ⟨-, heq⟩
  · rw [heq, Lock.leave_next]
  · rw [heq]

theorem mem_tickets_of_leave {n' : LockName} {t' : Nat}
    (h : t' ∈ ((x.leave n t).lock n').tickets) : t' ∈ (x.lock n').tickets := by
  rcases leave_lock_cases (x := x) (n := n) (t := t) n' with ⟨rfl, heq⟩ | ⟨-, heq⟩
  · rw [heq] at h
    exact Lock.mem_tickets_of_leave h
  · rwa [heq] at h

theorem always_leave (x : Scene) (n : LockName) (t : Nat) : x.Always (x.leave n t) where
  session := rfl
  clients := Nat.le_refl _
  linkOf _ _ := rfl
  isOpen _ h := h
  links := Nat.le_refl _
  isDue _ h := h
  synchronizers := Nat.le_refl _
  synchronizer _ _ := ⟨rfl, rfl⟩
  spoken _ h := h
  next _ := Nat.le_of_eq leave_lock_next.symm
  owner _ _ _ := rfl
  gone _ _ _ h := mem_tickets_of_leave h

theorem protected_leave (x : Scene) (n : LockName) (t : Nat) (n' : LockName) :
    Protected u x (x.leave n t) n' := by
  cases n' with
  | lifecycle s =>
    exact fun _ => ⟨.inl rfl, rfl, .inl rfl, fun _ h => h, .inl rfl, fun _ => quiet_leave⟩
  | provider s => trivial
  | writer c => exact fun _ => rfl
  | send k =>
    exact fun hk => ⟨hk, fun _ => rfl, rfl, fun _ h => ⟨h, id⟩, fun h => ⟨h, fun _ => id⟩⟩

theorem serves_leave (htidy : (x.lock n).holder = some t → x.Tidy u n)
    {n' : LockName} {t' : Nat} (hne : ¬ (n' = n ∧ t' = t)) : Serves u x (x.leave n t) n' t' := by
  rcases leave_lock_cases (x := x) (n := n) (t := t) n' with ⟨rfl, heq⟩ | ⟨-, heq⟩
  · have ht : t' ≠ t := fun h => hne ⟨rfl, h⟩
    unfold Serves
    rw [heq, Lock.leave_holder]
    by_cases hheld : (x.lock n').holder = some t
    · rw [if_pos hheld, hheld]
      refine ⟨fun h => absurd (Option.some.inj h).symm ht, fun _ _ => ?_⟩
      have := htidy hheld
      cases n' <;> exact this
    · rw [if_neg hheld]
      exact ⟨fun h => ⟨h, protected_leave x n' t n'⟩, fun hne h => absurd h hne⟩
  · unfold Serves
    rw [heq]
    exact ⟨fun h => ⟨h, protected_leave x n t n'⟩, fun hne h => absurd h hne⟩

theorem still_leave (hn : ∀ k, n ≠ .send k) : Still u x (x.leave n t) where
  heard _ := rfl
  synchronizers := rfl
  lock k := if_neg (hn k).symm
  text := rfl
  phase := rfl
  documents := .inl rfl
  front _ h := ⟨h, rfl⟩
  state h := h

theorem guarantee_leave (hown : x.owner n t = a.id)
    (htidy : (x.lock n).holder = some t → x.Tidy u n)
    (hn : a.isCall = false → ∀ k, n ≠ .send k) : x.Guarantee u a (x.leave n t) where
  always := always_leave x n t
  tickets n' t' _ hother := by
    refine serves_leave htidy ?_
    rintro ⟨rfl, rfl⟩
    exact hother hown
  given k t ht hy := by
    rw [leave_lock_next] at hy
    exact absurd (Nat.lt_of_le_of_lt ht hy) (Nat.lt_irrefl _)
  still ha := still_leave (hn ha)
  alone := rfl
  text := rfl
  phase := rfl

/-- Giving a ticket back changes nothing for who relied on the scene before it was given out. -/
theorem Rely.leave (h : x.Rely u a y) (hnew : (x.lock n).next ≤ t)
    (htidy : (y.lock n).holder = some t → y.Tidy u n) (hn : ∀ k, n ≠ .send k) :
    x.Rely u a (y.leave n t) where
  always := h.always.trans (always_leave y n t)
  tickets n' t' ht' hown := by
    refine (h.tickets n' t' ht' hown).trans h.always (always_leave y n t) ?_
    refine serves_leave htidy ?_
    rintro ⟨rfl, rfl⟩
    omega
  given k t' ht' hz := by
    rw [leave_lock_next] at hz
    exact h.given k t' ht' hz
  still ha halone := (h.still ha halone).trans (still_leave hn)
  alone := h.alone

end Scene

end LanguageHub
