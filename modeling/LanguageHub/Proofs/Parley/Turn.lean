import LanguageHub.Proofs.Parley.Site

/-!
# Steps at a site

What one change of the hub means for the pact at a site: a quiet one, coming for a lock and
leaving it, and whatever a task may do that holds the locks it takes.
-/

namespace LanguageHub.Parley

open Routine Pact

variable {p : Site} {me k t : Nat} {n : LockName} {minded : LockName → Prop}
  {whose giver : Nat → Prop} {w w' : World} {h : Hub}

/-! ## Changes that leave all locks as they are -/

section SameLocks

variable (hlock : ∀ n, h.lock n = w.hub.lock n)

include hlock

theorem owner_move : (w.move p me h).owner = w.owner := by
  funext n t
  refine if_neg ?_
  rw [hlock]
  exact fun hboth => Nat.lt_irrefl _ (Nat.lt_of_le_of_lt hboth.1 hboth.2)

theorem holds_move (hw : w.Holds me n t) : (w.move p me h).Holds me n t where
  holder := (congrArg Lock.holder (hlock n)).trans hw.holder
  issued := Nat.lt_of_lt_of_eq hw.issued (congrArg Lock.next (hlock n)).symm
  owner := by
    rw [owner_move hlock]
    exact hw.owner

end SameLocks

theorem binds_of_protected (hlock : ∀ n, w'.hub.lock n = w.hub.lock n) (howner : w'.owner = w.owner)
    (hattached : ∀ k, p.attached w.hub = some k → p.attached w'.hub = some k)
    (hprotected : ∀ n t, minded n → whose (w.owner n t) → (w.hub.lock n).holder = some t →
      Protected p w w' n) : Binds p w w' minded whose giver where
  attached := hattached
  next n _ := Nat.le_of_eq (congrArg Lock.next (hlock n)).symm
  owner n t _ _ := congrFun (congrFun howner n) t
  gone n t _ _ hmem := by rwa [hlock] at hmem
  given n t _ hnew hold := by
    rw [hlock] at hold
    exact absurd hold (Nat.not_lt_of_le hnew)
  serves n t hn _ hwhose :=
    ⟨fun hheld => ⟨(congrArg Lock.holder (hlock n)).trans hheld, hprotected n t hn hwhose hheld⟩,
      fun hne hheld => absurd ((congrArg Lock.holder (hlock n)).symm.trans hheld) hne⟩

theorem eq_of_holds (hw : w.Holds me n t) {t' : Nat} (hheld : (w.hub.lock n).holder = some t') :
    t' = t := Option.some.inj (hheld.symm.trans hw.holder)

/-- A change that a task may make without giving a lock away. -/
structure Acts (p : Site) (me : Nat) (w : World) (h : Hub) : Prop where
  works : p.Works h
  attached : p.attached h = p.attached w.hub
  length : h.synchronizers.length = w.hub.synchronizers.length
  lock : ∀ n, h.lock n = w.hub.lock n
  frames : (h.link p.link).outgoing = (w.hub.link p.link).outgoing ∨
    ∃ t, w.Holds me (.writer p.client) t
  talk : p.heard h = p.heard w.hub ∧ (w.move p me h).taken = w.taken ∨
    (∃ k t, p.attached w.hub = some k ∧ w.Holds me (.send k) t) ∧ (w.move p me h).Follows p
  filed : ∀ k, p.attached w.hub = some k → (w.move p me h).Filed p k

namespace Acts

theorem guarantee (hacts : Acts p me w h) : Guarantee p me w (w.move p me h) := by
  refine ⟨binds_of_protected hacts.lock (owner_move hacts.lock)
    (fun _ hk => hacts.attached.trans hk) fun n t _ hother hheld => ?_, rfl⟩
  cases n with
  | writer c =>
    intro hc
    subst hc
    rcases hacts.frames with hsame | ⟨t', hholds⟩
    · exact hsame
    · obtain rfl := eq_of_holds hholds hheld
      exact absurd hholds.owner hother
  | send k =>
    intro hk
    have hk' : p.attached w.hub = some k := hacts.attached.symm.trans hk
    rcases hacts.talk with ⟨hheard, htaken⟩ | ⟨⟨k', t', hk'', hholds⟩, -⟩
    · exact ⟨hk', hheard, htaken⟩
    · obtain rfl := Option.some.inj (hk'.symm.trans hk'')
      obtain rfl := eq_of_holds hholds hheld
      exact absurd hholds.owner hother
  | _ => trivial

theorem inv (hacts : Acts p me w h) (hw : w.Inv p) : (w.move p me h).Inv p where
  works := hacts.works
  valid n := by
    change (h.lock n).Valid
    rw [hacts.lock]
    exact hw.valid n
  unused k hk := by
    change (h.lock (.send k)).isFree = true
    rw [hacts.lock]
    exact hw.unused k (hacts.length ▸ hk)
  absent hnone := by
    have hnone' : p.attached w.hub = none := hacts.attached.symm.trans hnone
    rcases hacts.talk with ⟨hheard, htaken⟩ | ⟨⟨k, t, hk, -⟩, -⟩
    · obtain ⟨hheard', htaken', hhooks⟩ := hw.absent hnone'
      exact ⟨hheard.trans hheard', htaken.trans htaken', hhooks⟩
    · rw [hnone'] at hk
      cases hk
  filed k hk := hacts.filed k (hacts.attached.symm.trans hk)
  follows := by
    rcases hacts.talk with ⟨hheard, htaken⟩ | ⟨-, hfollows⟩
    · have hfollows := hw.follows
      rw [World.Follows, ← hheard, ← htaken] at hfollows
      exact hfollows
    · exact hfollows
  tidy n hfree := by
    change (h.lock n).isFree = true at hfree
    rw [hacts.lock] at hfree
    cases n with
    | send k =>
      intro hk
      have hk' : p.attached w.hub = some k := hacts.attached.symm.trans hk
      rcases hacts.talk with ⟨hheard, htaken⟩ | ⟨⟨k', t', hk'', hholds⟩, -⟩
      · have htold := hw.tidy _ hfree hk'
        rw [World.Told, ← hheard, ← htaken] at htold
        exact htold
      · obtain rfl := Option.some.inj (hk'.symm.trans hk'')
        rw [Lock.isFree_iff, hholds.holder] at hfree
        cases hfree
    | _ => trivial

end Acts

/-! ## Quiet changes -/

theorem taken_of_synchronizers (hsame : h.synchronizers = w.hub.synchronizers) :
    (w.move p me h).taken = w.taken := by
  have hnothing : drained p w.hub h = [] := by
    unfold drained
    cases p.attached w.hub with
    | none => rfl
    | some k => exact if_pos (by rw [Hub.synchronizer, hsame]; rfl)
  exact (congrArg (w.taken ++ ·) hnothing).trans (List.append_nil _)

theorem filed_of_synchronizers (hsame : h.synchronizers = w.hub.synchronizers)
    (hfiled : w.Filed p k) : (w.move p me h).Filed p k := by
  have hsync : h.synchronizer k = w.hub.synchronizer k := by
    rw [Hub.synchronizer, hsame]
    rfl
  refine ⟨?_, ?_, ?_, ?_⟩
  · exact Nat.lt_of_lt_of_eq hfiled.known (congrArg List.length hsame).symm
  · exact (congrArg Synchronizer.uri hsync).trans hfiled.uri
  · rw [taken_of_synchronizers hsame]
    exact (congrArg Synchronizer.version hsync).trans hfiled.version
  · rw [taken_of_synchronizers hsame]
    change (h.synchronizer k).Collects w.hooks w.taken
    rw [hsync]
    exact hfiled.collects

theorem acts_of_quiet (hquiet : p.Quiet w.hub h) (hw : w.Inv p) : Acts p me w h where
  works := hquiet.works hw.works
  attached := hquiet.attached
  length := congrArg List.length hquiet.synchronizers
  lock := hquiet.lock
  frames := .inl hquiet.frames
  talk := .inl ⟨hquiet.heard, taken_of_synchronizers hquiet.synchronizers⟩
  filed k hk := filed_of_synchronizers hquiet.synchronizers (hw.filed k hk)

theorem protected_of_quiet (hquiet : p.Quiet w.hub h) (n : LockName) :
    Protected p w (w.move p me h) n := by
  cases n with
  | writer c => exact fun _ => hquiet.frames
  | send k => exact fun hk => ⟨hquiet.attached.symm.trans hk, hquiet.heard,
      taken_of_synchronizers hquiet.synchronizers⟩
  | _ => trivial

theorem binds_of_quiet (hquiet : p.Quiet w.hub h) :
    Binds p w (w.move p me h) minded whose giver :=
  binds_of_protected hquiet.lock (owner_move hquiet.lock)
    (fun _ hk => hquiet.attached.trans hk) fun n _ _ _ _ => protected_of_quiet hquiet n

/-! ## Coming for a lock and leaving it -/

theorem lock_enter (n' : LockName) : (Hub.enterLock n w.hub).2.lock n' =
    if n' = n then (w.hub.lock n).enter.2 else w.hub.lock n' :=
  Hub.lock_setLock _ _ _

theorem taken_enter : (w.move p me (Hub.enterLock n w.hub).2).taken = w.taken :=
  taken_of_synchronizers rfl

theorem owner_enter : (w.move p me (Hub.enterLock n w.hub).2).owner n (w.hub.lock n).next = me := by
  refine if_pos ⟨Nat.le_refl _, ?_⟩
  rw [lock_enter, if_pos rfl, Lock.enter_next]
  exact Nat.lt_succ_self _

theorem protected_enter (n' : LockName) :
    Protected p w (w.move p me (Hub.enterLock n w.hub).2) n' := by
  cases n' with
  | writer c => exact fun _ => rfl
  | send k => exact fun hk => ⟨hk, rfl, taken_enter⟩
  | _ => trivial

theorem binds_enter (hgiver : minded n → giver me) :
    Binds p w (w.move p me (Hub.enterLock n w.hub).2) minded whose giver where
  attached _ hk := hk
  next n' _ := by
    change _ ≤ ((Hub.enterLock n w.hub).2.lock n').next
    rw [lock_enter]
    split
    · rename_i heq
      rw [heq, Lock.enter_next]
      exact Nat.le_succ _
    · exact Nat.le_refl _
  owner n' t _ ht := if_neg fun hboth => Nat.lt_irrefl _ (Nat.lt_of_lt_of_le ht hboth.1)
  gone n' t _ ht hmem := by
    change t ∈ ((Hub.enterLock n w.hub).2.lock n').tickets at hmem
    rw [lock_enter] at hmem
    split at hmem
    · rename_i heq
      subst heq
      rcases Lock.mem_tickets_of_enter hmem with hmem | rfl
      · exact hmem
      · exact absurd ht (Nat.lt_irrefl _)
    · exact hmem
  given n' t hn hnew hold := by
    have howner : (w.move p me (Hub.enterLock n w.hub).2).owner n' t = me :=
      if_pos ⟨hnew, hold⟩
    rw [howner]
    change t < ((Hub.enterLock n w.hub).2.lock n').next at hold
    rw [lock_enter] at hold
    split at hold
    · rename_i heq
      exact hgiver (heq ▸ hn)
    · exact absurd hold (Nat.not_lt_of_le hnew)
  serves n' t _ ht _ := by
    have hholder : ((w.move p me (Hub.enterLock n w.hub).2).hub.lock n').holder =
        if n' = n ∧ (w.hub.lock n).isFree then some (w.hub.lock n).next
        else (w.hub.lock n').holder := by
      change ((Hub.enterLock n w.hub).2.lock n').holder = _
      rw [lock_enter]
      by_cases heq : n' = n
      · subst heq
        simp [Lock.enter_holder]
      · simp [heq]
    -- Only the new ticket can come to hold a lock here, and it is not one of those served.
    refine ⟨fun hheld => ⟨?_, protected_enter n'⟩, fun hne hheld => ?_⟩
    · rw [hholder, if_neg]
      · exact hheld
      · rintro ⟨rfl, hfree⟩
        rw [Lock.isFree_iff, hheld] at hfree
        cases hfree
    · rw [hholder] at hheld
      split at hheld
      · rename_i hboth
        obtain ⟨rfl, -⟩ := hboth
        obtain rfl := Option.some.inj hheld
        exact absurd ht (Nat.lt_irrefl _)
      · exact absurd hheld hne

theorem inv_enter (hw : w.Inv p) (hsend : ∀ k, n = .send k → k < w.hub.synchronizers.length) :
    (w.move p me (Hub.enterLock n w.hub).2).Inv p where
  works := hw.works.setLock _ _
  valid n' := by
    change ((Hub.enterLock n w.hub).2.lock n').Valid
    rw [lock_enter]
    split
    · exact (hw.valid n).enter
    · exact hw.valid n'
  unused k hk := by
    change ((Hub.enterLock n w.hub).2.lock (.send k)).isFree = true
    rw [lock_enter, if_neg]
    · exact hw.unused k hk
    · intro heq
      exact absurd (hsend k heq.symm) (Nat.not_lt_of_le hk)
  absent hnone := by
    rw [taken_enter]
    exact hw.absent hnone
  filed k hk := filed_of_synchronizers rfl (hw.filed k hk)
  follows := by
    have hfollows := hw.follows
    rw [World.Follows] at hfollows ⊢
    rw [taken_enter]
    exact hfollows
  tidy n' hfree := by
    change ((Hub.enterLock n w.hub).2.lock n').isFree = true at hfree
    rw [lock_enter] at hfree
    split at hfree
    · rw [Lock.enter_isFree] at hfree
      cases hfree
    · exact (protected_enter n').tidy (hw.tidy n' hfree)

/-- Who has come to hold a lock finds it tidy. -/
theorem holds_of_entered (hw : w.Inv p)
    (hbinds : Rely p me (w.move p me (Hub.enterLock n w.hub).2) w')
    (hheld : (w'.hub.lock n).holder = some (w.hub.lock n).next) :
    w'.Holds me n (w.hub.lock n).next ∧ w'.Tidy p n := by
  have hissued : (w.hub.lock n).next <
      ((w.move p me (Hub.enterLock n w.hub).2).hub.lock n).next := by
    change _ < ((Hub.enterLock n w.hub).2.lock n).next
    rw [lock_enter, if_pos rfl, Lock.enter_next]
    exact Nat.lt_succ_self _
  refine ⟨⟨hheld, Nat.lt_of_lt_of_le hissued (hbinds.next n trivial),
    (hbinds.owner n _ trivial hissued).trans owner_enter⟩, ?_⟩
  have hserves := hbinds.serves n _ trivial hissued owner_enter
  -- A lock that was free is held at once, and was tidy; another one comes to the ticket later.
  by_cases hnow : ((w.move p me (Hub.enterLock n w.hub).2).hub.lock n).holder =
      some (w.hub.lock n).next
  · refine (hserves.1 hnow).2.tidy ((protected_enter n).tidy (hw.tidy n ?_))
    change ((Hub.enterLock n w.hub).2.lock n).holder = _ at hnow
    rw [lock_enter, if_pos rfl, Lock.enter_holder] at hnow
    split at hnow
    · assumption
    · have hmem : (w.hub.lock n).next ∈ (w.hub.lock n).tickets := by simp [Lock.tickets, hnow]
      exact absurd ((hw.valid n).issued _ hmem) (Nat.lt_irrefl _)
  · exact hserves.2 hnow hheld

theorem lock_leave (n' : LockName) : (Hub.leaveLock n t w.hub).lock n' =
    if n' = n then (w.hub.lock n).leave t else w.hub.lock n' :=
  Hub.lock_setLock _ _ _

theorem taken_leave : (w.move p me (Hub.leaveLock n t w.hub)).taken = w.taken :=
  taken_of_synchronizers rfl

theorem protected_leave (n' : LockName) :
    Protected p w (w.move p me (Hub.leaveLock n t w.hub)) n' := by
  cases n' with
  | writer c => exact fun _ => rfl
  | send k => exact fun hk => ⟨hk, rfl, taken_leave⟩
  | _ => trivial

theorem binds_leave (hholds : w.Holds me n t) (htidy : w.Tidy p n)
    (hwhose : minded n → ¬ whose me) :
    Binds p w (w.move p me (Hub.leaveLock n t w.hub)) minded whose giver := by
  have hnext : ∀ n', ((w.move p me (Hub.leaveLock n t w.hub)).hub.lock n').next =
      (w.hub.lock n').next := by
    intro n'
    change ((Hub.leaveLock n t w.hub).lock n').next = _
    rw [lock_leave]
    split
    · rename_i heq
      rw [heq, Lock.leave_next]
    · rfl
  constructor
  case attached => exact fun _ hk => hk
  case next => exact fun n' _ => Nat.le_of_eq (hnext n').symm
  case owner =>
    exact fun n' t' _ ht' => if_neg fun hboth =>
      Nat.lt_irrefl _ (Nat.lt_of_lt_of_le ht' hboth.1)
  case gone =>
    intro n' t' _ _ hmem
    change t' ∈ ((Hub.leaveLock n t w.hub).lock n').tickets at hmem
    rw [lock_leave] at hmem
    split at hmem
    · rename_i heq
      exact heq ▸ Lock.mem_tickets_of_leave hmem
    · exact hmem
  case given =>
    intro n' t' _ hnew hold
    rw [hnext] at hold
    exact absurd hold (Nat.not_lt_of_le hnew)
  case serves =>
    intro n' t' hn ht' hother
    by_cases heq : n' = n
    · subst heq
      -- The ticket that is given back is no ticket of those served, and the next one finds the
      -- lock as it was left.
      refine ⟨fun hheld => ?_, fun _ _ => (protected_leave n').tidy htidy⟩
      obtain rfl := eq_of_holds hholds hheld
      exact absurd (hholds.owner ▸ hother) (hwhose hn)
    · have hsame : (w.move p me (Hub.leaveLock n t w.hub)).hub.lock n' = w.hub.lock n' :=
        (lock_leave n').trans (if_neg heq)
      exact ⟨fun hheld => ⟨(congrArg Lock.holder hsame).trans hheld, protected_leave n'⟩,
        fun hne hheld => absurd ((congrArg Lock.holder hsame).symm.trans hheld) hne⟩

theorem inv_leave (hw : w.Inv p) (hholds : w.Holds me n t) (htidy : w.Tidy p n) :
    (w.move p me (Hub.leaveLock n t w.hub)).Inv p where
  works := hw.works.setLock _ _
  valid n' := by
    change ((Hub.leaveLock n t w.hub).lock n').Valid
    rw [lock_leave]
    split
    · exact (hw.valid n).leave t
    · exact hw.valid n'
  unused k hk := by
    have hfree := hw.unused k hk
    change ((Hub.leaveLock n t w.hub).lock (.send k)).isFree = true
    rw [lock_leave, if_neg]
    · exact hfree
    · rintro rfl
      rw [Lock.isFree_iff, hholds.holder] at hfree
      cases hfree
  absent hnone := by
    rw [taken_leave]
    exact hw.absent hnone
  filed k hk := filed_of_synchronizers rfl (hw.filed k hk)
  follows := by
    have hfollows := hw.follows
    rw [World.Follows] at hfollows ⊢
    rw [taken_leave]
    exact hfollows
  tidy n' hfree := by
    refine (protected_leave n').tidy ?_
    by_cases heq : n' = n
    · exact heq ▸ htidy
    · change ((Hub.leaveLock n t w.hub).lock n').isFree = true at hfree
      rw [lock_leave, if_neg heq] at hfree
      exact hw.tidy n' hfree

end LanguageHub.Parley
