import LanguageHub.Proofs.Client.Stream

/-!
# Errands and places

A task stands where its errand leads it. Only readers close the client and forget the calls, and a
call comes to nothing else than what it was there for.

Laws: in every run each task stands where its errand leads it, and a call that was cancelled was
cancelled by somebody.
-/

namespace LanguageHub

open Routine Client

namespace Switchboard

def Standing.isReading : Standing → Bool
  | .writing (.answer _ _) _ => true
  | .idle => true
  | .handing _ _ _ _ => true
  | .closing => true
  | _ => false

/-- A task stands where its errand leads it. -/
inductive Fits (f : Front) : Errand → Standing → Prop
  | fresh (serverId : String) (q : Question) (id : RequestId) :
      Fits f (.ask q) (.fresh serverId q id)
  | asking (q : Question) (id : RequestId) (mark : Option (Nat × Nat)) (w : Writing) :
      Fits f (.ask q) (.writing (.request q id mark) w)
  | listening (q : Question) (id : RequestId) (mark : Option (Nat × Nat)) (deadline : Duration) :
      Fits f (.ask q) (.listening q id mark deadline)
  | recalling (q : Question) (id : RequestId) (mark : Option (Nat × Nat)) (w : Writing)
      (hwithdrawn : f.isWithdrawn q.cancellation = true) :
      Fits f (.ask q) (.writing (.recalling id mark) w)
  | asked (q : Question) (r : Except HubError Json)
      (hr : r = .error .cancelled → f.isWithdrawn q.cancellation = true) :
      Fits f (.ask q) (.ended (.asked r))
  | telling (method : String) (params : Json) (w : Writing) :
      Fits f (.tell method params) (.writing .notice w)
  | told (method : String) (params : Json) (r : Except HubError Unit) :
      Fits f (.tell method params) (.ended (.told r))
  | reading (st : Standing) (hst : st.isReading = true) : Fits f .listen st
  | listened (goesOn : Bool) : Fits f .listen (.ended (.listened goesOn))

section Turns

variable {f f' : Front} {st st' : Standing} {e : Errand}

theorem isCancelled_of_progress (h : Progress f st f' st') : f'.isCancelled = f.isCancelled := by
  have hfollows : ∀ {f₁ f₂ purpose r st}, Follows f₁ purpose r f₂ st →
      f₂.isCancelled = f₁.isCancelled := by
    intro f₁ f₂ purpose r st h
    cases h with
    | failed q id mark e => exact Front.unmark_isCancelled ..
    | recalled id mark written => exact Front.unmark_isCancelled ..
    | answered bodies stop written hnext => exact hnext.same.isCancelled
    | _ => rfl
  cases h with
  | writes hwrites => exact hwrites.same.isCancelled
  | written hwrites hnext => exact (hfollows hnext).trans hwrites.same.isCancelled
  | withdraws hwithdrawn hclosed => exact Front.unmark_isCancelled ..
  | collects hsettled => exact Front.unmark_isCancelled ..
  | expires hpending => exact Front.unmark_isCancelled ..
  | reads hnext => exact hnext.same.isCancelled
  | hands hnext => exact hnext.same.isCancelled
  | _ => rfl

theorem isWithdrawn_of_progress (h : Progress f st f' st') (cancellation : Option Nat) :
    f'.isWithdrawn cancellation = f.isWithdrawn cancellation := by
  unfold Front.isWithdrawn
  rw [isCancelled_of_progress h]

theorem Fits.of_same (h : Fits f e st) (hcancelled : ∀ cancellation,
    f.isWithdrawn cancellation = true → f'.isWithdrawn cancellation = true) : Fits f' e st := by
  cases h with
  | fresh serverId q id => exact .fresh serverId q id
  | asking q id mark w => exact .asking q id mark w
  | listening q id mark deadline => exact .listening q id mark deadline
  | recalling q id mark w hwithdrawn => exact .recalling q id mark w (hcancelled _ hwithdrawn)
  | asked q r hr => exact .asked q r fun h => hcancelled _ (hr h)
  | telling method params w => exact .telling method params w
  | told method params r => exact .told method params r
  | reading st hst => exact .reading st hst
  | listened goesOn => exact .listened goesOn

theorem fits_hears {f₁ f₂ : Front} (h : Hears f₁ f₂ st) : Fits f .listen st := by
  cases h with
  | ends goesOn => exact .listened goesOn
  | hands id r bodies stop => exact .reading _ rfl
  | answers r bodies stop => exact .reading _ rfl

theorem Fits.go (h : Fits f e st) (hgo : Progress f st f' st') : Fits f' e st' := by
  have hsame := isWithdrawn_of_progress hgo
  cases h with
  | fresh serverId q id =>
    cases hgo with
    | refused _ _ _ hclosed => exact .asked q _ (by simp)
    | enrols hopen hmark => exact .asking q id _ _
  | asking q id mark w =>
    cases hgo with
    | writes hwrites => exact .asking q id mark _
    | written hwrites hnext =>
      cases hnext with
      | asked _ _ _ deadline => exact .listening q id mark deadline
      | failed _ _ _ e =>
        obtain ⟨-, reason, rfl⟩ := error_of_writes hwrites
        exact .asked q _ (by simp)
  | listening q id mark deadline =>
    cases hgo with
    | waits hpending hgoes => exact .listening q id mark deadline
    | recalls hwithdrawn hopen => exact .recalling q id mark _ hwithdrawn
    | withdraws hwithdrawn hclosed => exact .asked q _ fun _ => (hsame _).trans hwithdrawn
    | collects hsettled => exact .asked q _ fun h => absurd h (outcome_ne_cancelled f id)
    | expires hpending => exact .asked q _ (by simp)
  | recalling q id mark w hwithdrawn =>
    cases hgo with
    | writes hwrites => exact .recalling q id mark _ ((hsame _).trans hwithdrawn)
    | written hwrites hnext =>
      cases hnext with
      | recalled _ _ written => exact .asked q _ fun _ => (hsame _).trans hwithdrawn
  | asked q r hr =>
    cases hgo
    exact .asked q r hr
  | telling method params w =>
    cases hgo with
    | writes hwrites => exact .telling method params _
    | written hwrites hnext =>
      cases hnext
      exact .told method params _
  | told method params r =>
    cases hgo
    exact .told method params r
  | reading st hst =>
    cases hgo with
    | @writes purpose w w' f' hwrites =>
      cases purpose with
      | answer bodies stop => exact .reading _ rfl
      | _ => cases hst
    | written hwrites hnext =>
      cases hnext with
      | answered bodies stop written hnext => exact fits_hears hnext
      | _ => cases hst
    | idles => exact .reading _ rfl
    | reads hnext => exact fits_hears hnext
    | closes => exact .reading _ rfl
    | hands hnext => exact fits_hears hnext
    | clears => exact .listened false
    | _ => cases hst
  | listened goesOn =>
    cases hgo
    exact .listened goesOn

theorem fits_begins (h : Begins f e f' st) : Fits f' e st := by
  cases h with
  | refused q hclosed => exact .asked q _ (by simp)
  | withdrawn q hopen hwithdrawn => exact .asked q _ fun _ => hwithdrawn
  | takes q serverId hopen => exact .fresh serverId q _
  | tells method params hopen => exact .telling method params _
  | keepsSilent method params hclosed => exact .told method params _
  | listens => exact .reading _ rfl

end Turns

def AllFit (f : Front) (ps : List Place) : Prop := ∀ p ∈ ps, Fits f p.errand p.standing

theorem Elsewhere.isWithdrawn {f f' : Front} (h : Elsewhere f f') (cancellation : Option Nat)
    (hwithdrawn : f.isWithdrawn cancellation = true) : f'.isWithdrawn cancellation = true := by
  cases cancellation with
  | none => cases hwithdrawn
  | some i => exact h.isCancelled i hwithdrawn

theorem kept_fits : Kept (fun _ _ => True) AllFit where
  perm hperm h p hp := h p (hperm.mem_iff.mpr hp)
  go {_ _ _ _ p} _ _ h hgo other hother := by
    rcases List.mem_cons.mp hother with rfl | hother
    · exact (h p List.mem_cons_self).go hgo
    · refine (h other (List.mem_cons_of_mem _ hother)).of_same fun cancellation hwithdrawn => ?_
      rw [isWithdrawn_of_progress hgo, hwithdrawn]
  begin _ _ h _ hbegins p hp := by
    rcases List.mem_cons.mp hp with rfl | hp
    · exact fits_begins hbegins
    · refine (h p hp).of_same fun cancellation hwithdrawn => ?_
      cases hbegins <;> exact hwithdrawn
  elsewhere _ h helse p hp := (h p hp).of_same helse.isWithdrawn

structure Orderly (f : Front) (ps : List Place) : Prop where
  tables : Tables f ps
  stream : Stream f ps
  fits : AllFit f ps

theorem kept_orderly : Kept (fun _ _ => True) Orderly where
  perm hperm h := ⟨h.tables.perm hperm, h.stream.perm hperm, kept_fits.perm hperm h.fits⟩
  go _ _ h hgo := ⟨h.tables.go (tidies_of_progress hgo), h.stream.go hgo,
    kept_fits.go trivial trivial h.fits hgo⟩
  begin _ _ h hproper hbegins := ⟨kept_tables.begin trivial trivial h.tables hproper hbegins,
    h.stream.begin hbegins, kept_fits.begin trivial trivial h.fits hproper hbegins⟩
  elsewhere _ h helse := ⟨h.tables.elsewhere helse, h.stream.elsewhere helse,
    kept_fits.elsewhere trivial h.fits helse⟩

theorem orderly_new {c : Nat} {h : Hub} (hnew : IsNew c h) : Orderly (front c h) [] :=
  ⟨tables_new hnew, stream_new hnew, fun _ hp => absurd hp List.not_mem_nil⟩

theorem id?_of_fits {f : Front} {q : Question} {st : Standing} (h : Fits f (.ask q) st)
    (hbusy : st.result? = none) : ∃ id, st.id? = some id := by
  cases h with
  | asked q r hr => cases hbusy
  | _ => exact ⟨_, rfl⟩

theorem Orderly.isOver {f : Front} {ps : List Place} (h : Orderly f ps) {p : Place} (hp : p ∈ ps)
    {q : Question} (hq : p.errand = .ask q) (hid : p.id? = none) :
    p.standing.result?.isSome = true := by
  cases hbusy : p.standing.result? with
  | none =>
    obtain ⟨id, hown⟩ := id?_of_fits (hq ▸ h.fits p hp) hbusy
    cases hid.symm.trans (h.tables.owns p hp id hown)
  | some e => rfl

/-! ## Readers that close the client -/

/-- Of a closed client nobody waits for an answer, once its reader said so. -/
def Dismissed (f : Front) (ps : List Place) : Prop :=
  f.isOpen = false → ∃ p ∈ ps, p.errand = .listen ∧
    (p.standing = .closing ∨ p.standing = .ended (.listened false) ∧ f.ledger.pending = [])

/-- Nothing new waits at a client that is closed, and once nothing waits nothing is answered. -/
theorem shrinks_of_progress {f f' : Front} {st st' : Standing} (h : Progress f st f' st')
    (hclosed : f.isOpen = false) : f'.ledger.pending ⊆ f.ledger.pending ∧
      (f.ledger.pending = [] → f'.ledger.answers ⊆ f.ledger.answers) := by
  have hsame : ∀ {g : Front}, g.ledger = f.ledger → g.ledger.pending ⊆ f.ledger.pending ∧
      (f.ledger.pending = [] → g.ledger.answers ⊆ f.ledger.answers) := by
    intro g hg
    rw [hg]
    exact ⟨List.Subset.refl _, fun _ => List.Subset.refl _⟩
  have hforget : ∀ mark id (g : Front), g.ledger = f.ledger.forget id →
      (g.unmark mark).ledger.pending ⊆ f.ledger.pending ∧
        (f.ledger.pending = [] → (g.unmark mark).ledger.answers ⊆ f.ledger.answers) := by
    intro mark id g hg
    rw [Front.unmark_ledger, hg]
    exact ⟨fun id' hid' => (mem_forget hid').1, fun _ => List.Subset.refl _⟩
  cases h with
  | enrols hopen hmark => cases hopen.symm.trans hclosed
  | writes hwrites => exact hsame hwrites.same.ledger
  | written hwrites hnext =>
    cases hnext with
    | failed q id mark e => exact hforget mark id _ (by rw [hwrites.same.ledger])
    | recalled id mark written => exact hsame ((Front.unmark_ledger ..).trans hwrites.same.ledger)
    | answered bodies stop written hnext =>
      exact hsame (hnext.same.ledger.trans hwrites.same.ledger)
    | asked q id mark deadline => exact hsame hwrites.same.ledger
    | told written => exact hsame hwrites.same.ledger
  | recalls hwithdrawn hopen => cases hopen.symm.trans hclosed
  | withdraws hwithdrawn hclosed => exact hforget _ _ _ rfl
  | expires hpending => exact hforget _ _ _ rfl
  | collects hsettled =>
    rw [Front.unmark_ledger]
    exact ⟨List.Subset.refl _, fun _ entry hentry => (List.mem_filter.mp hentry).1⟩
  | reads hnext => exact hsame hnext.same.ledger
  | hands hnext =>
    rw [hnext.same.ledger]
    refine ⟨deliver_shrinks.1, fun hnone => ?_⟩
    rw [deliver_shrinks.2 hnone]
    exact List.Subset.refl _
  | clears => exact ⟨List.nil_subset _, fun _ => List.Subset.refl _⟩
  | _ => exact hsame rfl

theorem closing_of_progress {f f' : Front} {st st' : Standing} (h : Progress f st f' st')
    (hopen : f.isOpen = true) (hclosed : f'.isOpen = false) : st = .idle ∧ st' = .closing := by
  have hsame : ∀ {g : Front}, g.isOpen = f.isOpen → g.isOpen ≠ false := by
    intro g hg hno
    cases (hg.symm.trans hno).symm.trans hopen
  cases h with
  | closes => exact ⟨rfl, rfl⟩
  | writes hwrites => exact absurd hclosed (hsame hwrites.same.isOpen)
  | written hwrites hnext =>
    exact absurd hclosed (hsame (hnext.sameLink.isOpen.trans hwrites.same.isOpen))
  | withdraws hwithdrawn hclosed' => cases hopen.symm.trans hclosed'
  | collects hsettled => exact absurd hclosed (hsame (Front.unmark_isOpen ..))
  | expires hpending => exact absurd hclosed (hsame (Front.unmark_isOpen ..))
  | reads hnext => exact absurd hclosed (hsame hnext.same.isOpen)
  | hands hnext => exact absurd hclosed (hsame hnext.same.isOpen)
  | _ => exact absurd hclosed (hsame rfl)

theorem kept_dismissed : Kept AllFit Dismissed where
  perm hperm h hclosed := by
    obtain ⟨p, hp, hreader⟩ := h hclosed
    exact ⟨p, hperm.mem_iff.mp hp, hreader⟩
  go {f f' st' rest p} hfits _ h hgo hclosed' := by
    cases hopen : f.isOpen with
    | true =>
      obtain ⟨hidle, rfl⟩ := closing_of_progress hgo hopen hclosed'
      have hfit := hfits p List.mem_cons_self
      rw [hidle] at hfit
      refine ⟨_, List.mem_cons_self, ?_, .inl rfl⟩
      generalize p.errand = e at hfit
      cases hfit
      rfl
    | false =>
      -- The client was closed before: the reader that closed it is still there.
      obtain ⟨q, hq, herrand, hreader⟩ := h hopen
      have hempty : f.ledger.pending = [] → f'.ledger.pending = [] := fun hnone =>
        List.subset_nil.mp (hnone ▸ (shrinks_of_progress hgo hopen).1)
      rcases List.mem_cons.mp hq with rfl | hq
      · refine ⟨_, List.mem_cons_self, herrand, .inr ?_⟩
        rcases hreader with hclosing | ⟨hover, hnone⟩
        · rw [hclosing] at hgo
          cases hgo
          exact ⟨rfl, rfl⟩
        · rw [hover] at hgo
          cases hgo
          exact ⟨rfl, hnone⟩
      · exact ⟨q, List.mem_cons_of_mem _ hq, herrand, hreader.imp_right (And.imp_right hempty)⟩
  begin _ _ h _ hbegins hclosed := by
    cases hbegins with
    | takes q serverId hopen => cases hopen.symm.trans hclosed
    | tells method params hopen => cases hopen.symm.trans hclosed
    | _ =>
      obtain ⟨q, hq, hreader⟩ := h hclosed
      exact ⟨q, List.mem_cons_of_mem _ hq, hreader⟩
  elsewhere _ h helse hclosed := by
    obtain ⟨p, hp, herrand, hreader⟩ := h (helse.isOpen ▸ hclosed)
    refine ⟨p, hp, herrand, hreader.imp_right (And.imp_right fun hnone => ?_)⟩
    exact List.subset_nil.mp (hnone ▸ helse.pending)

end Switchboard

end LanguageHub
