import LanguageHub.Proofs.Client.Errands
import LanguageHub.Proofs.Client.Recalling

/-!
# Calls at a client that was closed

Once the reader has said that nothing will be answered any more, every call comes to an end, and it
comes to what was there before or to the end of the connection.

Laws: nothing waits for an answer any more, in every run from there; what the calls come to has one
of few causes; and in a fair run they all end.
-/

namespace LanguageHub

open Routine Client

namespace Switchboard

/-! ## Causes -/

/-- Why a call comes to what it comes to, when these answers were there. -/
inductive Cause (answers : List (RequestId × Response)) (f : Front) (q : Question)
    (id : RequestId) : Except HubError Json → Prop
  | closed : Cause answers f q id (.error .connectionClosed)
  | answered (r : Response) (hr : (id, r) ∈ answers) : Cause answers f q id (resultOf r)
  | withdrawn (hwithdrawn : f.isWithdrawn q.cancellation = true) :
      Cause answers f q id (.error .cancelled)
  | failed (reason : String) (hdue : f.isDue = true) :
      Cause answers f q id (.error (.transport reason))

section Turns

variable {answers : List (RequestId × Response)} {f f' : Front} {q : Question} {id : RequestId}
  {st st' : Standing} {r : Except HubError Json}

theorem Cause.of_same (h : Cause answers f q id r) (hdue : f.isDue = true → f'.isDue = true)
    (hcancelled : f.isWithdrawn q.cancellation = true → f'.isWithdrawn q.cancellation = true) :
    Cause answers f' q id r := by
  cases h with
  | closed => exact .closed
  | answered r hr => exact .answered r hr
  | withdrawn hwithdrawn => exact .withdrawn (hcancelled hwithdrawn)
  | failed reason hbroken => exact .failed reason (hdue hbroken)

theorem cause_of_outcome (hanswers : f.ledger.answers ⊆ answers) :
    Cause answers f' q id (f.outcome id) := by
  unfold Front.outcome
  split
  · rename_i r hr
    exact .answered r (hanswers (mem_of_lookup hr))
  · exact .closed

/-- The turn with which a call ends. -/
theorem cause_of_progress (hfits : Fits f (.ask q) st) (hgo : Progress f st f' st')
    (hbusy : st.result? = none) (hid : st.id? = some id)
    (hempty : f.ledger.pending = []) (hanswers : f.ledger.answers ⊆ answers)
    (hover : st'.result? = some (.asked r)) : Cause answers f' q id r := by
  have hwithdrawn := isWithdrawn_of_progress hgo q.cancellation
  cases hfits with
  | fresh serverId q id =>
    cases hgo with
    | refused _ _ _ _ =>
      cases hover
      exact .closed
    | enrols hopen hmark => cases hover
  | asking q id mark w =>
    cases hgo with
    | writes hwrites => cases hover
    | written hwrites hnext =>
      cases hnext with
      | asked _ _ _ deadline => cases hover
      | failed _ _ _ e =>
        cases hover
        obtain ⟨hdue, reason, rfl⟩ := error_of_writes hwrites
        exact .failed reason ((Front.unmark_isDue ..).trans hdue)
  | listening q id mark deadline =>
    cases hgo with
    | waits hpending hgoes => cases hover
    | recalls hrecalled hopen => cases hover
    | withdraws hrecalled _ =>
      cases hover
      exact .withdrawn (hwithdrawn.trans hrecalled)
    | collects hsettled =>
      cases hover
      obtain rfl := Option.some.inj hid
      exact cause_of_outcome hanswers
    | expires hpending =>
      rw [hempty] at hpending
      cases hpending
  | recalling q id mark w hrecalled =>
    cases hgo with
    | writes hwrites => cases hover
    | written hwrites hnext =>
      cases hnext with
      | recalled _ _ written =>
        cases hover
        exact .withdrawn (hwithdrawn.trans hrecalled)
  | asked q r hr => cases hbusy

end Turns

/-- What holds from when nothing waits for an answer any more. Of the calls that are not over yet
each one comes to something that has a cause. -/
structure Parting (found : List (RequestId × Response)) (remains : RequestId → Prop) (f : Front)
    (ps : List Place) : Prop where
  isClosed : f.isOpen = false
  empty : f.ledger.pending = []
  answers : f.ledger.answers ⊆ found
  causes : ∀ p ∈ ps, ∀ q id, p.errand = .ask q → p.id? = some id → remains id →
    ∀ r, p.standing.result? = some (.asked r) → Cause found f q id r

theorem kept_parting (found : List (RequestId × Response)) (remains : RequestId → Prop) :
    Kept Orderly (Parting found remains) where
  perm hperm h := ⟨h.isClosed, h.empty, h.answers, fun p hp => h.causes p (hperm.mem_iff.mpr hp)⟩
  go {f f' st' rest p} horderly _ h hgo := by
    obtain ⟨hpending, hanswers⟩ := shrinks_of_progress hgo h.isClosed
    obtain ⟨hclosed, hdue⟩ := lasting_of_progress hgo
    have hlasts : ∀ {q id r}, Cause found f q id r → Cause found f' q id r := fun hcause =>
      hcause.of_same hdue fun hwithdrawn => (isWithdrawn_of_progress hgo _).trans hwithdrawn
    refine ⟨hclosed h.isClosed, List.subset_nil.mp (h.empty ▸ hpending),
      List.Subset.trans (hanswers h.empty) h.answers,
      fun other hother q id hq hid hremains r hr => ?_⟩
    rcases List.mem_cons.mp hother with rfl | hother
    · have hfit := horderly.fits p List.mem_cons_self
      cases hbusy : p.standing.result? with
      | none =>
        rw [show p.errand = .ask q from hq] at hfit
        obtain ⟨id', hown⟩ := id?_of_fits hfit hbusy
        have hsame := horderly.tables.owns p List.mem_cons_self id' hown
        obtain rfl : id' = id := Option.some.inj (hsame.symm.trans hid)
        exact cause_of_progress hfit hgo hbusy hown h.empty h.answers hr
      | some e =>
        -- A call that was over before the turn stays what it was.
        have hrests : st' = p.standing := by
          generalize p.standing = st at hgo hbusy
          cases st with
          | ended e =>
            cases hgo
            rfl
          | _ => cases hbusy
        rw [show Place.standing { p with standing := st' } = p.standing from hrests] at hr
        exact hlasts (h.causes p List.mem_cons_self q id hq hid hremains r hr)
    · exact hlasts (h.causes other (List.mem_cons_of_mem _ hother) q id hq hid hremains r hr)
  begin {f _ _ _ ps} _ _ h _ hbegins := by
    have hclosed := h.isClosed
    have hjoin : ∀ {p : Place}, p.id? = none → Parting found remains f (p :: ps) := by
      intro p hnone
      refine ⟨h.isClosed, h.empty, h.answers, fun other hother q id hq hid => ?_⟩
      rcases List.mem_cons.mp hother with rfl | hother
      · cases hnone.symm.trans hid
      · exact h.causes other hother q id hq hid
    cases hbegins with
    | takes q serverId hopen => cases hopen.symm.trans hclosed
    | tells method params hopen => cases hopen.symm.trans hclosed
    | _ => exact hjoin rfl
  elsewhere _ h helse := by
    refine ⟨helse.isOpen.trans h.isClosed, List.subset_nil.mp (h.empty ▸ helse.pending),
      List.Subset.trans helse.answers h.answers, fun p hp q id hq hid hremains r hr => ?_⟩
    exact (h.causes p hp q id hq hid hremains r hr).of_same helse.isDue (helse.isWithdrawn _)

end Switchboard

end LanguageHub
