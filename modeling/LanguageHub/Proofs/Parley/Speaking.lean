import LanguageHub.Proofs.Client.Writing
import LanguageHub.Proofs.Parley.Reaching

/-!
# Speaking at a site

Whoever has the word tells the server of one notice after the other. A message is written while
nobody else writes, and the server hears of it with its last byte.
-/

namespace LanguageHub

namespace Site

variable {p : Site} {h : Hub} {l : Link}

/-- The hub with more written to the link. -/
abbrev put (p : Site) (l : Link) (h : Hub) : Hub := h.onLink p.link fun _ => l

theorem link_put (hlinked : p.link < h.links.length) : (p.put l h).link p.link = l :=
  (Hub.link_onLink ..).trans (if_pos ⟨rfl, hlinked⟩)

theorem Works.put (hworks : p.Works h) (hl : l.writeFault = none) : p.Works (p.put l h) where
  known := hworks.known
  started := hworks.started
  speaker := hworks.speaker
  isOpen := hworks.isOpen
  link := hworks.link
  linked := by
    rw [Site.put, Hub.onLink, List.length_modify]
    exact hworks.linked
  fault := by rwa [link_put hworks.linked]

theorem Works.heard_put (hworks : p.Works h) :
    p.heard (p.put l h) = Outgoing.heard p.uri l.outgoing := by
  rw [Site.heard, link_put hworks.linked]

theorem Works.client? (hworks : p.Works h) : (h.session p.session).client? = .ok p.client := by
  obtain ⟨running, hrunning, hclient⟩ := Option.map_eq_some_iff.mp hworks.speaker
  rw [Session.client?, hworks.started, hrunning]
  exact congrArg Except.ok hclient

end Site

namespace Parley

open Routine Pact Client
open DocumentNotice (Tells)

variable {p : Site} {me k t size : Nat} {α : Type} {w : World} {message : Message} {l : Link}
  {F : List Message → List (List TextChange) → Prop}

/-! ## Writing -/

theorem World.Told.follows (htold : w.Told p) : w.Follows p :=
  .inr ⟨w.taken, [], (List.append_nil _).symm, Nat.zero_le _, htold⟩

theorem taken_put : (w.move p me (p.put l w.hub)).taken = w.taken := taken_of_synchronizers rfl

/-- Writing needs the turn to write, and the word when the server hears of the document. -/
theorem acts_put (hw : w.Inv p) (hl : l.writeFault = none)
    (hholds : w.Holds me (.writer p.client) t)
    (htalk : Outgoing.heard p.uri l.outgoing = p.heard w.hub ∨
      (∃ k t, p.attached w.hub = some k ∧ w.Holds me (.send k) t) ∧
        Tells p.uri w.taken (Outgoing.heard p.uri l.outgoing)) :
    Acts p me w (p.put l w.hub) where
  works := hw.works.put hl
  attached := rfl
  length := rfl
  lock _ := rfl
  frames := .inr ⟨t, hholds⟩
  talk := by
    refine htalk.imp (fun hsame => ⟨hw.works.heard_put.trans hsame, taken_put⟩) ?_
    rintro ⟨hword, htells⟩
    refine ⟨hword, World.Told.follows ?_⟩
    rw [← hw.works.heard_put (l := l)] at htells
    rwa [World.Told, taken_put]
  filed k hk := filed_of_synchronizers rfl (hw.filed k hk)

/-- What the server hears nothing of changes nothing that anybody with the word knows. -/
theorem binds_put (hw : w.Inv p) (hsame : Outgoing.heard p.uri l.outgoing = p.heard w.hub) :
    Binds p w (w.move p me (p.put l w.hub)) LockName.IsSend (· = me) (· ≠ me) := by
  refine binds_of_protected (fun _ => rfl) (owner_move fun _ => rfl) (fun _ hk => hk)
    fun n t hn _ _ => ?_
  cases n with
  | send k => exact fun hk => ⟨hk, hw.works.heard_put.trans hsame, taken_put⟩
  | _ => exact hn.elim

/-- The task writes, and so much of the message was accepted. -/
structure Writing (p : Site) (me t : Nat) (message : Message) (size sent : Nat) (w : World) :
    Prop where
  holds : w.Holds me (.writer p.client) t
  frames : ∃ frames, (w.hub.link p.link).outgoing = frames ++ Link.begun message size sent

theorem enduring_writing {sent : Nat} : Enduring p me (Writing p me t message size sent) := by
  rintro w w' - hbinds ⟨hholds, frames, hframes⟩
  have hsame := hbinds.protects (n := .writer p.client) trivial hholds rfl
  exact ⟨hbinds.holds trivial hholds, frames, hsame.trans hframes⟩

/-- What the server hears of the document with a message. -/
def Hears (p : Site) (message : Message) (w : World) (l : Link) : Prop :=
  Outgoing.heard p.uri l.outgoing =
    p.heard w.hub ++ if message.isAbout p.uri then [message] else []

section Transfer

variable {P Q : World → Prop} (hP : Lasting p me LockName.IsSend P)
  (hlast : ∀ (t : Nat) (w : World) (l : Link), w.Inv p → l.writeFault = none →
    w.Holds me (.writer p.client) t → P w → Hears p message w l →
      Acts p me w (p.put l w.hub) ∧ Q (w.move p me (p.put l w.hub)))

include hP hlast

/-- A round of a transfer writes something. The last one ends the message. -/
theorem reaches_round {sent : Nat} (hsent : sent < size) :
    Reaches p me
      (fun w => (Writing p me t message size sent w ∧ P w) ∧
        (w.hub.linkOf p.client).isWritable = true)
      (modifyGet fun h => h.fromLink (h.client p.client).link (·.write message size sent))
      fun r w => ∃ count, r = .ok count ∧ 0 < count ∧
        if size ≤ sent + count then w.Holds me (.writer p.client) t ∧ Q w
        else Writing p me t message size (sent + count) w ∧ P w := by
  refine reaches_modifyGet fun w hw hPw => ?_
  obtain ⟨⟨⟨hholds, frames, hframes⟩, hPw⟩, hready⟩ := hPw
  have hdue : StreamFault.due? (w.hub.link p.link).writeFault = none := by
    rw [hw.works.fault]
    rfl
  rw [Hub.linkOf, hw.works.link] at hready
  obtain ⟨count, hpos, hfits, hok, hout⟩ :=
    Link.write_of_not_due message hdue hready hsent hframes
  have hfault : ((w.hub.link p.link).write message size sent).2.writeFault = none := by
    simp only [Link.write, hw.works.fault]
    rfl
  have hheard : p.heard w.hub = Outgoing.heard p.uri frames := by
    rw [Site.heard, hframes, Outgoing.heard_append_begun hsent]
  simp only [Hub.fromLink, hw.works.link]
  generalize (w.hub.link p.link).write message size sent = written at hok hout hfault ⊢
  obtain ⟨r, l⟩ := written
  dsimp only at hok hout hfault ⊢
  -- The server hears of a message with its last byte and not before.
  by_cases hend : size ≤ sent + count
  · have hwhole : sent + count = size := Nat.le_antisymm hfits hend
    have hhears : Hears p message w l := by
      rw [Hears, hout, Outgoing.heard_append, hwhole, Outgoing.heard_whole, hheard]
    obtain ⟨hacts, hQ⟩ := hlast t w l hw hfault hholds hPw hhears
    refine ⟨hacts, count, hok, hpos, ?_⟩
    rw [if_pos hend]
    exact ⟨holds_move hacts.lock hholds, hQ⟩
  · have hpart : sent + count < size := Nat.lt_of_not_le hend
    have hsame : Outgoing.heard p.uri l.outgoing = p.heard w.hub := by
      rw [hout, Outgoing.heard_append, Outgoing.heard_begun p.uri message hpart, List.append_nil,
        hheard]
    have hacts := acts_put hw hfault hholds (.inl hsame)
    refine ⟨hacts, count, hok, hpos, ?_⟩
    rw [if_neg hend]
    refine ⟨⟨holds_move hacts.lock hholds, frames, ?_⟩,
      hP _ _ (hacts.inv hw) (binds_put hw hsame) hPw⟩
    change ((p.put l w.hub).link p.link).outgoing = _
    rw [Site.link_put hw.works.linked, hout, Link.begun, if_neg (by omega)]

/-- Every round writes something, so that as much fuel as there are bytes is enough. -/
theorem reaches_transfer : ∀ fuel sent, sent < size → size ≤ sent + fuel →
    Reaches p me (fun w => Writing p me t message size sent w ∧ P w)
      (transfer p.client message size fuel sent)
      fun _ w => w.Holds me (.writer p.client) t ∧ Q w
  | 0, sent, hsent, hfuel => absurd hfuel (Nat.not_le_of_lt hsent)
  | fuel + 1, sent, hsent, hfuel => by
    rw [transfer_succ]
    -- Others run while the task waits for room, but the turn to write is the task's all along.
    refine .bind (reaches_waitUntil (enduring_writing.and hP.enduring)) fun _ => ?_
    refine .bind (reaches_round hP hlast hsent) fun r m hm hPm => ?_
    obtain ⟨count, rfl, hpos, hgoes⟩ := hPm
    rw [carryOn]
    split
    · rename_i hend
      rw [if_pos hend] at hgoes
      exact ⟨hm, hgoes⟩
    · rename_i hend
      rw [if_neg hend] at hgoes
      exact reaches_transfer fuel (sent + count) (Nat.lt_of_not_le hend) (by omega) m hm hgoes

theorem reaches_write (hQ : Lasting p me LockName.IsSend Q) :
    Reaches p me P (write p.client message) fun _ => Q := by
  refine .withLock (fun hsend => hsend) hP (fun _ => hQ) fun t => ?_
  refine (reaches_transfer hP hlast _ 0 message.frame_pos (by omega)).weaken
    (fun w h => ⟨⟨h.1, (w.hub.link p.link).outgoing, ?_⟩, h.2⟩) fun _ _ h => h
  exact (List.append_nil _).symm

theorem reaches_notify {method : String} {params : Json}
    (hmessage : message = .ofNotification method params) (hQ : Lasting p me LockName.IsSend Q) :
    Reaches p me P (notify p.client method params) fun _ => Q := by
  refine reaches_gets hP.enduring fun h m hm hPm => ?_
  have hopen : (h.client p.client).isOpen = true := hPm.2 ▸ hm.inv.works.isOpen
  rw [if_pos hopen, ← hmessage]
  exact reaches_write hP hlast hQ m hm hPm.1

end Transfer

theorem Reaches.holding {P : World → Prop} {Q : α → World → Prop} {q : Program α}
    (hP : Enduring p me P) (hQ : ∀ b, Enduring p me (Q b)) (hq : Reaches p me P q Q) (c : Nat) :
    Reaches p me P (Client.holding c q) Q :=
  .bind (reaches_quiet hP fun _ => ⟨Hub.outline_onClient (fun _ => rfl) fun _ => rfl, rfl⟩)
    fun _ => hq.ensuring hQ fun _ =>
      ⟨Hub.outline_onClient (fun _ => rfl) fun _ => rfl, rfl⟩

/-- Other messages leave what is known of the document. -/
theorem reaches_notify_other {P : World → Prop} (hP : Lasting p me LockName.IsSend P)
    {method : String} {params : Json}
    (hother : (Message.ofNotification method params).isAbout p.uri = false) :
    Reaches p me P (notify p.client method params) fun _ => P := by
  refine reaches_notify hP (fun t w l hw hl hholds hPw hhears => ?_) rfl hP
  have hsame : Outgoing.heard p.uri l.outgoing = p.heard w.hub := by
    rw [hhears, hother]
    exact List.append_nil _
  have hacts := acts_put hw hl hholds (.inl hsame)
  exact ⟨hacts, hP _ _ (hacts.inv hw) (binds_put hw hsame) hPw⟩

/-! ## Telling -/

theorem ownsOnly_move {h : Hub} {tickets : Nat → Nat → Prop}
    (hlock : ∀ n, h.lock n = w.hub.lock n) (hw : w.OwnsOnly me tickets) :
    (w.move p me h).OwnsOnly me tickets := by
  intro k t hmem howner
  change t ∈ (h.lock (.send k)).tickets at hmem
  rw [hlock] at hmem
  rw [owner_move hlock] at howner
  exact hw k t hmem howner

theorem InTurn.move {G : List Message → List (List TextChange) → Prop} {h : Hub}
    (hw : InTurn p me k t F w) (hlock : ∀ n, h.lock n = w.hub.lock n)
    (hattached : p.attached h = p.attached w.hub)
    (hfact : G (p.heard h) (w.move p me h).taken) : InTurn p me k t G (w.move p me h) :=
  ⟨holds_move hlock hw.holds, hattached.trans hw.attached, ownsOnly_move hlock hw.only, hfact⟩

theorem reaches_tell {n : DocumentNotice} (huri : n.uri = p.uri)
    (hfact : ∀ heard taken, F heard taken → Tells p.uri taken (heard ++ [n.message])) :
    Reaches p me (InTurn p me k t F) (Session.tell p.session n)
      fun _ => InTurn p me k t (Even p) := by
  refine reaches_get lasting_inTurn.enduring fun h m hm hPm => ?_
  have hclient : (h.session p.session).client? = .ok p.client := hPm.2 ▸ hm.inv.works.client?
  rw [hclient]
  have htell : Reaches p me (InTurn p me k t F) (Client.tell p.client n)
      fun _ => InTurn p me k t (Even p) := by
    refine reaches_notify lasting_inTurn (fun tw w l hw hl hholds hturn hhears => ?_)
      (rfl : n.message = _) lasting_inTurn
    have htells : Tells p.uri w.taken (Outgoing.heard p.uri l.outgoing) := by
      rw [hhears, if_pos ((DocumentNotice.isAbout_message _ _).mpr huri)]
      exact hfact _ _ hturn.fact
    have hacts := acts_put hw hl hholds (.inr ⟨⟨k, t, hturn.attached, hturn.holds⟩, htells⟩)
    refine ⟨hacts, hturn.move hacts.lock hacts.attached ?_⟩
    rwa [Even, taken_put, hw.works.heard_put]
  refine ((htell.holding lasting_inTurn.enduring
    (fun _ => lasting_inTurn.enduring) p.client).bind fun r => ?_) m hm hPm.1
  cases r <;> exact .pure _ fun _ h => h

end Parley

end LanguageHub
