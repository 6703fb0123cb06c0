import LanguageHub.Proofs.Hub.Frames

/-!
# Writing messages

A message is written as the stream accepts it. The stream is the writer's until the last
byte of the frame, so that the frame arrives whole, or the link has failed and nothing more
of it arrives.
-/

namespace LanguageHub

open Routine Pact HubMoment

/-! ## Frames -/

theorem Frame.header_pos (n : Nat) : 0 < (bytesOf (header n)).length := by
  have hlabel : 0 < (bytesOf "Content-Length: ".toList).length :=
    List.length_pos_iff.mpr (by simp [bytesOf, String.utf8EncodeChar_ne_nil])
  unfold header
  rw [bytesOf, List.append_assoc, List.flatMap_append, List.length_append]
  exact Nat.add_pos_left hlabel _

theorem Message.frame_pos (m : Message) : 0 < m.frame.length := by
  rw [frame, Frame.around, List.length_append]
  exact Nat.add_pos_left (Frame.header_pos _) _

namespace Link

theorem grow_append_singleton (count : Nat) (frames : List Outgoing) (o : Outgoing) :
    grow count (frames ++ [o]) = frames ++ [{ o with accepted := o.accepted + count }] := by
  induction frames with
  | nil => rfl
  | cons p rest ih =>
    cases rest with
    | nil => rfl
    | cons q rest => simpa [grow] using ih

/-- The frame that follows the others while so much of it was accepted. -/
def begun (m : Message) (size sent : Nat) : List Outgoing :=
  if sent = 0 then [] else [⟨m, size, sent⟩]

/-- A link that is not full and has not failed accepts something of a frame that is not whole. -/
theorem write_of_not_due {l : Link} (m : Message) {size sent : Nat} {frames : List Outgoing}
    (hdue : StreamFault.due? l.writeFault = none) (hready : l.isWritable = true)
    (hsent : sent < size) (hframes : l.outgoing = frames ++ begun m size sent) :
    ∃ count, 0 < count ∧ sent + count ≤ size ∧ (l.write m size sent).1 = .ok count ∧
      (l.write m size sent).2.outgoing = frames ++ [⟨m, size, sent + count⟩] := by
  refine ⟨l.acceptable (size - sent), ?_, ?_, ?_, ?_⟩
  · cases hroom : l.room with
    | none =>
      simp only [acceptable, hroom]
      omega
    | some room =>
      have hne : room ≠ 0 := by
        rintro rfl
        simp [isWritable, hdue, hroom] at hready
      simp only [acceptable, hroom]
      omega
  · cases hroom : l.room with
    | none =>
      simp only [acceptable, hroom]
      omega
    | some room =>
      simp only [acceptable, hroom]
      omega
  · simp only [write, hdue]
  · simp only [write, hdue, hframes, begun]
    split
    · rename_i hzero
      simp [hzero]
    · exact grow_append_singleton ..

theorem write_of_due {l : Link} (m : Message) (size sent : Nat) {reason : String}
    (hdue : StreamFault.due? l.writeFault = some reason) :
    l.write m size sent = (.error (.transport reason), l) := by
  simp only [write, hdue]

end Link

/-! ## At moments -/

variable {s : Nat} {u : String} {a : Actor} {c t size sent fuel : Nat} {message : Message}
  {m m₀ : HubMoment s u a} {drop : World → Hub → Prop}

/-- What is written shows in the frames of the client's link. -/
theorem HubMoment.scene_write (hm : m.Sound) (hc : c < m.scene.clients)
    (hdue : m.scene.isDue (m.scene.linkOf c) = false) (l : Link) :
    scene (m.set (m.state.onLink (m.scene.linkOf c) fun _ => l)) =
      m.scene.put (m.scene.linkOf c) l.outgoing (StreamFault.due? l.writeFault).isSome := by
  have hi : m.scene.linkOf c < m.state.links.length := (Scene.Inv.wired hm.inv).links c hc
  have hisDue : (fun j => if j = m.scene.linkOf c then (StreamFault.due? l.writeFault).isSome
      else m.scene.isDue j) = (m.scene.put (m.scene.linkOf c) l.outgoing
        (StreamFault.due? l.writeFault).isSome).isDue := by
    funext j
    by_cases hj : j = m.scene.linkOf c
    · simp [Scene.put, hj, hdue]
    · simp [Scene.put, hj]
  rw [scene_set_of_next (h := m.state.onLink (m.scene.linkOf c) fun _ => l) (fun _ => rfl)
    (voiced_of_sound hm), Hub.outline_replaceLink hi]
  exact congrArg (fun isDue => { m.scene with
    frames := fun j => if j = m.scene.linkOf c then l.outgoing else m.scene.frames j
    isDue := isDue }) hisDue

/-- Nothing is heard of a message before its last byte. -/
theorem Outgoing.heard_append_begun {frames : List Outgoing} (hsent : sent < size) :
    heard u (frames ++ Link.begun message size sent) = heard u frames := by
  rw [heard_append, Link.begun]
  split
  · exact List.append_nil _
  · rw [heard_begun u message hsent, List.append_nil]

theorem heard_of_begun {x : Scene} {i : Nat} {frames : List Outgoing} (hsent : sent < size)
    (hframes : x.frames i = frames ++ Link.begun message size sent) :
    x.heard u i = Outgoing.heard u frames := by
  rw [Scene.heard, hframes, Outgoing.heard_append_begun hsent]

/-- What is written of a message that is not whole, or not about the document, changes
nothing that anybody relies on. -/
theorem HubMoment.sound_put {frames : List Outgoing} {due : Bool} {h : Hub} (hm : m.Sound)
    (hlater : Later m₀ m) (hnew : (m₀.scene.lock (.writer c)).next ≤ t)
    (hholds : m.scene.Holds a (.writer c) t) (hc : c < m.scene.clients)
    (hsame : Outgoing.heard u frames = m.scene.heard u (m.scene.linkOf c))
    (hscene : scene (m.set h) = m.scene.put (m.scene.linkOf c) frames due) :
    (m.set h).Sound ∧ Later m₀ (m.set h) := by
  refine ⟨sound_set hm ?_ ?_, ?_, hlater.origin⟩
  · rw [hscene]
    exact Scene.Inv.put hm.inv hc (.inl hsame) (a := a)
  · rw [hscene]
    exact Scene.guarantee_put hm.inv hc hholds (.inl hsame)
  · rw [hscene]
    exact hlater.rely.put hm.inv hc hholds hnew hsame

/-- One round of a writer: the link has failed, or more of the frame is there. -/
theorem HubMoment.write_cases {frames : List Outgoing} (hm : m.Sound) (hc : c < m.scene.clients)
    (hready : (m.state.linkOf c).isWritable = true) (hsent : sent < size)
    (hframes : m.scene.frames (m.scene.linkOf c) = frames ++ Link.begun message size sent) :
    (∃ e, (m.state.fromLink (m.scene.linkOf c) (·.write message size sent)).1 = .error e ∧
        (m.state.fromLink (m.scene.linkOf c) (·.write message size sent)).2.outline s =
          m.state.outline s ∧
        m.scene.isDue (m.scene.linkOf c) = true) ∨
      ∃ count due,
        (m.state.fromLink (m.scene.linkOf c) (·.write message size sent)).1 = .ok count ∧
        0 < count ∧ sent + count ≤ size ∧ m.scene.isDue (m.scene.linkOf c) = false ∧
        scene (m.set (m.state.fromLink (m.scene.linkOf c) (·.write message size sent)).2) =
          m.scene.put (m.scene.linkOf c) (frames ++ [⟨message, size, sent + count⟩]) due := by
  cases hdue : StreamFault.due? (m.state.link (m.scene.linkOf c)).writeFault with
  | some reason =>
    have hwrite := Link.write_of_due message size sent hdue
    refine .inl ⟨.transport reason, congrArg Prod.fst hwrite, Hub.outline_fromLink ?_ ?_, ?_⟩
    · exact congrArg (fun r => r.2.outgoing) hwrite
    · exact congrArg (fun r => r.2.writeFault) hwrite
    · exact congrArg Option.isSome hdue
  | none =>
    obtain ⟨count, hpos, hle, hcount, hout⟩ :=
      Link.write_of_not_due message hdue hready hsent hframes
    have hisDue : m.scene.isDue (m.scene.linkOf c) = false := congrArg Option.isSome hdue
    have hscene := scene_write hm hc hisDue
      ((m.state.link (m.scene.linkOf c)).write message size sent).2
    rw [hout] at hscene
    exact .inr ⟨count, _, hcount, hpos, hle, hisDue, hscene⟩

namespace Client

/-- A message that was begun is written to its end, or the link fails. -/
theorem keeps_transfer (frames : List Outgoing)
    {goal : HubMoment s u a → Except HubError Unit → Prop}
    (hm : m.Sound) (hlater : Later m₀ m) (hnew : (m₀.scene.lock (.writer c)).next ≤ t)
    (hholds : m.scene.Holds a (.writer c) t) (hc : c < m.scene.clients)
    (hsent : sent < size) (hfuel : size ≤ sent + fuel)
    (hframes : m.scene.frames (m.scene.linkOf c) = frames ++ Link.begun message size sent)
    (hdrop : ∀ w, (w.scene s).Inv u → Later m₀ (Moment.resume w) →
      (w.scene s).Holds a (.writer c) t → drop w w.hub)
    (hfail : ∀ m' e, m'.Sound → Later m₀ m' → m'.scene.Holds a (.writer c) t →
      m'.scene.isDue (m'.scene.linkOf c) = true → goal m' (.error e))
    (hdone : ∀ (m' : HubMoment s u a) h due, m'.Sound → Later m₀ m' →
      m'.scene.Holds a (.writer c) t → m'.scene.isDue (m'.scene.linkOf c) = false →
      Outgoing.heard u frames = m'.scene.heard u (m'.scene.linkOf c) →
      scene (m'.set h) =
        m'.scene.put (m'.scene.linkOf c) (frames ++ [⟨message, size, size⟩]) due →
      goal (m'.set h) (.ok ())) :
    (transfer c message size fuel sent).Keeps drop m goal := by
  induction fuel generalizing sent m with
  | zero => omega
  | succ fuel ih =>
    rw [transfer_succ]
    refine keeps_await hm (fun w hinv hrely => ?_) fun m' hm' hrely horigin hready _ => ?_
    · exact hdrop w hinv (hlater.trans (later_resume hrely)) (hrely.holds hholds)
    have hlater' : Later m₀ m' := hlater.trans (later_of_origin hrely horigin)
    have hholds' : m'.scene.Holds a (.writer c) t := hrely.holds hholds
    have hc' : c < m'.scene.clients := Nat.lt_of_lt_of_le hc hrely.always.clients
    -- Nobody else writes to the link.
    have hframes' : m'.scene.frames (m'.scene.linkOf c) =
        frames ++ Link.begun message size sent := by
      rw [hrely.always.linkOf c hc, hrely.protected hholds hc, hframes]
    change Keeps drop (carryOn c message size fuel sent
      (m'.state.fromLink (m'.scene.linkOf c) (·.write message size sent)).1)
      (m'.set (m'.state.fromLink (m'.scene.linkOf c) (·.write message size sent)).2) goal
    rcases write_cases hm' hc' hready hsent hframes' with
      ⟨e, herror, hsame, hdue⟩ | ⟨count, due, hcount, hpos, hle, hdue, hscene⟩
    · obtain ⟨hsound, hafter⟩ := sound_silent hm' hsame
      rw [herror]
      refine hfail _ e hsound (hlater'.trans hafter) (hafter.rely.holds hholds') ?_
      rw [scene_set_of_outline hsame (voiced_of_sound hm')]
      exact hdue
    · rw [hcount, carryOn]
      split
      · rename_i hwhole
        have hsize : sent + count = size := by omega
        rw [hsize] at hscene
        exact hdone _ _ due hm' hlater' hholds' hdue (heard_of_begun hsent hframes').symm hscene
      · rename_i hmore
        have hless : sent + count < size := by omega
        have hsame : Outgoing.heard u (frames ++ [⟨message, size, sent + count⟩]) =
            m'.scene.heard u (m'.scene.linkOf c) := by
          rw [heard_of_begun hsent hframes', Outgoing.heard_append,
            Outgoing.heard_begun u message hless, List.append_nil]
        obtain ⟨hsound, hafter⟩ := sound_put hm' hlater' hnew hholds' hc' hsame hscene
        refine ih hsound hafter ?_ ?_ hless (by omega) ?_
        · rw [hscene]
          exact ⟨hholds'.holder, hholds'.issued, hholds'.owner⟩
        · rw [hscene]
          exact hc'
        · rw [hscene, Link.begun, if_neg (by omega)]
          exact if_pos rfl

/-- The step in which the last bytes of a message are accepted and the stream is given back. -/
structure Said (message : Message) (c t : Nat) (m m' : HubMoment s u a) : Prop where
  start : m'.start = m.start
  jobs : m'.jobs = m.jobs
  holds : m.scene.Holds a (.writer c) t
  working : m.scene.isDue (m.scene.linkOf c) = false
  scene : ∃ frames due, Outgoing.heard u frames = m.scene.heard u (m.scene.linkOf c) ++
      (if message.isAbout u then [message] else []) ∧
    m'.scene = (m.scene.put (m.scene.linkOf c) frames due).leave (.writer c) t

variable {m' : HubMoment s u a}

/-- Whoever may speak leaves everything in order. -/
theorem Said.sound (h : Said message c t m m') (hm : m.Sound) (hc : c < m.scene.clients)
    (hmay : message.isAbout u = true → (∃ k t, m.scene.MaySpeak u a k t) ∧ m.scene.spoken c ∧
      ∃ version copy, DocumentNotice.Conversation (m.scene.heard u (m.scene.linkOf c) ++ [message])
        version copy) : m'.Sound := by
  obtain ⟨frames, due, hheard, hscene⟩ := h.scene
  have hput : Scene.MayPut u a m.scene c frames := by
    cases habout : message.isAbout u with
    | false => exact .inl (by simpa [habout] using hheard)
    | true =>
      obtain ⟨hspeak, hspoken, hconforms⟩ := hmay habout
      refine .inr ⟨hspeak, hspoken, ?_⟩
      simpa [hheard, habout] using hconforms
  have hinv : (m.scene.put (m.scene.linkOf c) frames due).Inv u := Scene.Inv.put hm.inv hc hput
  refine sound_of_guarantee hm h.start h.jobs ?_ ?_
  · rw [hscene]
    exact hinv.leave (fun _ => trivial) fun i hi hnone hquiet =>
      hinv.closed i hi hnone (Scene.quiet_of_quiet_leave (by simp) hquiet)
  · rw [hscene]
    exact (Scene.guarantee_put hm.inv hc h.holds hput).trans
      (Scene.guarantee_leave h.holds.owner (fun _ => trivial) (by simp))

theorem Said.later (h : Said message c t m m') (hm : m.Sound) (hc : c < m.scene.clients)
    (hlater : Later m₀ m) (hnew : (m₀.scene.lock (.writer c)).next ≤ t)
    (habout : message.isAbout u = false) : Later m₀ m' := by
  obtain ⟨frames, due, hheard, hscene⟩ := h.scene
  have hsame : Outgoing.heard u frames = m.scene.heard u (m.scene.linkOf c) := by
    simpa [habout] using hheard
  refine ⟨?_, ?_⟩
  · rw [hscene]
    exact (hlater.rely.put hm.inv hc h.holds hnew hsame).leave hnew (fun _ => trivial) (by simp)
  · have horigin : m'.origin = m.origin := congrArg (World.scene s) h.start
    rw [h.start, horigin]
    exact hlater.origin

/-- A message is said, or the link has failed. -/
theorem keeps_write {goal : HubMoment s u a → Except HubError Unit → Prop}
    (hm : m.Sound) (hc : c < m.scene.clients)
    (hdrop : ∀ w h, (Moment.set (Moment.resume w : HubMoment s u a) h).Sound →
      Later m (Moment.set (Moment.resume w) h) → drop w h)
    (hfail : ∀ m' e, m'.Sound → Later m m' → m'.scene.isDue (m'.scene.linkOf c) = true →
      goal m' (.error e))
    (hsaid : ∀ m₁ m' t, m₁.Sound → Later m m₁ → (m.scene.lock (.writer c)).next ≤ t →
      Said message c t m₁ m' → goal m' (.ok ())) :
    (write c message).Keeps drop m goal := by
  have henter : m.scene.Rely u a (m.scene.enter (.writer c) a.id) :=
    Scene.rely_enter trivial (by simp)
  have hleave : ∀ m' : HubMoment s u a, m'.Sound → Later m m' →
      m'.scene.Holds a (.writer c) (m.scene.lock (.writer c)).next →
      (m'.set (Hub.leaveLock (.writer c) (m.scene.lock (.writer c)).next m'.state)).Sound ∧
        Later m (m'.set (Hub.leaveLock (.writer c) (m.scene.lock (.writer c)).next m'.state)) :=
    fun m' hm' hlater hholds =>
      sound_leave_later hm' hlater (Nat.le_refl _) hholds.owner (fun _ => trivial) (by simp)
  refine keeps_withLock hm trivial (fun w hinv hrely => ?_)
    fun m₁ hm₁ hrely horigin hholds _ => ?_
  · obtain ⟨hsound, hlater⟩ := sound_leave_later (sound_resume hinv)
      (later_resume (henter.trans hrely)) (Nat.le_refl _) (Scene.owner_of_entered hrely)
      (fun _ => trivial) (by simp)
    exact hdrop w _ hsound hlater
  · have hlater : Later m m₁ := later_of_origin (henter.trans hrely) horigin
    refine keeps_transfer (m₁.scene.frames (m₁.scene.linkOf c)) hm₁ hlater
      (Nat.le_refl _) hholds (Nat.lt_of_lt_of_le hc hlater.rely.always.clients)
      message.frame_pos (Nat.le_of_eq (Nat.zero_add _).symm) (List.append_nil _).symm ?_ ?_ ?_
    · intro w hinv hlater' hholds'
      obtain ⟨hsound, hlater''⟩ := hleave _ (sound_resume hinv) hlater' hholds'
      exact hdrop w _ hsound hlater''
    · intro m' e hm' hlater' hholds' hdue
      obtain ⟨hsound, hlater''⟩ := hleave m' hm' hlater' hholds'
      refine hfail _ e hsound hlater'' ?_
      rw [scene_leave _ _ (voiced_of_sound hm')]
      exact hdue
    · intro m' h due hm' hlater' hholds' hdue hheard hscene
      refine hsaid m' _ _ hm' hlater' (Nat.le_refl _)
        ⟨rfl, rfl, hholds', hdue, m₁.scene.frames (m₁.scene.linkOf c) ++
          [⟨message, message.frame.length, message.frame.length⟩], due, ?_, ?_⟩
      · rw [Outgoing.heard_append, hheard, Outgoing.heard_whole]
      · rw [scene_leave _ _ (voiced_set m' h), hscene]

/-- What is not about the document may be said by anyone. -/
theorem neutral_write {P : Scene → Prop} (habout : message.isAbout u = false)
    (hP : ∀ x, P x → c < x.clients) : Neutral s u a P (write c message) := by
  intro m hm hPm drop goal hdrop hgoal
  refine keeps_write hm (hP _ hPm) hdrop (fun m' e hm' hlater _ => hgoal m' _ hm' hlater) ?_
  intro m₁ m' t hm₁ hlater hnew hsaid
  have hc : c < m₁.scene.clients := Nat.lt_of_lt_of_le (hP _ hPm) hlater.rely.always.clients
  exact hgoal m' _ (hsaid.sound hm₁ hc (by simp [habout]))
    (hsaid.later hm₁ hc hlater hnew habout)

end Client

end LanguageHub
