import LanguageHub.Proofs.Client.Stream
import Mathlib.Algebra.Group.Nat.Defs

/-!
# What calls write

Of a call the server sees its request and, when it was cancelled, one notice of that. Every frame on
the link is about one of the calls at most, and what stands there with the id of a call shows how
far the call is.

Laws: nothing on the link is about a request that no call has, and a call changes its own letters
only.
-/

namespace LanguageHub

open Routine Client

/-! ## Messages about requests -/

namespace Message

/-- The request that a message is. -/
def asked? : Message → Option RequestId
  | .request r => some r.id
  | _ => none

def isRecall : Message → Bool
  | .notification n => n.method = "$/cancelRequest"
  | _ => false

/-- The request that a message cancels, as the server reads it. -/
def recalled? : Message → Option RequestId
  | .notification n =>
    if n.method = "$/cancelRequest" then (n.params.get? "id").bind RequestId.ofJson? else none
  | _ => none

def concerns (id : RequestId) (m : Message) : Bool :=
  m.asked? = some id || m.recalled? = some id

/-- The message is about no request but this one. -/
structure BelongsTo (id? : Option RequestId) (m : Message) : Prop where
  concerns : ∀ id, m.concerns id = true → id? = some id
  recalling : m.isRecall = true → ∃ id, id? = some id ∧ m.recalled? = some id

end Message

namespace Switchboard

theorem toCancelJson_number {n : Nat} (hn : n < 2 ^ 31) :
    (RequestId.number n).toCancelJson = (RequestId.number n).toJson := by
  have hlow : Int32.minValue.toInt = -2147483648 := by decide
  have hhigh : Int32.maxValue.toInt = 2147483647 := by decide
  have hin : Int32.minValue.toInt ≤ (n : Int) ∧ (n : Int) ≤ Int32.maxValue.toInt := by omega
  simp only [RequestId.toCancelJson, if_pos hin, RequestId.toJson]

theorem ofJson?_number {n : Nat} (hn : n < 2 ^ 31) :
    RequestId.ofJson? (RequestId.number n).toJson = some (.number n) := by
  have hlow : Int64.minValue.toInt = -9223372036854775808 := by decide
  have hhigh : Int64.maxValue.toInt = 9223372036854775807 := by decide
  have hin : Int64.minValue.toInt ≤ (n : Int) ∧ (n : Int) ≤ Int64.maxValue.toInt := by omega
  simp only [RequestId.ofJson?, RequestId.schema, RequestId.toJson, Schema.read?,
    Schema.readFirst?, Schema.int64, if_pos hin]
  rfl

theorem recalled?_recallOf {n : Nat} (hn : n < 2 ^ 31) :
    (recallOf (.number n)).recalled? = some (.number n) := by
  have hget : (Json.mkObj [("id", (RequestId.number n).toJson)]).get? "id" =
      some (RequestId.number n).toJson := rfl
  simp only [recallOf, Message.ofNotification, Message.recalled?, if_true,
    toCancelJson_number hn, hget, Option.bind_some, ofJson?_number hn]

theorem concerns_requestOf (q : Question) (id id' : RequestId) :
    (requestOf q id).concerns id' = decide (id = id') := by
  simp [requestOf, Message.concerns, Message.asked?, Message.recalled?]

theorem concerns_recallOf {n : Nat} (hn : n < 2 ^ 31) (id' : RequestId) :
    (recallOf (.number n)).concerns id' = decide (RequestId.number n = id') := by
  simp only [Message.concerns, recalled?_recallOf hn, Option.some.injEq]
  simp [recallOf, Message.ofNotification, Message.asked?]

theorem belongsTo_requestOf (q : Question) (id : RequestId) :
    (requestOf q id).BelongsTo (some id) where
  concerns id' h := by simpa [concerns_requestOf] using h
  recalling h := by simp [requestOf, Message.isRecall] at h

theorem belongsTo_recallOf {n : Nat} (hn : n < 2 ^ 31) :
    (recallOf (.number n)).BelongsTo (some (.number n)) where
  concerns id' h := by simpa [concerns_recallOf hn] using h
  recalling _ := ⟨_, rfl, recalled?_recallOf hn⟩

theorem belongsTo_response (r : Response) (id? : Option RequestId) :
    (Message.response r).BelongsTo id? where
  concerns id' h := by simp [Message.concerns, Message.asked?, Message.recalled?] at h
  recalling h := by simp [Message.isRecall] at h

theorem belongsTo_notice {method : String} (hmethod : method ≠ "$/cancelRequest") (params : Json)
    (id? : Option RequestId) : (Message.ofNotification method params).BelongsTo id? where
  concerns id' h := by
    simp [Message.ofNotification, Message.concerns, Message.asked?, Message.recalled?, hmethod] at h
  recalling h := by simp [Message.ofNotification, Message.isRecall, hmethod] at h

/-! ## Owners -/

open Link (begun)

/-- Everything that is written and was written is about the call whose it is. -/
structure Owned (f : Front) (ps : List Place) : Prop where
  belongs : ∀ p ∈ ps, ∀ w, p.standing.writing? = some w → w.message.BelongsTo p.id?
  frames : ∀ o ∈ f.frames, ∃ id?, o.message.BelongsTo id? ∧
    ∀ id, id? = some id → ∃ p ∈ ps, p.id? = some id

theorem message_of_begun {m : Message} {size sent : Nat} {o : Outgoing}
    (ho : o ∈ begun m size sent) : o.message = m := by
  unfold begun at ho
  split at ho
  · cases ho
  · rw [List.mem_singleton.mp ho]

theorem message_of_writes {f f' : Front} {w w' : Writing} (h : Writes w f f' (.inl w')) :
    w'.message = w.message := by
  cases h <;> rfl

/-- What a task writes after its turn it wrote before, or it is about the request of the task. -/
theorem belongs_of_progress {f f' : Front} {st st' : Standing} {id? : Option RequestId}
    (h : Progress f st f' st') (hid : ∀ id, st.id? = some id →
      id? = some id ∧ ∃ n : Nat, n < 2 ^ 31 ∧ id = .number n)
    (hbelongs : ∀ w, st.writing? = some w → w.message.BelongsTo id?) {w' : Writing}
    (hw' : st'.writing? = some w') : w'.message.BelongsTo id? := by
  -- The reader begins messages of its own: answers, which belong to no call.
  have hhears : ∀ {f₁ f₂ st}, Hears f₁ f₂ st → st.writing? = some w' →
      w'.message.BelongsTo id? := by
    intro f₁ f₂ st hhears hst
    cases hhears with
    | answers r bodies stop =>
      obtain rfl := Option.some.inj hst
      exact belongsTo_response r _
    | _ => cases hst
  cases h with
  | @enrols serverId q id mark tracked hopen hmark =>
    obtain rfl := Option.some.inj hw'
    obtain ⟨rfl, -⟩ := hid id rfl
    exact belongsTo_requestOf q id
  | writes hwrites =>
    obtain rfl := Option.some.inj hw'
    rw [message_of_writes hwrites]
    exact hbelongs _ rfl
  | written hwrites hnext =>
    cases hnext with
    | answered bodies stop written hnext => exact hhears hnext hw'
    | _ => cases hw'
  | @recalls q id mark deadline hwithdrawn hopen =>
    obtain rfl := Option.some.inj hw'
    obtain ⟨rfl, n, hn, rfl⟩ := hid id rfl
    exact belongsTo_recallOf hn
  | reads hnext => exact hhears hnext hw'
  | hands hnext => exact hhears hnext hw'
  | _ => cases hw'

namespace Owned

variable {f f' : Front} {ps ps' rest : List Place} {p : Place} {st' : Standing}

theorem perm (hperm : ps.Perm ps') (h : Owned f ps) : Owned f ps' where
  belongs p hp := h.belongs p (hperm.mem_iff.mpr hp)
  frames o ho := by
    obtain ⟨id?, hbelongs, howned⟩ := h.frames o ho
    refine ⟨id?, hbelongs, fun id hid => ?_⟩
    obtain ⟨p, hp, hown⟩ := howned id hid
    exact ⟨p, hperm.mem_iff.mp hp, hown⟩

theorem frames_cons (h : Owned f (p :: rest)) {o : Outgoing} (ho : o ∈ f.frames) :
    ∃ id?, o.message.BelongsTo id? ∧
      ∀ id, id? = some id → ∃ q ∈ { p with standing := st' } :: rest, q.id? = some id := by
  obtain ⟨id?, hbelongs, howned⟩ := h.frames o ho
  refine ⟨id?, hbelongs, fun id hid => ?_⟩
  obtain ⟨q, hq, hown⟩ := howned id hid
  rcases List.mem_cons.mp hq with rfl | hq
  · exact ⟨_, List.mem_cons_self, hown⟩
  · exact ⟨q, List.mem_cons_of_mem _ hq, hown⟩

theorem go (h : Owned f (p :: rest)) (hstream : Stream f (p :: rest))
    (hid : ∀ id, p.standing.id? = some id →
      p.id? = some id ∧ ∃ n : Nat, n < 2 ^ 31 ∧ id = .number n)
    (hgo : Progress f p.standing f' st') : Owned f' ({ p with standing := st' } :: rest) where
  belongs q hq w hw := by
    rcases List.mem_cons.mp hq with rfl | hq
    · exact belongs_of_progress hgo hid (h.belongs p List.mem_cons_self) hw
    · exact h.belongs q (List.mem_cons_of_mem _ hq) w hw
  frames o ho := by
    rcases hstream.frames_of_progress hgo with hsame | ⟨w, F, sent, hw, hbefore, hafter⟩
    · rw [hsame] at ho
      exact h.frames_cons ho
    · rw [hafter] at ho
      rcases List.mem_append.mp ho with hold | hnew
      · exact h.frames_cons (by rw [hbefore]; exact List.mem_append_left _ hold)
      · rw [message_of_begun hnew]
        exact ⟨p.id?, h.belongs p List.mem_cons_self w hw, fun id hown =>
          ⟨_, List.mem_cons_self, hown⟩⟩

theorem begin {e : Errand} (h : Owned f ps) (hproper : e.IsProper) (hbegins : Begins f e f' st') :
    Owned f' (⟨e, st'.id?, st'⟩ :: ps) where
  belongs q hq w hw := by
    rcases List.mem_cons.mp hq with rfl | hq
    · cases hbegins with
      | tells method params hopen =>
        obtain rfl := Option.some.inj hw
        exact belongsTo_notice hproper params _
      | _ => cases hw
    · exact h.belongs q hq w hw
  frames o ho := by
    have hframes : f'.frames = f.frames := by cases hbegins <;> rfl
    rw [hframes] at ho
    obtain ⟨id?, hbelongs, howned⟩ := h.frames o ho
    refine ⟨id?, hbelongs, fun id hid => ?_⟩
    obtain ⟨q, hq, hown⟩ := howned id hid
    exact ⟨q, List.mem_cons_of_mem _ hq, hown⟩

theorem elsewhere (h : Owned f ps) (helse : Elsewhere f f') : Owned f' ps where
  belongs := h.belongs
  frames := by
    rw [helse.frames]
    exact h.frames

end Owned

/-! ## Letters of one call -/

def letters (id : RequestId) (frames : List Outgoing) : List Outgoing :=
  frames.filter (·.message.concerns id)

/-- A frame that was accepted to its end. -/
def whole (m : Message) : Outgoing := ⟨m, m.frame.length, m.frame.length⟩

theorem letters_append (id : RequestId) (frames frames' : List Outgoing) :
    letters id (frames ++ frames') = letters id frames ++ letters id frames' :=
  List.filter_append ..

theorem letters_begun {m : Message} {id : RequestId} (hm : m.concerns id = true) (size sent : Nat) :
    letters id (begun m size sent) = begun m size sent := by
  unfold letters begun
  split
  · rfl
  · rw [List.filter_singleton, hm]
    rfl

theorem letters_begun_of_other {m : Message} {id : RequestId} (hm : m.concerns id = false)
    (size sent : Nat) : letters id (begun m size sent) = [] := by
  unfold letters begun
  split
  · rfl
  · rw [List.filter_singleton, hm]
    rfl

theorem begun_zero (m : Message) (size : Nat) : begun m size 0 = [] := if_pos rfl

theorem begun_whole (m : Message) : begun m m.frame.length m.frame.length = [whole m] :=
  if_neg (Nat.ne_of_gt m.frame_pos)

/-- What stands there of a call that was cancelled: everything, unless nothing can be written. -/
def Withdrawn (f : Front) (q : Question) (id : RequestId) (said : List Outgoing) : Prop :=
  said = [whole (requestOf q id), whole (recallOf id)] ∨
    (f.isOpen = false ∨ f.isDue = true) ∧
      ∃ sent, said = whole (requestOf q id) :: begun (recallOf id) (recallOf id).frame.length sent

/-- What stands there of a call in its place. -/
inductive Told (f : Front) (q : Question) (id : RequestId) (said : List Outgoing) : Standing → Prop
  | fresh (serverId : String) (hsaid : said = []) : Told f q id said (.fresh serverId q id)
  | asking (mark : Option (Nat × Nat)) (w : Writing) (hmessage : w.message = requestOf q id)
      (hsaid : said = begun w.message w.size w.sent) :
      Told f q id said (.writing (.request q id mark) w)
  | listening (mark : Option (Nat × Nat)) (deadline : Duration)
      (hsaid : said = [whole (requestOf q id)]) : Told f q id said (.listening q id mark deadline)
  | recalling (mark : Option (Nat × Nat)) (w : Writing) (hmessage : w.message = recallOf id)
      (hsaid : said = whole (requestOf q id) :: begun w.message w.size w.sent) :
      Told f q id said (.writing (.recalling id mark) w)
  | withdrawn (hsaid : Withdrawn f q id said) :
      Told f q id said (.ended (.asked (.error .cancelled)))
  | ended (r : Except HubError Json) (hr : r ≠ .error .cancelled)
      (hsaid : ∃ sent, said = begun (requestOf q id) (requestOf q id).frame.length sent) :
      Told f q id said (.ended (.asked r))

section Turns

variable {f f' : Front} {p : Place} {rest : List Place} {st st' : Standing} {q : Question}
  {id : RequestId} {said : List Outgoing} {w : Writing} {next : Writing ⊕ Except HubError Unit}

theorem Owned.letters_of_other (h : Owned f (p :: rest)) (hstream : Stream f (p :: rest))
    (hgo : Progress f p.standing f' st')
    (hother : p.id? ≠ some id) : letters id f'.frames = letters id f.frames := by
  rcases hstream.frames_of_progress hgo with hsame | ⟨w, F, sent, hw, hbefore, hafter⟩
  · rw [hsame]
  · have hconcerns : w.message.concerns id = false := by
      refine Bool.eq_false_iff.mpr fun hconcerns => hother ?_
      exact (h.belongs p List.mem_cons_self w hw).concerns id hconcerns
    rw [hbefore, hafter, letters_append, letters_append, letters_begun_of_other hconcerns,
      letters_begun_of_other hconcerns]

/-- A writer's message goes on where it stands, after what was there before it. -/
theorem letters_of_writes (h : Writes w f f' next) (hw : w.IsUnderway f)
    (hconcerns : w.message.concerns id = true) (before : List Outgoing)
    (hsaid : letters id f.frames = before ++ begun w.message w.size w.sent) :
    letters id f'.frames = before ++ begun w.message w.size (sentAfter w next) := by
  obtain ⟨F, hbefore, hafter⟩ := h.frames hw
  rw [hbefore, letters_append, letters_begun hconcerns] at hsaid
  rw [hafter, letters_append, letters_begun hconcerns, List.append_cancel_right hsaid]

theorem Told.of_same (h : Told f q id said st) (hopen : f.isOpen = false → f'.isOpen = false)
    (hdue : f.isDue = true → f'.isDue = true) : Told f' q id said st := by
  cases h with
  | fresh serverId hsaid => exact .fresh serverId hsaid
  | asking mark w hmessage hsaid => exact .asking mark w hmessage hsaid
  | listening mark deadline hsaid => exact .listening mark deadline hsaid
  | recalling mark w hmessage hsaid => exact .recalling mark w hmessage hsaid
  | withdrawn hsaid => exact .withdrawn (hsaid.imp_right (And.imp_left (Or.imp hopen hdue)))
  | ended r hr hsaid => exact .ended r hr hsaid

theorem told_of_progress {n : Nat} (hn : n < 2 ^ 31) (hunderway : ∀ w, st.writing? = some w →
      w.IsUnderway f)
    (h : Told f q (.number n) (letters (.number n) f.frames) st) (hgo : Progress f st f' st') :
    Told f' q (.number n) (letters (.number n) f'.frames) st' := by
  have hrequest : (requestOf q (.number n)).concerns (.number n) = true := by
    simp [concerns_requestOf]
  have hrecall : (recallOf (.number n)).concerns (.number n) = true := by
    simp [concerns_recallOf hn]
  cases h with
  | fresh serverId hsaid =>
    cases hgo with
    | refused _ _ _ hclosed => exact .ended _ (by simp) ⟨0, by rw [hsaid, begun_zero]⟩
    | enrols hopen hmark => exact .asking _ _ rfl (hsaid.trans (begun_zero _ _).symm)
  | asking mark w hmessage hsaid =>
    have hletters : ∀ {f₁ next}, Writes w f f₁ next → letters (.number n) f₁.frames =
        begun (requestOf q (.number n)) (requestOf q (.number n)).frame.length
          (sentAfter w next) := by
      intro f₁ next hwrites
      have hletters := letters_of_writes hwrites (hunderway w rfl) (by rw [hmessage, hrequest]) []
        hsaid
      rwa [Writing.size, hmessage] at hletters
    cases hgo with
    | writes hwrites =>
      have hmessage' := (message_of_writes hwrites).trans hmessage
      refine .asking mark _ hmessage' ?_
      rw [hletters hwrites, Writing.size, hmessage']
      rfl
    | written hwrites hnext =>
      cases hnext with
      | asked q id mark deadline =>
        refine .listening mark deadline ?_
        rw [hletters hwrites, sentAfter, Writing.size, hmessage, begun_whole]
      | failed q id mark e =>
        obtain ⟨-, reason, rfl⟩ := error_of_writes hwrites
        refine .ended _ (by simp) ⟨w.sent, ?_⟩
        rw [Front.unmark_frames]
        exact hletters hwrites
  | listening mark deadline hsaid =>
    -- Whichever way the waiting ends, the request stands there whole.
    have hwhole : ∃ sent, letters (.number n) f.frames = begun (requestOf q (.number n))
        (requestOf q (.number n)).frame.length sent := ⟨_, hsaid.trans (begun_whole _).symm⟩
    cases hgo with
    | waits hpending hgoes => exact .listening mark deadline hsaid
    | recalls hwithdrawn hopen =>
      exact .recalling mark _ rfl (by rw [hsaid]; exact congrArg _ (begun_zero _ _).symm)
    | withdraws hwithdrawn hclosed =>
      refine .withdrawn (.inr ⟨.inl ?_, 0, ?_⟩)
      · rw [Front.unmark_isOpen, hclosed]
      · rw [Front.unmark_frames, begun_zero, hsaid]
    | collects hsettled =>
      refine .ended _ (outcome_ne_cancelled _ _) ?_
      rw [Front.unmark_frames]
      exact hwhole
    | expires hpending =>
      refine .ended _ (by simp) ?_
      rw [Front.unmark_frames]
      exact hwhole
  | recalling mark w hmessage hsaid =>
    have hletters : ∀ {f₁ next}, Writes w f f₁ next → letters (.number n) f₁.frames =
        whole (requestOf q (.number n)) :: begun (recallOf (.number n))
          (recallOf (.number n)).frame.length (sentAfter w next) := by
      intro f₁ next hwrites
      have hletters := letters_of_writes hwrites (hunderway w rfl) (by rw [hmessage, hrecall])
        [whole (requestOf q (.number n))] hsaid
      rwa [Writing.size, hmessage] at hletters
    cases hgo with
    | writes hwrites =>
      have hmessage' := (message_of_writes hwrites).trans hmessage
      refine .recalling mark _ hmessage' ?_
      rw [hletters hwrites, Writing.size, hmessage']
      rfl
    | @written _ _ f₁ _ r _ hwrites hnext =>
      cases hnext with
      | recalled id mark written =>
        refine .withdrawn ?_
        unfold Withdrawn
        rw [Front.unmark_frames, Front.unmark_isOpen, Front.unmark_isDue]
        cases r with
        | ok _ =>
          refine .inl ?_
          rw [hletters hwrites, sentAfter, Writing.size, hmessage, begun_whole]
        | error e => exact .inr ⟨.inr (error_of_writes hwrites).1, _, hletters hwrites⟩
  | withdrawn hsaid =>
    cases hgo
    exact .withdrawn hsaid
  | ended r hr hsaid =>
    cases hgo
    exact .ended r hr hsaid

end Turns

end Switchboard

end LanguageHub
