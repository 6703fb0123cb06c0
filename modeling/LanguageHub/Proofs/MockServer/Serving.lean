import LanguageHub.Proofs.Json.Distinct
import LanguageHub.Proofs.MockServer.Copying
import LanguageHub.Proofs.MockServer.Listening
import LanguageHub.Proofs.MockServer.Words

/-!
# One response to each request

The mock server answers a request where it arrives, unless its method is one of those that hang.
Then it keeps the id as it is written, and answers when a notice cancels this id. Since different
ids are written differently, no other notice does.

Laws: on every message the server does one of five things, and never breaks; what it keeps are the
ids of the requests that wait; each request gets its one response in its place.
-/

open LanguageHub.Frame (Bytes encode addressLimit)

namespace LanguageHub.MockServer

/-! ## Messages and responses -/

/-- A message with a method and an id. -/
def IsRequest (m : Json) (method : String) (id : Json) : Prop :=
  (m.get? "method").bind Json.str? = some method ∧ m.get? "id" = some id

/-- A message with a method and without an id. -/
def IsNotice (m : Json) (method : String) : Prop :=
  (m.get? "method").bind Json.str? = some method ∧ m.get? "id" = none

def paramsOf (m : Json) : Json := (m.get? "params").getD .null

/-- The message is a notice that the request with this id is not wanted any more. -/
def Cancels (m id : Json) : Prop :=
  IsNotice m "$/cancelRequest" ∧ (paramsOf m).get? "id" = some id

def isExit (m : Json) : Bool :=
  (m.get? "method").bind Json.str? = some "exit" && (m.get? "id").isNone

/-- The messages up to and with the first notice to exit. -/
def untilExit : List Json → List Json
  | [] => []
  | m :: rest => if isExit m then [m] else m :: untilExit rest

def resultTo (id result : Json) : Json :=
  .mkObj [("jsonrpc", .str "2.0"), ("id", id), ("result", result)]

def errorTo (id : Json) (code : Int) (message : String) : Json :=
  .mkObj [("jsonrpc", .str "2.0"), ("id", id),
    ("error", .mkObj [("code", .ofInt code), ("message", .str message)])]

/-- The message is a response to the request with this id. -/
inductive Answers (id : Json) : Json → Prop
  | result (v : Json) : Answers id (resultTo id v)
  | error (code : Int) (message : String) : Answers id (errorTo id code message)

variable {s : MockServer} {settings : MockSettings} {m id id' v : Json} {method : String}
  {before rest sent part later : List Json}

theorem Answers.get?_id (h : Answers id v) : v.get? "id" = some id := by
  cases h <;> simp [resultTo, errorTo, Json.get?_mkObj, Json.lookup]

theorem Answers.isResponse (h : Answers id v) : isResponse v = true := by
  cases h <;> simp [MockServer.isResponse, resultTo, errorTo, Json.get?_mkObj, Json.lookup]

theorem Answers.unique (h : Answers id v) (h' : Answers id' v) : id = id' :=
  Option.some.inj (h.get?_id.symm.trans h'.get?_id)

theorem IsRequest.not_isNotice {method' : String} (h : IsRequest m method id) :
    ¬ IsNotice m method' := by
  intro hnotice
  cases h.2.symm.trans hnotice.2

theorem IsRequest.not_cancels (h : IsRequest m method id) : ¬ Cancels m id' :=
  fun hcancel => h.not_isNotice hcancel.1

theorem IsRequest.unique {method' : String} (h : IsRequest m method id)
    (h' : IsRequest m method' id') : method = method' ∧ id = id' :=
  ⟨Option.some.inj (h.1.symm.trans h'.1), Option.some.inj (h.2.symm.trans h'.2)⟩

theorem Cancels.unique (h : Cancels m id) (h' : Cancels m id') : id = id' :=
  Option.some.inj (h.2.symm.trans h'.2)

/-! ## What the server does on a message -/

/-- A hint can take a tooltip. -/
def IsHint (params : Json) : Prop := params = .null ∨ ∃ fields, params = .obj fields

/-- What the server does on a message. -/
inductive Reacts (s : MockServer) (m : Json) (step : MockStep) : Prop
  | hangs {method : String} {id : Json} (h : IsRequest m method id)
      (hhang : method ∈ s.settings.hangOn)
      (hstep : step.server.hung = id.render :: s.hung.filter (· != id.render))
      (hsent : step.sent = []) (hending : step.ending = none)
  | fails {method message : String} {id : Json} (h : IsRequest m method id)
      (hhang : method ∉ s.settings.hangOn) (hfail : method ∈ s.settings.failOn)
      (hstep : step.server.hung = s.hung)
      (hsent : step.sent = [errorTo id (-32603) message]) (hending : step.ending = none)
  | answers {method : String} {id response : Json} (h : IsRequest m method id)
      (hhang : method ∉ s.settings.hangOn) (hfail : method ∉ s.settings.failOn)
      (hresponse : Answers id response) (hstep : step.server.hung = s.hung)
      (hsent : step.sent = [response]) (hending : step.ending = none)
  | cancels {id : Json} {message : String} (h : Cancels m id) (hhung : id.render ∈ s.hung)
      (hstep : step.server.hung = s.hung.filter (· != id.render))
      (hsent : step.sent = [errorTo id (-32800) message]) (hending : step.ending = none)
  | keeps (hrequest : ∀ method id, ¬ IsRequest m method id)
      (hcancel : ∀ id, Cancels m id → id.render ∉ s.hung) (hstep : step.server.hung = s.hung)
      (hsent : ∀ v ∈ step.sent, isResponse v = false)
      (hending : step.ending = if isExit m then some .exit else none)

/-! ### Requests -/

theorem exists_hoverAnswer (s : MockServer) (params : Json) :
    ∃ v, s.hoverAnswer params = .ok v := by
  obtain ⟨word?, hword⟩ := s.exists_wordAt params
  rw [hoverAnswer, hword]
  exact ⟨_, rfl⟩

theorem exists_definitionAnswer (s : MockServer) (params : Json) :
    ∃ v, s.definitionAnswer params = .ok v := by
  obtain ⟨word?, hword⟩ := s.exists_wordAt params
  simp only [definitionAnswer, hword, bind, Except.bind]
  split
  · split <;> exact ⟨_, rfl⟩
  · exact ⟨_, rfl⟩

theorem exists_referencesAnswer (s : MockServer) (params : Json) :
    ∃ v, s.referencesAnswer params = .ok v := by
  obtain ⟨found, hfound, -⟩ := s.exists_occurrencesAt params
  rw [referencesAnswer, hfound]
  exact ⟨_, rfl⟩

theorem exists_highlightsAnswer (s : MockServer) (params : Json) :
    ∃ v, s.highlightsAnswer params = .ok v := by
  obtain ⟨found, hfound, -⟩ := s.exists_occurrencesAt params
  rw [highlightsAnswer, hfound]
  exact ⟨_, rfl⟩

theorem ofAnswer_ne_crash {answer : Except MockText.Fault Json} (h : ∃ v, answer = .ok v) :
    Reply.ofAnswer answer ≠ .crash := by
  obtain ⟨v, rfl⟩ := h
  nofun

theorem resolveReply_ne_crash {params : Json} (h : IsHint params) :
    s.resolveReply params ≠ .crash := by
  rcases h with rfl | ⟨fields, rfl⟩ <;> nofun

/-- No request breaks the server, if the hints that it gets can take a tooltip. -/
theorem reply_ne_crash (s : MockServer) (method : String) {params : Json}
    (hhint : method = "inlayHint/resolve" → IsHint params) : s.reply method params ≠ .crash := by
  unfold reply
  split
  all_goals first
    | exact ofAnswer_ne_crash (s.exists_hoverAnswer params)
    | exact ofAnswer_ne_crash (s.exists_definitionAnswer params)
    | exact ofAnswer_ne_crash (s.exists_referencesAnswer params)
    | exact ofAnswer_ne_crash (s.exists_highlightsAnswer params)
    | exact resolveReply_ne_crash (hhint rfl)
    | nofun

theorem sent_respond (hdrop : s.settings.dropAfter = none) (v : Json) :
    s.respond v = ⟨{ s with responses := s.responses + 1 }, [v], none⟩ := by
  simp [respond, hdrop]

theorem reacts_request (hdrop : s.settings.dropAfter = none) (h : IsRequest m method id)
    (hhint : method = "inlayHint/resolve" → IsHint (paramsOf m)) :
    Reacts s m (s.handleRequest method id (paramsOf m)) := by
  unfold handleRequest
  split
  · rename_i hhang
    exact .hangs h (List.contains_iff_mem.mp hhang) rfl rfl rfl
  rename_i hhang
  replace hhang : method ∉ s.settings.hangOn := mt List.contains_iff_mem.mpr hhang
  split
  · rename_i hfail
    rw [respondError, sent_respond hdrop]
    exact .fails h hhang (List.contains_iff_mem.mp hfail) rfl rfl rfl
  rename_i hfail
  replace hfail : method ∉ s.settings.failOn := mt List.contains_iff_mem.mpr hfail
  split
  · rw [respondResult, sent_respond hdrop]
    exact .answers h hhang hfail (.result _) rfl rfl rfl
  · rw [respondError, sent_respond hdrop]
    exact .answers h hhang hfail (.error _ _) rfl rfl rfl
  · rename_i hcrash
    exact absurd hcrash (s.reply_ne_crash method hhint)

/-! ### Notices -/

theorem isResponse_publish (s : MockServer) (uri : String) :
    ∀ v ∈ (s.publish uri).sent, isResponse v = false := by
  intro v hv
  rw [publish] at hv
  dsimp only at hv
  split at hv
  · cases hv
  · rw [List.mem_singleton.mp hv]
    simp [isResponse, diagnosticsNotice, Json.get?_mkObj, Json.lookup]

theorem isExit_of_isNotice (h : IsNotice m method) : isExit m = decide (method = "exit") := by
  simp [isExit, h.1, h.2]

/-- A notice of another kind changes nothing that is kept for requests. -/
theorem reacts_other (h : IsNotice m method) (hcancel : method ≠ "$/cancelRequest")
    {step : MockStep} (hstep : step.server.hung = s.hung)
    (hsent : ∀ v ∈ step.sent, isResponse v = false)
    (hending : step.ending = if method = "exit" then some .exit else none) :
    Reacts s m step := by
  refine .keeps (fun _ _ hrequest => hrequest.not_isNotice h) (fun id hid => ?_) hstep hsent ?_
  · exact absurd (Option.some.inj (h.1.symm.trans hid.1.1)) hcancel
  · rw [hending, isExit_of_isNotice h]
    simp

theorem reacts_notice (hdrop : s.settings.dropAfter = none) (h : IsNotice m method) :
    Reacts s m (s.handleNotification method (paramsOf m)) := by
  have hrequest : ∀ method id, ¬ IsRequest m method id := fun _ _ hm => hm.not_isNotice h
  unfold handleNotification
  split
  case h_1 =>
    split
    · refine reacts_other h (by decide) rfl (List.forall_mem_singleton.mpr ?_) rfl
      simp [isResponse, configurationRequest, Json.get?_mkObj, Json.lookup]
    · exact reacts_other h (by decide) rfl (List.forall_mem_nil _) rfl
  case h_2 =>
    have hexit : isExit m = false := isExit_of_isNotice h
    split
    · rename_i hnone
      refine .keeps hrequest (fun id hid => ?_) rfl (List.forall_mem_nil _) (by rw [hexit]; rfl)
      cases hnone.symm.trans hid.2
    rename_i id hid
    split
    · rename_i hhung
      rw [respondError, sent_respond (by exact hdrop)]
      exact .cancels ⟨h, hid⟩ (List.contains_iff_mem.mp hhung) rfl rfl rfl
    · rename_i hhung
      refine .keeps hrequest (fun id' hid' => ?_) rfl (List.forall_mem_nil _) (by rw [hexit]; rfl)
      rw [Cancels.unique hid' ⟨h, hid⟩]
      exact mt List.contains_iff_mem.mpr hhung
  case h_3 =>
    exact reacts_other h (by decide) rfl (isResponse_publish _ _) rfl
  case h_4 =>
    -- The changes of a document are always made, so the server goes on.
    dsimp only
    split
    · exact reacts_other h (by decide) rfl (isResponse_publish _ _) rfl
    · rw [MockText.applyChanges_eq]
      exact reacts_other h (by decide) rfl (isResponse_publish _ _) rfl
  case h_5 => exact reacts_other h (by decide) rfl (List.forall_mem_nil _) rfl
  case h_6 => exact reacts_other h (by decide) rfl (List.forall_mem_nil _) rfl
  case h_7 hcancel _ _ _ hexit =>
    exact reacts_other h hcancel rfl (List.forall_mem_nil _) (by rw [if_neg hexit]; rfl)

theorem reacts_handle (hdrop : s.settings.dropAfter = none)
    (hhint : ∀ id, IsRequest m "inlayHint/resolve" id → IsHint (paramsOf m)) :
    Reacts s m (s.handle m) := by
  unfold handle
  dsimp only
  split
  · rename_i method id hmethod hid
    exact reacts_request hdrop ⟨hmethod, hid⟩ fun heq => hhint id ⟨heq ▸ hmethod, hid⟩
  · rename_i method hmethod hid
    exact reacts_notice hdrop ⟨hmethod, hid⟩
  · rename_i hmethod
    have hnone : ∀ method, (m.get? "method").bind Json.str? ≠ some method := fun method hm => by
      cases hmethod.symm.trans hm
    have hexit : isExit m = false := by simp [isExit, hmethod]
    exact .keeps (fun method _ h => hnone method h.1) (fun _ h => absurd h.1.1 (hnone _)) rfl nofun
      (by rw [hexit]; rfl)

/-! ### The settings -/

theorem settings_handleRequest (s : MockServer) (method : String) (id params : Json) :
    (s.handleRequest method id params).server.settings = s.settings := by
  unfold handleRequest
  split
  · rfl
  split
  · rfl
  · split <;> rfl

theorem settings_handleNotification (s : MockServer) (method : String) (params : Json) :
    (s.handleNotification method params).server.settings = s.settings := by
  unfold handleNotification
  split
  case h_1 => split <;> rfl
  case h_2 =>
    split
    · rfl
    · split <;> rfl
  case h_4 =>
    dsimp only
    split
    · rfl
    · split <;> rfl
  all_goals rfl

theorem settings_handle (s : MockServer) (m : Json) :
    (s.handle m).server.settings = s.settings := by
  unfold handle
  dsimp only
  split
  · exact s.settings_handleRequest _ _ _
  · exact s.settings_handleNotification _ _
  · rfl

/-! ## The requests that wait -/

/-- A request with this id hangs and was not cancelled. -/
def Waits (settings : MockSettings) (before : List Json) (id : Json) : Prop :=
  ∃ a r b method, before = a ++ r :: b ∧ IsRequest r method id ∧ method ∈ settings.hangOn ∧
    ∀ c ∈ b, ¬ Cancels c id

theorem waits_concat : Waits settings (before ++ [m]) id ↔
    (∃ method, IsRequest m method id ∧ method ∈ settings.hangOn) ∨
      Waits settings before id ∧ ¬ Cancels m id := by
  constructor
  · rintro ⟨a, r, b, method, hsplit, hr, hhang, hcancel⟩
    rcases List.eq_nil_or_concat b with rfl | ⟨b, c, rfl⟩
    · obtain ⟨-, hlast⟩ := List.append_inj' hsplit rfl
      obtain rfl := List.head_eq_of_cons_eq hlast
      exact .inl ⟨method, hr, hhang⟩
    · rw [List.concat_eq_append] at hsplit hcancel
      rw [← List.cons_append, ← List.append_assoc] at hsplit
      obtain ⟨rfl, hlast⟩ := List.append_inj' hsplit rfl
      obtain rfl := List.head_eq_of_cons_eq hlast
      rw [List.forall_mem_append] at hcancel
      exact .inr ⟨⟨a, r, b, method, rfl, hr, hhang, hcancel.1⟩, hcancel.2 m List.mem_cons_self⟩
  · rintro (⟨method, hr, hhang⟩ | ⟨⟨a, r, b, method, rfl, hr, hhang, hcancel⟩, hm⟩)
    · exact ⟨before, m, [], method, rfl, hr, hhang, nofun⟩
    · refine ⟨a, r, b ++ [m], method, by simp, hr, hhang, ?_⟩
      exact List.forall_mem_append.mpr ⟨hcancel, List.forall_mem_singleton.mpr hm⟩

/-- What the server keeps are the ids of the requests that wait, as they are written. -/
structure Keeps (settings : MockSettings) (before : List Json) (s : MockServer) : Prop where
  same : s.settings = settings
  finite : ∀ m ∈ before, m.IsFinite
  hung : ∀ t, t ∈ s.hung ↔ ∃ id, Waits settings before id ∧ id.render = t

theorem keeps_start (settings : MockSettings) : Keeps settings [] (start settings) := by
  refine ⟨rfl, nofun, fun t => ⟨nofun, ?_⟩⟩
  rintro ⟨id, ⟨a, r, b, method, hsplit, -⟩, -⟩
  exact absurd hsplit.symm (List.append_ne_nil_of_right_ne_nil _ (List.cons_ne_nil _ _))

theorem Waits.isFinite (h : Waits settings before id) (hfinite : ∀ m ∈ before, m.IsFinite) :
    id.IsFinite := by
  obtain ⟨a, r, b, method, rfl, hr, -⟩ := h
  exact (hfinite r (by simp)).get? hr.2

theorem Cancels.isFinite (h : Cancels m id) (hm : m.IsFinite) : id.IsFinite := by
  have hparams : (paramsOf m).IsFinite := by
    unfold paramsOf
    cases hget : m.get? "params" with
    | none => exact .null
    | some v => exact hm.get? hget
  exact hparams.get? h.2

/-- A request waits exactly if its id is kept. -/
theorem Keeps.mem_iff (h : Keeps settings before s) (hid : id.IsFinite) :
    id.render ∈ s.hung ↔ Waits settings before id := by
  rw [h.hung]
  constructor
  · rintro ⟨id', hwaits, hrender⟩
    rwa [← Json.render_injective (hwaits.isFinite h.finite) hid hrender]
  · intro hwaits
    exact ⟨id, hwaits, rfl⟩

theorem Keeps.handle (h : Keeps settings before s) (hm : m.IsFinite)
    (hreacts : Reacts s m (s.handle m)) : Keeps settings (before ++ [m]) (s.handle m).server := by
  refine ⟨(s.settings_handle m).trans h.same,
    List.forall_mem_append.mpr ⟨h.finite, List.forall_mem_singleton.mpr hm⟩, fun t => ?_⟩
  simp only [waits_concat]
  -- Where nothing hangs and nothing that waits is cancelled, the same ids wait.
  have hsame (hhung : (s.handle m).server.hung = s.hung)
      (hhang : ∀ method id, IsRequest m method id → method ∉ settings.hangOn)
      (hcancel : ∀ id, Cancels m id → ¬ Waits settings before id) :
      t ∈ (s.handle m).server.hung ↔ ∃ id, ((∃ method, IsRequest m method id ∧
        method ∈ settings.hangOn) ∨ Waits settings before id ∧ ¬ Cancels m id) ∧
          id.render = t := by
    rw [hhung, h.hung]
    constructor
    · rintro ⟨id, hwaits, hrender⟩
      exact ⟨id, .inr ⟨hwaits, fun hid => hcancel id hid hwaits⟩, hrender⟩
    · rintro ⟨id, ⟨method, hr, hin⟩ | ⟨hwaits, -⟩, hrender⟩
      · exact absurd hin (hhang method id hr)
      · exact ⟨id, hwaits, hrender⟩
  cases hreacts with
  | @hangs method id hr hhang hstep hsent hending =>
    rw [hstep, List.mem_cons, List.mem_filter, h.hung]
    constructor
    · rintro (rfl | ⟨⟨id', hwaits, hrender⟩, -⟩)
      · exact ⟨id, .inl ⟨method, hr, h.same ▸ hhang⟩, rfl⟩
      · exact ⟨id', .inr ⟨hwaits, hr.not_cancels⟩, hrender⟩
    · rintro ⟨id', ⟨method', hr', -⟩ | ⟨hwaits, -⟩, rfl⟩
      · exact .inl (congrArg Json.render (hr'.unique hr).2)
      · by_cases hrender : id'.render = id.render
        · exact .inl hrender
        · exact .inr ⟨⟨id', hwaits, rfl⟩, bne_iff_ne.mpr hrender⟩
  | fails hr hhang hfail hstep hsent hending =>
    exact hsame hstep (fun _ _ hr' => (hr.unique hr').1 ▸ h.same ▸ hhang)
      fun _ hid => absurd hid hr.not_cancels
  | answers hr hhang hfail hresponse hstep hsent hending =>
    exact hsame hstep (fun _ _ hr' => (hr.unique hr').1 ▸ h.same ▸ hhang)
      fun _ hid => absurd hid hr.not_cancels
  | @cancels id message hid hhung hstep hsent hending =>
    rw [hstep, List.mem_filter, h.hung]
    constructor
    · rintro ⟨⟨id', hwaits, rfl⟩, hne⟩
      refine ⟨id', .inr ⟨hwaits, fun hid' => ?_⟩, rfl⟩
      exact bne_iff_ne.mp hne (congrArg Json.render (hid'.unique hid))
    · rintro ⟨id', ⟨_, hr, _⟩ | ⟨hwaits, hnot⟩, rfl⟩
      · exact absurd hid hr.not_cancels
      · refine ⟨⟨id', hwaits, rfl⟩, bne_iff_ne.mpr fun hrender => hnot ?_⟩
        rwa [Json.render_injective (hwaits.isFinite h.finite) (hid.isFinite hm) hrender]
  | keeps hrequest hcancel hstep hsent hending =>
    exact hsame hstep (fun method id hr => absurd hr (hrequest method id)) fun id hid hwaits =>
      hcancel id hid ((h.hung _).mpr ⟨id, hwaits, rfl⟩)

/-! ## Responses in their places -/

/-- What the responses to a message are after the messages before it. -/
inductive Replies (settings : MockSettings) (before : List Json) (m : Json) : List Json → Prop
  | held {method : String} {id : Json} (h : IsRequest m method id)
      (hhang : method ∈ settings.hangOn) : Replies settings before m []
  | failed {method message : String} {id : Json} (h : IsRequest m method id)
      (hhang : method ∉ settings.hangOn) (hfail : method ∈ settings.failOn) :
      Replies settings before m [errorTo id (-32603) message]
  | answered {method : String} {id response : Json} (h : IsRequest m method id)
      (hhang : method ∉ settings.hangOn) (hfail : method ∉ settings.failOn)
      (hresponse : Answers id response) : Replies settings before m [response]
  | cancelled {id : Json} {message : String} (h : Cancels m id)
      (hwaits : Waits settings before id) : Replies settings before m [errorTo id (-32800) message]
  | nothing (hrequest : ∀ method id, ¬ IsRequest m method id)
      (hcancel : ∀ id, Cancels m id → ¬ Waits settings before id) : Replies settings before m []

/-- The messages come after those before them, and what is sent on each message has its
responses. -/
inductive Serves (settings : MockSettings) : List Json → List Json → List Json → Prop
  | nil {before : List Json} : Serves settings before [] []
  | cons {before rest part later : List Json} {m : Json}
      (h : Replies settings before m (part.filter isResponse))
      (hrest : Serves settings (before ++ [m]) rest later) :
      Serves settings before (m :: rest) (part ++ later)

theorem Reacts.replies {step : MockStep} (h : Reacts s m step) (hkeeps : Keeps settings before s)
    (hm : m.IsFinite) : Replies settings before m (step.sent.filter isResponse) := by
  have hone : ∀ {id v}, Answers id v → [v].filter isResponse = [v] := fun hanswers => by
    rw [List.filter_cons_of_pos hanswers.isResponse, List.filter_nil]
  cases h with
  | hangs hr hhang hstep hsent hending =>
    rw [hsent]
    exact .held hr (hkeeps.same ▸ hhang)
  | fails hr hhang hfail hstep hsent hending =>
    rw [hsent, hone (.error _ _)]
    exact .failed hr (hkeeps.same ▸ hhang) (hkeeps.same ▸ hfail)
  | answers hr hhang hfail hresponse hstep hsent hending =>
    rw [hsent, hone hresponse]
    exact .answered hr (hkeeps.same ▸ hhang) (hkeeps.same ▸ hfail) hresponse
  | cancels hid hhung hstep hsent hending =>
    rw [hsent, hone (.error _ _)]
    exact .cancelled hid ((hkeeps.mem_iff (hid.isFinite hm)).mp hhung)
  | keeps hrequest hcancel hstep hsent hending =>
    rw [List.filter_eq_nil_iff.mpr fun v hv => Bool.eq_false_iff.mp (hsent v hv)]
    exact .nothing hrequest fun id hid hwaits =>
      hcancel id hid ((hkeeps.mem_iff (hid.isFinite hm)).mpr hwaits)

theorem Reacts.ending {step : MockStep} (h : Reacts s m step) :
    step.ending = if isExit m then some .exit else none := by
  have hexit : ∀ {method id}, IsRequest m method id → isExit m = false := fun hr => by
    simp [isExit, hr.2]
  cases h with
  | hangs hr hhang hstep hsent hending => rw [hending, hexit hr]; rfl
  | fails hr hhang hfail hstep hsent hending => rw [hending, hexit hr]; rfl
  | answers hr hhang hfail hresponse hstep hsent hending => rw [hending, hexit hr]; rfl
  | cancels hid hhung hstep hsent hending => rw [hending, isExit_of_isNotice hid.1]; rfl
  | keeps hrequest hcancel hstep hsent hending => exact hending

/-- From wherever the server is, it goes through the messages up to the exit. -/
theorem attend_spec {bodies : List String} (hdrop : settings.dropAfter = none)
    (hkeeps : Keeps settings before s) (hfinite : ∀ m ∈ bodies.filterMap Json.read?, m.IsFinite)
    (hhint : ∀ m ∈ bodies.filterMap Json.read?, ∀ id, IsRequest m "inlayHint/resolve" id →
      IsHint (paramsOf m)) :
    let messages := bodies.filterMap Json.read?
    (s.attend bodies).recorded = untilExit messages ∧
      (s.attend bodies).ending = (if messages.any isExit then some .exit else none) ∧
      Serves settings before (untilExit messages) (s.attend bodies).sent := by
  induction bodies generalizing s before with
  | nil => exact ⟨rfl, rfl, .nil⟩
  | cons body bodies ih =>
    dsimp only
    rw [attend]
    cases hread : Json.read? body with
    | none =>
      rw [List.filterMap_cons_none hread] at hfinite hhint ⊢
      exact ih hkeeps hfinite hhint
    | some m =>
      rw [List.filterMap_cons_some hread] at hfinite hhint ⊢
      rw [List.forall_mem_cons] at hfinite hhint
      have hreacts := reacts_handle (hkeeps.same ▸ hdrop) hhint.1
      have hreplies := hreacts.replies hkeeps hfinite.1
      have hending := hreacts.ending
      dsimp only
      rw [hending, untilExit, List.any_cons]
      cases hexit : isExit m with
      | true =>
        refine ⟨rfl, rfl, ?_⟩
        have hserves := Serves.cons hreplies .nil
        rwa [List.append_nil] at hserves
      | false =>
        obtain ⟨hrecorded, hend, hserves⟩ :=
          ih (hkeeps.handle hfinite.1 hreacts) hfinite.2 hhint.2
        exact ⟨congrArg (m :: ·) hrecorded, hend, .cons hreplies hserves⟩

/-! ## One response to each request -/

/-- No two requests have the same id. -/
def Distinct (messages : List Json) : Prop :=
  messages.Pairwise fun m m' =>
    ∀ method method' id, IsRequest m method id → ¬ IsRequest m' method' id

/-- Of all that is sent this alone is a response to the request with this id. -/
def IsOnlyAnswer (id response : Json) (sent : List Json) : Prop :=
  ∃ before after, sent = before ++ response :: after ∧ Answers id response ∧
    ∀ v ∈ before ++ after, ¬ Answers id v

/-- The request with this id gets its response on this message. -/
def IsAnsweredOn (settings : MockSettings) (before : List Json) (m id : Json) : Prop :=
  (∃ method, IsRequest m method id ∧ method ∉ settings.hangOn) ∨
    Cancels m id ∧ Waits settings before id

variable {a b c d messages responses : List Json} {r r' : Json} {method' : String}

theorem IsRequest.isAnsweredOn_iff (h : IsRequest m method id') :
    IsAnsweredOn settings before m id ↔ id = id' ∧ method ∉ settings.hangOn := by
  constructor
  · rintro (⟨method', hr, hhang⟩ | ⟨hcancel, -⟩)
    · obtain ⟨rfl, rfl⟩ := h.unique hr
      exact ⟨rfl, hhang⟩
    · exact absurd hcancel h.not_cancels
  · rintro ⟨rfl, hhang⟩
    exact .inl ⟨method, h, hhang⟩

theorem Cancels.isAnsweredOn_iff (h : Cancels m id') :
    IsAnsweredOn settings before m id ↔ id = id' ∧ Waits settings before id := by
  constructor
  · rintro (⟨_, hr, -⟩ | ⟨hcancel, hwaits⟩)
    · exact absurd h hr.not_cancels
    · exact ⟨hcancel.unique h, hwaits⟩
  · rintro ⟨rfl, hwaits⟩
    exact .inr ⟨h, hwaits⟩

theorem Replies.isAnsweredOn (h : Replies settings before m responses) (hv : v ∈ responses)
    (hanswers : Answers id v) : IsAnsweredOn settings before m id := by
  cases h with
  | held => cases hv
  | failed hr hhang hfail =>
    rw [List.mem_singleton.mp hv] at hanswers
    exact hr.isAnsweredOn_iff.mpr ⟨hanswers.unique (.error _ _), hhang⟩
  | answered hr hhang hfail hresponse =>
    rw [List.mem_singleton.mp hv] at hanswers
    exact hr.isAnsweredOn_iff.mpr ⟨hanswers.unique hresponse, hhang⟩
  | cancelled hcancel hwaits =>
    rw [List.mem_singleton.mp hv] at hanswers
    obtain rfl := hanswers.unique (.error _ _)
    exact hcancel.isAnsweredOn_iff.mpr ⟨rfl, hwaits⟩
  | nothing => cases hv

theorem Replies.exists_answer (h : Replies settings before m responses)
    (hid : IsAnsweredOn settings before m id) : ∃ v, responses = [v] ∧ Answers id v := by
  cases h with
  | held hr hhang => exact absurd hhang (hr.isAnsweredOn_iff.mp hid).2
  | failed hr hhang hfail =>
    obtain ⟨rfl, -⟩ := hr.isAnsweredOn_iff.mp hid
    exact ⟨_, rfl, .error _ _⟩
  | answered hr hhang hfail hresponse =>
    obtain ⟨rfl, -⟩ := hr.isAnsweredOn_iff.mp hid
    exact ⟨_, rfl, hresponse⟩
  | cancelled hcancel hwaits =>
    obtain ⟨rfl, -⟩ := hcancel.isAnsweredOn_iff.mp hid
    exact ⟨_, rfl, .error _ _⟩
  | nothing hrequest hcancel =>
    rcases hid with ⟨method, hr, -⟩ | ⟨hcancel', hwaits⟩
    · exact absurd hr (hrequest method id)
    · exact absurd hwaits (hcancel id hcancel')

theorem Serves.isAnsweredOn (h : Serves settings before messages sent) (hv : v ∈ sent)
    (hanswers : Answers id v) :
    ∃ a m b, messages = a ++ m :: b ∧ IsAnsweredOn settings (before ++ a) m id := by
  induction h with
  | nil => cases hv
  | @cons before rest part later m hreplies hrest ih =>
    rcases List.mem_append.mp hv with hpart | hlater
    · have hmem := List.mem_filter.mpr ⟨hpart, hanswers.isResponse⟩
      refine ⟨[], m, rest, rfl, ?_⟩
      rw [List.append_nil]
      exact hreplies.isAnsweredOn hmem hanswers
    · obtain ⟨a, m', b, rfl, hon⟩ := ih hlater
      refine ⟨m :: a, m', b, rfl, ?_⟩
      rwa [List.append_assoc] at hon

theorem Serves.exists_split (h : Serves settings before (a ++ b) sent) :
    ∃ first last, sent = first ++ last ∧ Serves settings before a first ∧
      Serves settings (before ++ a) b last := by
  induction a generalizing before sent with
  | nil => exact ⟨[], sent, rfl, .nil, by rwa [List.append_nil]⟩
  | cons m a ih =>
    cases h with
    | @cons _ _ part later _ hreplies hrest =>
      obtain ⟨first, last, rfl, hfirst, hlast⟩ := ih hrest
      refine ⟨part ++ first, last, (List.append_assoc ..).symm, .cons hreplies hfirst, ?_⟩
      rwa [List.append_assoc] at hlast

/-- If a request gets its response on one message only, then it gets one response. -/
theorem Serves.isOnlyAnswer (h : Serves settings [] (a ++ m :: b) sent)
    (hid : IsAnsweredOn settings a m id)
    (honly : ∀ c m' d, a ++ m :: b = c ++ m' :: d → IsAnsweredOn settings c m' id → c = a) :
    ∃ v, IsOnlyAnswer id v sent ∧ Replies settings a m [v] := by
  obtain ⟨first, last, rfl, hfirst, hlast⟩ := h.exists_split
  rw [List.nil_append] at hlast
  cases hlast with
  | @cons _ _ part later _ hreplies hrest =>
    obtain ⟨v, hv, hanswers⟩ := hreplies.exists_answer hid
    obtain ⟨before, after, rfl, hbefore, -, hafter⟩ := List.filter_eq_cons_iff.mp hv
    refine ⟨v, ⟨first ++ before, after ++ later, by simp, hanswers, ?_⟩, hv ▸ hreplies⟩
    intro w hw hw'
    simp only [List.mem_append] at hw
    rcases hw with (hw | hw) | (hw | hw)
    · obtain ⟨c, m', d, rfl, hon⟩ := hfirst.isAnsweredOn hw hw'
      have hsame := honly c m' (d ++ m :: b) (by simp) hon
      simp at hsame
    · exact hbefore w hw hw'.isResponse
    · exact List.filter_eq_nil_iff.mp hafter w hw hw'.isResponse
    · obtain ⟨c, m', d, rfl, hon⟩ := hrest.isAnsweredOn hw hw'
      have hsame := honly (a ++ m :: c) m' d (by simp) (by simpa using hon)
      simp at hsame

/-- Of two places in one list, one is behind the other unless they are the same. -/
theorem same_place_or (h : a ++ r :: b = c ++ r' :: d) :
    (a = c ∧ r = r' ∧ b = d) ∨ (r' ∈ b ∧ r ∈ c) ∨ (r ∈ d ∧ r' ∈ a) := by
  rcases List.append_eq_append_iff.mp h with ⟨e, rfl, he⟩ | ⟨e, rfl, he⟩
  · cases e with
    | nil =>
      obtain ⟨rfl, rfl⟩ := List.cons.inj he
      exact .inl ⟨(List.append_nil a).symm, rfl, rfl⟩
    | cons x e =>
      obtain ⟨rfl, rfl⟩ := List.cons.inj he
      exact .inr (.inl ⟨by simp, by simp⟩)
  · cases e with
    | nil =>
      obtain ⟨rfl, rfl⟩ := List.cons.inj he
      exact .inl ⟨List.append_nil c, rfl, rfl⟩
    | cons x e =>
      obtain ⟨rfl, rfl⟩ := List.cons.inj he
      exact .inr (.inr ⟨by simp, by simp⟩)

/-- A request stands in one place. -/
theorem Distinct.place (h : Distinct messages) (hsplit : messages = a ++ r :: b)
    (hsplit' : messages = c ++ r' :: d) (hr : IsRequest r method id)
    (hr' : IsRequest r' method' id) : a = c ∧ r = r' ∧ b = d := by
  have hnot : ∀ {a r b}, messages = a ++ r :: b → ∀ m ∈ b, ∀ {method method'},
      IsRequest r method id → ¬ IsRequest m method' id := by
    rintro a r b rfl m hm method method' hr
    exact (List.pairwise_cons.mp (List.pairwise_append.mp h).2.1).1 m hm _ _ _ hr
  rcases same_place_or (hsplit.symm.trans hsplit') with hsame | ⟨hbehind, -⟩ | ⟨hbehind, -⟩
  · exact hsame
  · exact absurd hr' (hnot hsplit r' hbehind hr)
  · exact absurd hr (hnot hsplit' r hbehind hr')

/-- The request with an id that waits is the one with this id. -/
theorem Distinct.place_of_waits (h : Distinct messages) (hsplit : messages = a ++ r :: b)
    (hsplit' : messages = c ++ m :: d) (hr : IsRequest r method id) (hwaits : Waits settings c id) :
    method ∈ settings.hangOn ∧
      ∃ between, c = a ++ r :: between ∧ b = between ++ m :: d ∧ ∀ x ∈ between, ¬ Cancels x id := by
  obtain ⟨a', r', between, method', rfl, hr', hhang, hnone⟩ := hwaits
  rw [List.append_assoc, List.cons_append] at hsplit'
  obtain ⟨rfl, rfl, rfl⟩ := h.place hsplit hsplit' hr hr'
  exact ⟨(hr.unique hr').1 ▸ hhang, between, rfl, rfl, hnone⟩

/-- The first notice that cancels a request stands in one place. -/
theorem eq_of_first {b' d' : List Json} {m' : Json} (h : b ++ m :: d = b' ++ m' :: d')
    (hnone : ∀ x ∈ b, ¬ Cancels x id) (hm : Cancels m id) (hnone' : ∀ x ∈ b', ¬ Cancels x id)
    (hm' : Cancels m' id) : b = b' := by
  rcases same_place_or h with ⟨hsame, -⟩ | ⟨-, hbefore⟩ | ⟨-, hbefore⟩
  · exact hsame
  · exact absurd hm (hnone' m hbefore)
  · exact absurd hm' (hnone m' hbefore)

/-- Each request gets its one response in its place. -/
structure Served (settings : MockSettings) (messages sent : List Json) : Prop where
  each : Serves settings [] messages sent
  answered : ∀ a r b method id, messages = a ++ r :: b → IsRequest r method id →
    method ∉ settings.hangOn → ∃ v, IsOnlyAnswer id v sent ∧
      (method ∈ settings.failOn → ∃ message, v = errorTo id (-32603) message)
  cancelled : ∀ a r b m d method id, messages = a ++ r :: (b ++ m :: d) → IsRequest r method id →
    method ∈ settings.hangOn → (∀ x ∈ b, ¬ Cancels x id) → Cancels m id →
      ∃ message, IsOnlyAnswer id (errorTo id (-32800) message) sent
  held : ∀ a r b method id, messages = a ++ r :: b → IsRequest r method id →
    method ∈ settings.hangOn → (∀ x ∈ b, ¬ Cancels x id) → ∀ v ∈ sent, ¬ Answers id v

theorem Distinct.served (h : Distinct messages) (hserves : Serves settings [] messages sent) :
    Served settings messages sent where
  each := hserves
  answered := by
    rintro a r b method id rfl hr hhang
    obtain ⟨v, hv, hreplies⟩ := hserves.isOnlyAnswer (.inl ⟨method, hr, hhang⟩)
      fun c m' d hsplit hid => by
        rcases hid with ⟨method', hr', -⟩ | ⟨-, hwaits⟩
        · exact (h.place rfl hsplit hr hr').1.symm
        · exact absurd (h.place_of_waits rfl hsplit hr hwaits).1 hhang
    refine ⟨v, hv, fun hfail => ?_⟩
    cases hreplies with
    | failed hr' => exact ⟨_, by rw [(hr.unique hr').2]⟩
    | answered hr' _ hnot => exact absurd ((hr.unique hr').1 ▸ hfail) hnot
    | cancelled hcancel => exact absurd hcancel hr.not_cancels
  cancelled := by
    rintro a r b m d method id rfl hr hhang hnone hm
    have hmessages : a ++ r :: (b ++ m :: d) = (a ++ r :: b) ++ m :: d := by simp
    rw [hmessages] at hserves
    have hwaits : Waits settings (a ++ r :: b) id := ⟨a, r, b, method, rfl, hr, hhang, hnone⟩
    obtain ⟨v, hv, hreplies⟩ := hserves.isOnlyAnswer (.inr ⟨hm, hwaits⟩)
      fun c m' d' hsplit hid => by
        rw [← hmessages] at hsplit
        rcases hid with ⟨method', hr', hnot⟩ | ⟨hm', hwaits'⟩
        · obtain ⟨-, rfl, -⟩ := h.place rfl hsplit hr hr'
          exact absurd ((hr.unique hr').1 ▸ hhang) hnot
        · obtain ⟨-, between, rfl, hbetween, hnone'⟩ := h.place_of_waits rfl hsplit hr hwaits'
          rw [eq_of_first hbetween hnone hm hnone' hm']
    cases hreplies with
    | failed hr' => exact absurd hm hr'.not_cancels
    | answered hr' => exact absurd hm hr'.not_cancels
    | cancelled hm' => exact ⟨_, hm'.unique hm ▸ hv⟩
  held := by
    rintro a r b method id rfl hr hhang hnone v hv hanswers
    obtain ⟨c, m', d, hsplit, hid⟩ := hserves.isAnsweredOn hv hanswers
    rw [List.nil_append] at hid
    rcases hid with ⟨method', hr', hnot⟩ | ⟨hm', hwaits⟩
    · obtain ⟨-, rfl, -⟩ := h.place rfl hsplit hr hr'
      exact hnot ((hr.unique hr').1 ▸ hhang)
    · obtain ⟨-, between, rfl, rfl, -⟩ := h.place_of_waits rfl hsplit hr hwaits
      exact hnone m' (by simp) hm'

theorem isPrefix_untilExit (messages : List Json) : untilExit messages <+: messages := by
  induction messages with
  | nil => exact List.prefix_rfl
  | cons m rest ih =>
    rw [untilExit]
    split
    · exact ⟨rest, rfl⟩
    · exact List.cons_prefix_cons.mpr ⟨rfl, ih⟩

/-- The mock server gets any messages, cut in any way, in which no two requests have the same id and
hints can take a tooltip. It never breaks but handles them up to the exit, and each request gets its
one response in its place: a request that hangs when it is first cancelled and never before, each
other one where it arrives, and with an error where it is to fail. Nothing else is responded to.
(Ids are the same when they are written alike, so the two zeros among the doubles are two ids. Bytes
of a frame have addresses, and numbers are finite.) -/
theorem one_response_each {settings : MockSettings} (hdrop : settings.dropAfter = none)
    {bodies : List String} {pieces : List Bytes}
    (hfits : ∀ body ∈ bodies, (encode body).length < addressLimit)
    (hcut : pieces.flatten = bodies.flatMap encode)
    (hfinite : ∀ m ∈ bodies.filterMap Json.read?, m.IsFinite)
    (hdistinct : Distinct (bodies.filterMap Json.read?))
    (hhint : ∀ m ∈ bodies.filterMap Json.read?, ∀ id, IsRequest m "inlayHint/resolve" id →
      IsHint (paramsOf m)) :
    let messages := bodies.filterMap Json.read?
    let run := (start settings).listen [] pieces
    run.recorded = untilExit messages ∧
      run.ending = (if messages.any isExit then some .exit else none) ∧
      Served settings (untilExit messages) run.sent := by
  intro messages run
  have hsame : run.Same ((start settings).attend bodies) := listen_same_attend _ hfits hcut
  obtain ⟨hrecorded, hending, hserves⟩ := attend_spec hdrop (keeps_start settings) hfinite hhint
  have hhandled : Distinct (untilExit messages) :=
    List.Pairwise.sublist (isPrefix_untilExit messages).sublist hdistinct
  rw [hsame.recorded, hsame.ending, hsame.sent]
  exact ⟨hrecorded, hending, hhandled.served hserves⟩

/-- A request hangs until it is cancelled, a cancellation for the one that failed comes to nothing,
and after the exit nothing is handled. All arrives byte by byte. -/
theorem one_response_each_hanging :
    let settings := { MockSettings.default with
      hangOn := ["textDocument/hover"], failOn := ["shutdown"] }
    let request (id : Json) (method : String) : Json := .obj [("id", id), ("method", .str method)]
    let cancel (id : Json) : Json :=
      .obj [("method", .str "$/cancelRequest"), ("params", .obj [("id", id)])]
    let handled := [request (.ofNat 1) "textDocument/hover", request (.str "1") "shutdown",
      cancel (.str "1"), request .null "inlayHint/resolve", cancel (.ofNat 1), cancel (.ofNat 1),
      .obj [("method", .str "exit")]]
    let messages := handled ++ [request (.ofNat 2) "shutdown"]
    let bodies := messages.map Json.render
    let run := (start settings).listen [] ((bodies.flatMap encode).map ([·]))
    bodies.filterMap Json.read? = messages ∧ run.ending = some .exit ∧
      Served settings handled run.sent ∧
      run.sent.map Json.render =
        [errorTo (.str "1") (-32603) "mockls: configured to fail on shutdown",
          resultTo .null (.obj [("tooltip", .str "resolved by mockls")]),
          errorTo (.ofNat 1) (-32800) "mockls: request cancelled"].map Json.render := by
  intro settings request cancel handled messages bodies run
  have hrequest : ∀ {id : Json} (method : String), Json.Exact 126 id →
      Json.Exact Json.nestingLimit (request id method) := fun method hid => by
    have hkeys : ["id", "method"].Pairwise (· < ·) := by decide
    exact .obj hkeys (List.forall_mem_cons.mpr ⟨hid, List.forall_mem_singleton.mpr (.str method)⟩)
  have hcancel : ∀ {id : Json}, Json.Exact 125 id →
      Json.Exact Json.nestingLimit (cancel id) := fun hid => by
    have hkeys : ["method", "params"].Pairwise (· < ·) := by decide
    exact .obj hkeys (List.forall_mem_cons.mpr ⟨.str _, List.forall_mem_singleton.mpr
      (.obj (List.pairwise_singleton _ _) (List.forall_mem_singleton.mpr hid))⟩)
  have hnumber : ∀ {depth : Nat} (n : Nat), n < 3 → Json.Exact depth (.ofNat n) := fun n hn =>
    .int (by omega) (by omega)
  have hexact : ∀ m ∈ messages, Json.Exact Json.nestingLimit m := by
    simp only [messages, handled, List.cons_append, List.nil_append, List.forall_mem_cons]
    exact ⟨hrequest _ (hnumber 1 (by decide)), hrequest _ (.str _), hcancel (.str _),
      hrequest _ .null, hcancel (hnumber 1 (by decide)), hcancel (hnumber 1 (by decide)),
      .obj (List.pairwise_singleton _ _) (List.forall_mem_singleton.mpr (.str _)),
      hrequest _ (hnumber 2 (by decide)), nofun⟩
  have hread : bodies.filterMap Json.read? = messages := Json.filterMap_read?_render hexact
  have hfits : ∀ body ∈ bodies, (encode body).length < addressLimit := by decide +kernel
  have hcut : ((bodies.flatMap encode).map ([·])).flatten = bodies.flatMap encode := by
    rw [← List.flatMap_def, List.flatMap_singleton']
  have hdistinct : Distinct messages := by
    simp [Distinct, messages, handled, request, cancel, IsRequest, Json.get?, Json.lookup,
      Json.str?, Json.ofNat]
  have hhint : ∀ m ∈ messages, ∀ id, IsRequest m "inlayHint/resolve" id → IsHint (paramsOf m) := by
    simp [messages, handled, request, cancel, IsRequest, IsHint, paramsOf, Json.get?, Json.lookup,
      Json.str?]
  obtain ⟨-, hending, hserved⟩ := one_response_each (show settings.dropAfter = none from rfl)
    hfits hcut (hread.symm ▸ fun m hm => (hexact m hm).isFinite) (hread.symm ▸ hdistinct)
    (hread.symm ▸ hhint)
  rw [hread] at hending hserved
  refine ⟨hread, hending.trans rfl, hserved, ?_⟩
  rw [(listen_same_attend (start settings) hfits hcut).sent]
  decide +kernel

end LanguageHub.MockServer
