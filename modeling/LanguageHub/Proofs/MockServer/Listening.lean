import LanguageHub.Client.Reader
import LanguageHub.MockServer.Basic
import LanguageHub.Proofs.Wire.Reading

/-!
# The mock server's input

The mock server takes frames out of its input as they were put in. Unlike a client it
waits for ever at a frame that it cannot read, so that what it does with a stream never
depends on how the stream is cut.
-/

open LanguageHub.Frame (Bytes encode addressLimit)

namespace LanguageHub.MockServer

/-- Both end alike after the same work. What is left unread counts only while they go on. -/
structure MockRun.Same (a b : MockRun) : Prop where
  server : a.server = b.server
  sent : a.sent = b.sent
  recorded : a.recorded = b.recorded
  ending : a.ending = b.ending
  rest : a.ending = none → a.rest = b.rest

theorem MockRun.Same.refl (a : MockRun) : a.Same a := ⟨rfl, rfl, rfl, rfl, fun _ => rfl⟩

/-- What was done before comes first. -/
def MockRun.after (later : MockRun) (sent recorded : List Json) : MockRun :=
  { later with sent := sent ++ later.sent, recorded := recorded ++ later.recorded }

theorem MockRun.Same.after {a b : MockRun} (h : a.Same b) (sent recorded : List Json) :
    (a.after sent recorded).Same (b.after sent recorded) :=
  ⟨h.server, congrArg (sent ++ ·) h.sent, congrArg (recorded ++ ·) h.recorded, h.ending, h.rest⟩

theorem MockRun.after_after (run : MockRun) (sent recorded sent' recorded' : List Json) :
    (run.after sent recorded).after sent' recorded' =
      run.after (sent' ++ sent) (recorded' ++ recorded) := by
  simp [MockRun.after]

/-- Gets its input in pieces until the server ends. -/
def listen (s : MockServer) (buffer : Bytes) : List Bytes → MockRun
  | [] => ⟨s, [], [], none, buffer⟩
  | piece :: later =>
    let run := s.run (buffer ++ piece)
    match run.ending with
    | some _ => run
    | none => (listen run.server run.rest later).after run.sent run.recorded

/-- Gets the texts of messages one after another until the server ends. -/
def attend (s : MockServer) : List String → MockRun
  | [] => ⟨s, [], [], none, []⟩
  | text :: later =>
    match Json.read? text with
    | none => attend s later
    | some message =>
      let step := s.handle message
      match step.ending with
      | some e => ⟨step.server, step.sent, [message], some e, later.flatMap encode⟩
      | none => (attend step.server later).after step.sent [message]

/-! ## The first frame -/

theorem lines_lengthLine (n : Nat) : Text.lines (Frame.lengthLine n) = [Frame.lengthLine n] := by
  have some_digit : Frame.lengthLine n ≠ [] :=
    List.append_ne_nil_of_right_ne_nil _ Nat.toDigits_ne_nil
  rw [Text.lines, Text.splitOn_of_not_mem (Frame.newline_not_mem_lengthLine n), Text.stripReturns,
    if_neg (mt List.isEmpty_iff.mp some_digit)]

theorem announcedLength_lengthLine {n : Nat} (h : n < addressLimit) :
    announcedLength [Frame.lengthLine n] = some n := by
  have named : "content-length:".toList.isPrefixOf (Text.lowered (Frame.lengthLine n)) = true := by
    have small : Text.lowered "Content-Length".toList ++ [':'] = "content-length:".toList := by
      decide +kernel
    rw [List.isPrefixOf_iff_prefix, ← small, Frame.lengthLine_eq, Text.lowered, Text.lowered,
      List.map_append, List.map_cons]
    exact ⟨_, List.append_assoc _ _ _⟩
  have this_line : ([Frame.lengthLine n].filter fun l =>
      "content-length:".toList.isPrefixOf (Text.lowered l)) = [Frame.lengthLine n] :=
    List.filter_eq_self.mpr fun l h => List.mem_singleton.mp h ▸ named
  rw [announcedLength, this_line, List.getLast?_singleton]
  simp only [Frame.splitOnce?_lengthLine, Option.bind_some, Text.trim_blank_toDigits,
    Text.natural?_toDigits, Option.filter_some, h, decide_true, if_true]

/-- A frame whose end has an address is taken from the front of the input. -/
theorem nextBody_encode {body : String} (h : (encode body).length < addressLimit) (rest : Bytes) :
    nextBody (encode body ++ rest) = .body body rest := by
  rw [Frame.length_encode] at h
  have length := announcedLength_lengthLine (n := (Frame.bytesOf body.toList).length) (by omega)
  simp only [nextBody, Frame.splitHead?_encode, Frame.textOf?_bytesOf, Option.bind_some,
    String.toList_ofList, lines_lengthLine, length]
  rw [if_neg (by omega), if_neg (by simp), List.take_left, List.drop_left, Frame.textOf?_bytesOf,
    String.ofList_toList]

/-- The same with more bytes behind it. -/
def Reading.before : Reading → Bytes → Reading
  | .body text rest, more => .body text (rest ++ more)
  | .waiting, _ => .waiting
  | .crash, _ => .crash

theorem nextBody_append {p : Bytes} (h : nextBody p ≠ .waiting) (q : Bytes) :
    nextBody (p ++ q) = (nextBody p).before q := by
  cases hs : Frame.splitHead? p with
  | none => simp [nextBody, hs] at h
  | some parts =>
    obtain ⟨head, rest⟩ := parts
    cases hl : (Frame.textOf? head).bind fun t => announcedLength (Text.lines t.toList) with
    | none => simp [nextBody, hs, hl] at h
    | some n =>
      by_cases far : addressLimit ≤ head.length + 4 + n
      · simp [nextBody, hs, Frame.splitHead?_append hs, hl, far, Reading.before]
      by_cases short : rest.length < n
      · simp [nextBody, hs, hl, far, short] at h
      have more : ¬ (rest ++ q).length < n := by simp only [List.length_append]; omega
      simp only [nextBody, hs, hl, if_neg far, if_neg short] at h ⊢
      simp only [Frame.splitHead?_append hs, hl, if_neg far, if_neg more,
        List.take_append_of_le_length (Nat.le_of_not_lt short),
        List.drop_append_of_le_length (Nat.le_of_not_lt short)]
      cases ht : Frame.textOf? (rest.take n) with
      | none => simp [ht] at h
      | some body => rfl

theorem nextBody_append_of_body {p rest : Bytes} {text : String} (h : nextBody p = .body text rest)
    (q : Bytes) : nextBody (p ++ q) = .body text (rest ++ q) := by
  rw [nextBody_append (by simp [h]), h, Reading.before]

theorem nextBody_append_of_crash {p : Bytes} (h : nextBody p = .crash) (q : Bytes) :
    nextBody (p ++ q) = .crash := by
  rw [nextBody_append (by simp [h]), h, Reading.before]

theorem attend_rest {s : MockServer} {bodies : List String}
    (h : (s.attend bodies).ending = none) : (s.attend bodies).rest = [] := by
  induction bodies generalizing s with
  | nil => rfl
  | cons text later ih =>
    rw [attend] at h ⊢
    cases read : Json.read? text with
    | none => exact ih (by simpa only [read] using h)
    | some message =>
      simp only [read] at h ⊢
      cases ends : (s.handle message).ending with
      | none =>
        simp only [ends] at h ⊢
        exact ih h
      | some e => simp [ends] at h

/-! ## Input in pieces -/

theorem run_of_waiting {s : MockServer} {buffer : Bytes} (h : nextBody buffer = .waiting) :
    s.run buffer = ⟨s, [], [], none, buffer⟩ := by
  rw [run]
  split <;> simp_all

theorem run_of_crash {s : MockServer} {buffer : Bytes} (h : nextBody buffer = .crash) :
    s.run buffer = ⟨s, [], [], some .crashed, buffer⟩ := by
  rw [run]
  split <;> simp_all

theorem run_of_noise {s : MockServer} {buffer rest : Bytes} {text : String}
    (h : nextBody buffer = .body text rest) (noise : Json.read? text = none) :
    s.run buffer = s.run rest := by
  rw [run]
  split <;> simp_all

theorem run_of_message {s : MockServer} {buffer rest : Bytes} {text : String} {message : Json}
    (h : nextBody buffer = .body text rest) (read : Json.read? text = some message) :
    s.run buffer =
      match (s.handle message).ending with
      | some e => ⟨(s.handle message).server, (s.handle message).sent, [message], some e, rest⟩
      | none => ((s.handle message).server.run rest).after (s.handle message).sent [message] := by
  rw [run]
  split <;> simp_all
  rfl

theorem run_frames (s : MockServer) {bodies : List String}
    (fits : ∀ body ∈ bodies, (encode body).length < addressLimit) :
    s.run (bodies.flatMap encode) = s.attend bodies := by
  induction bodies generalizing s with
  | nil => exact run_of_waiting rfl
  | cons body bodies ih =>
    have first := nextBody_encode (fits body List.mem_cons_self) (bodies.flatMap encode)
    have later := fun t => ih t fun later h => fits later (List.mem_cons_of_mem _ h)
    rw [List.flatMap_cons, attend]
    cases read : Json.read? body with
    | none => rw [run_of_noise first read, later]
    | some message => simp only [run_of_message first read, later]

/-- The server goes on behind what it has read. -/
theorem run_append {s : MockServer} {p : Bytes} (q : Bytes) :
    s.run (p ++ q) =
      match (s.run p).ending with
      | some _ => { s.run p with rest := (s.run p).rest ++ q }
      | none =>
        ((s.run p).server.run ((s.run p).rest ++ q)).after (s.run p).sent (s.run p).recorded := by
  fun_induction run s p with
  | case1 => rfl
  | case2 s p crash => exact run_of_crash (nextBody_append_of_crash crash q)
  | case3 s p text rest body _ noise ih =>
    rw [run_of_noise (nextBody_append_of_body body q) noise, ih]
  | case4 s p text rest body _ message read step e ends =>
    rw [run_of_message (nextBody_append_of_body body q) read, ends]
  | case5 s p text rest body _ message read step goes_on later ih =>
    rw [run_of_message (nextBody_append_of_body body q) read, goes_on, ih]
    cases h : later.ending with
    | some e => exact congrArg (MockRun.mk _ _ _ · _) h
    | none => exact MockRun.after_after _ _ _ _ _

theorem nextBody_rest_of_run {s : MockServer} {p : Bytes} (h : (s.run p).ending = none) :
    nextBody (s.run p).rest = .waiting := by
  fun_induction run s p with
  | case1 s p waiting => exact waiting
  | case2 => simp at h
  | case3 s p text rest body _ noise ih => exact ih h
  | case4 => simp at h
  | case5 s p text rest body _ message read step goes_on later ih => exact ih h

/-- What the server does with its input does not depend on how the input is cut. -/
theorem listen_same_run {s : MockServer} {buffer : Bytes} (start : nextBody buffer = .waiting)
    (pieces : List Bytes) : (s.listen buffer pieces).Same (s.run (buffer ++ pieces.flatten)) := by
  induction pieces generalizing s buffer with
  | nil => simp [listen, run_of_waiting start, MockRun.Same.refl]
  | cons piece later ih =>
    rw [List.flatten_cons, ← List.append_assoc, run_append, listen]
    cases h : (s.run (buffer ++ piece)).ending with
    | some e => exact ⟨rfl, rfl, rfl, rfl, fun free => absurd (h.symm.trans free) (by simp)⟩
    | none => exact (ih (nextBody_rest_of_run h)).after _ _

theorem listen_same_attend (s : MockServer) {bodies : List String} {pieces : List Bytes}
    (fits : ∀ body ∈ bodies, (encode body).length < addressLimit)
    (cut : pieces.flatten = bodies.flatMap encode) :
    (s.listen [] pieces).Same (s.attend bodies) := by
  have start : nextBody [] = .waiting := rfl
  have same := listen_same_run start pieces (s := s)
  rwa [List.nil_append, cut, run_frames s fits] at same

end LanguageHub.MockServer

/-!
# From the writer of a frame to its reader

The client and the mock server read frames with code of their own. Both get back exactly
what was framed, however the bytes arrive.
-/

open LanguageHub.Frame (receive)
open LanguageHub.Routine (gets modify)

namespace LanguageHub

/-- Reading on goes on where reading stopped. -/
theorem Frame.receive_append (buffer : Bytes) (pieces later : List Bytes) :
    receive buffer (pieces ++ later) =
      match (receive buffer pieces).buffer with
      | some rest =>
        (receive rest later).after (receive buffer pieces).bodies (receive buffer pieces).faults
      | none => receive buffer pieces := by
  induction pieces generalizing buffer with
  | nil => simp [receive, Reception.after]
  | cons piece pieces ih =>
    simp only [List.cons_append, receive]
    split
    · next rest _ =>
      rw [ih]
      cases h : (receive rest pieces).buffer <;> simp [Reception.after, h]
    · rw [ih]
      cases h : (receive [] pieces).buffer <;> simp [Reception.after, h]
    · rfl

/-- The reader of a client heeds what it receives. -/
theorem Client.heedFrames_eq (c : Nat) (piece : Bytes) :
    heedFrames c piece = (do
      let heard := receive (← gets (·.client c)).buffer [piece]
      heedAll c heard.bodies
      match heard.buffer with
      | some rest =>
        modify (Hub.onClient c fun client => { client with buffer := rest })
        pure true
      | none =>
        modify (Hub.onClient c breakDown)
        pure false) := by
  rw [heedFrames]
  congr 1
  funext client
  simp only [receive]
  rcases Frame.drain (client.buffer ++ piece) with ⟨bodies, _ | _ | _⟩ <;>
    simp [Frame.Reception.after]

/-- Frames reach a client and a mock server as they were written, each once and in order,
however their bytes are cut: nothing is unreadable and nothing is left over. What the mock
server writes in turn reaches the client in the same way. (The bytes of a frame have
addresses, which is what `fits` says.) -/
theorem frames_survive_any_cut (s : MockServer) {bodies : List String} {pieces : List Bytes}
    (fits : ∀ body ∈ bodies, (encode body).length < addressLimit)
    (cut : pieces.flatten = bodies.flatMap encode) :
    receive [] pieces = ⟨bodies, [], some []⟩ ∧
    ((s.listen [] pieces).Same (s.attend bodies) ∧
      ((s.listen [] pieces).ending = none → (s.listen [] pieces).rest = [])) ∧
    ∀ back : List Bytes,
      (∀ v ∈ (s.listen [] pieces).sent, (encode v.render).length < addressLimit) →
      back.flatten = (s.listen [] pieces).sent.flatMap (fun v => encode v.render) →
        receive [] back = ⟨(s.listen [] pieces).sent.map Json.render, [], some []⟩ := by
  have same := s.listen_same_attend fits cut
  refine ⟨Frame.receive_frames fits cut, ⟨same, fun free => ?_⟩, ?_⟩
  · rw [same.rest free, MockServer.attend_rest (same.ending ▸ free)]
  · intro back fits cut
    exact Frame.receive_frames (by simpa using fits) (by rw [cut, List.flatMap_map])

/-- A request, a text that looks like a frame, and an exit arrive byte by byte, and so does
the mock server's answer. -/
theorem frames_survive_byte_by_byte :
    let s := MockServer.start default
    let bodies := ["\x7b\"id\":1,\"method\":\"shutdown\"\x7d",
      "Content-Length: 3\r\n\r\né", "\x7b\"method\":\"exit\"\x7d"]
    let pieces := (bodies.flatMap encode).map ([·])
    let answer := "\x7b\"id\":1,\"jsonrpc\":\"2.0\",\"result\":null\x7d"
    receive [] pieces = ⟨bodies, [], some []⟩ ∧
      (s.listen [] pieces).ending = some .exit ∧
      (s.listen [] pieces).sent.map Json.render = [answer] ∧
      receive [] ((encode answer).map ([·])) = ⟨[answer], [], some []⟩ := by
  intro s bodies pieces answer
  have fits : ∀ body ∈ bodies, (encode body).length < addressLimit := by decide +kernel
  have cut : pieces.flatten = bodies.flatMap encode := by decide +kernel
  obtain ⟨heard, ⟨same, _⟩, back⟩ := frames_survive_any_cut s fits cut
  have sent : (s.listen [] pieces).sent.map Json.render = [answer] := by
    rw [same.sent]
    decide +kernel
  have ending : (s.attend bodies).ending = some .exit := by decide +kernel
  refine ⟨heard, same.ending.trans ending, sent, sent ▸ back _ ?_ ?_⟩
  · intro v hv
    have : v.render = answer := by
      have : v.render ∈ (s.listen [] pieces).sent.map Json.render := List.mem_map_of_mem hv
      simpa [sent] using this
    rw [this]
    decide +kernel
  · rw [← List.flatMap_map, sent]
    decide +kernel

end LanguageHub
