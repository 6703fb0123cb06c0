import LanguageHub.Proofs.Wire.Framing

/-!
# A stream read in pieces

A reader gets a stream in pieces that may end anywhere. How the stream is cut does not
matter as long as one look at the whole of it leaves nothing that could be taken. A header
block without a length makes the reader pause, so that what is behind it may come later;
nothing is lost, doubled or moved by that.
-/

namespace LanguageHub.Frame

/-- What a reader has handed on, what it found unreadable, and what is left in its buffer;
nothing is left when it broke down. -/
structure Reception where
  bodies : List String
  faults : List Fault
  buffer : Option Bytes
  deriving DecidableEq, Repr

/-- What was handed on before comes first. -/
def Reception.after (r : Reception) (bodies : List String) (faults : List Fault) : Reception :=
  { r with bodies := bodies ++ r.bodies, faults := faults ++ r.faults }

/-- Puts each piece behind the buffer and takes out of it what can be taken. -/
def receive (buffer : Bytes) : List Bytes → Reception
  | [] => ⟨[], [], some buffer⟩
  | piece :: later =>
    match drain (buffer ++ piece) with
    | (bodies, .waiting rest) => (receive rest later).after bodies []
    | (bodies, .cleared fault) => (receive [] later).after bodies [fault]
    | (bodies, .broken) => ⟨bodies, [.beyondMemory], none⟩

/-- How a fault leaves the receive buffer. -/
def Fault.stop : Fault → Drained
  | beyondMemory => .broken
  | fault => .cleared fault

/-! ## One look at the buffer -/

/-- Nothing can be taken from the buffer before more bytes are there. -/
def Settled (buffer : Bytes) : Prop := take buffer = (.ok none, buffer)

theorem Settled.nil : Settled [] := rfl

theorem Settled.left {p q : Bytes} (h : Settled (p ++ q)) : Settled p := by
  refine Classical.byContradiction fun other => ?_
  have := (take_append other q).symm.trans h
  simp only [Prod.mk.injEq, List.append_left_inj] at this
  exact other (Prod.ext this.1 this.2)

theorem take_append_of_body {p rest : Bytes} {body : String}
    (h : take p = (.ok (some body), rest)) (q : Bytes) :
    take (p ++ q) = (.ok (some body), rest ++ q) := by
  rw [take_append (by simp [h]), h]

theorem take_append_of_fault {p rest : Bytes} {fault : Fault}
    (h : take p = (.error fault, rest)) (q : Bytes) :
    take (p ++ q) = (.error fault, rest ++ q) := by
  rw [take_append (by simp [h]), h]

/-- The reader waits, or a header block is gone. -/
theorem settled_or_dropped {p rest : Bytes} (h : take p = (.ok none, rest)) :
    rest = p ∧ Settled p ∨ ∀ q, take (p ++ q) = (.ok none, rest ++ q) := by
  by_cases settled : Settled p
  · exact .inl ⟨congrArg Prod.snd (h.symm.trans settled), settled⟩
  · exact .inr fun q => by rw [take_append settled, h]

/-! ## Taking until nothing more is there -/

theorem drain_of_body {buffer rest : Bytes} {body : String}
    (h : take buffer = (.ok (some body), rest)) :
    drain buffer = (body :: (drain rest).1, (drain rest).2) := by
  rw [drain]
  split <;> simp_all

theorem drain_of_pause {buffer rest : Bytes} (h : take buffer = (.ok none, rest)) :
    drain buffer = ([], .waiting rest) := by
  rw [drain]
  split <;> simp_all

theorem drain_of_fault {buffer rest : Bytes} {fault : Fault}
    (h : take buffer = (.error fault, rest)) : drain buffer = ([], fault.stop) := by
  rw [drain]
  cases fault <;> split <;> simp_all [Fault.stop]

/-- What stops the reader stops it in a longer buffer too. -/
theorem drain_append_of_stop {p : Bytes} (h : ∀ rest, (drain p).2 ≠ .waiting rest) (q : Bytes) :
    drain (p ++ q) = drain p := by
  fun_induction drain p with
  | case1 p body rest ht _ bodies stop hd ih =>
    rw [drain_of_body (take_append_of_body ht q), ih fun r => by simpa [hd] using h r, hd]
  | case2 _ rest => exact absurd rfl (h rest)
  | case3 p rest ht => exact drain_of_fault (take_append_of_fault ht q)
  | case4 p fault rest other ht =>
    rw [drain_of_fault (take_append_of_fault ht q), Fault.stop]
    exact other

/-- Where the reader of a whole stream waits in the end, the reader of its beginning waits too. -/
theorem waits_of_append {p q rest : Bytes} {bodies : List String}
    (whole : drain (p ++ q) = (bodies, .waiting rest)) :
    ∃ early r, drain p = (early, .waiting r) := by
  refine Classical.byContradiction fun h => ?_
  have stops : ∀ r, (drain p).2 ≠ .waiting r := fun r e => h ⟨_, r, Prod.ext rfl e⟩
  exact stops rest (by rw [← drain_append_of_stop stops, whole])

/-- What is taken from the beginning of a stream is the beginning of what is taken from
the whole of it, when that leaves nothing behind. -/
theorem drain_append {p q r rest : Bytes} {early bodies : List String}
    (part : drain p = (early, .waiting r)) (whole : drain (p ++ q) = (bodies, .waiting rest))
    (settled : Settled rest) :
    ∃ late, drain (r ++ q) = (late, .waiting rest) ∧ bodies = early ++ late ∧ Settled r := by
  fun_induction drain p generalizing early bodies with
  | case1 p body tail ht _ taken stop hd ih =>
    simp only [Prod.mk.injEq] at part
    obtain ⟨rfl, rfl⟩ := part
    rw [drain_of_body (take_append_of_body ht q)] at whole
    simp only [Prod.mk.injEq] at whole
    obtain ⟨rfl, stays⟩ := whole
    obtain ⟨late, later, all, settled⟩ := ih hd (Prod.ext rfl stays)
    exact ⟨late, later, congrArg (body :: ·) all, settled⟩
  | case2 p tail ht =>
    simp only [Prod.mk.injEq, Drained.waiting.injEq] at part
    obtain ⟨rfl, rfl⟩ := part
    rcases settled_or_dropped ht with ⟨rfl, here⟩ | dropped
    · exact ⟨bodies, whole, rfl, here⟩
    · rw [drain_of_pause (dropped q)] at whole
      simp only [Prod.mk.injEq, Drained.waiting.injEq] at whole
      obtain ⟨rfl, rfl⟩ := whole
      exact ⟨[], drain_of_pause settled, rfl, settled.left⟩
  | case3 => simp at part
  | case4 => simp at part

/-! ## How a stream is cut -/

theorem receive_of_wait {buffer piece rest : Bytes} {bodies : List String}
    (h : drain (buffer ++ piece) = (bodies, .waiting rest)) (later : List Bytes) :
    receive buffer (piece :: later) = (receive rest later).after bodies [] := by
  rw [receive, h]

/-- However a stream is cut, the reader hands on the bodies that one look at the whole
stream finds, when that look leaves nothing that could be taken. -/
theorem receive_of_drain {buffer rest : Bytes} {pieces : List Bytes} {bodies : List String}
    (start : Settled buffer)
    (whole : drain (buffer ++ pieces.flatten) = (bodies, .waiting rest)) (settled : Settled rest) :
    receive buffer pieces = ⟨bodies, [], some rest⟩ := by
  induction pieces generalizing buffer bodies with
  | nil =>
    rw [List.flatten_nil, List.append_nil, drain_of_pause start] at whole
    simp only [Prod.mk.injEq, Drained.waiting.injEq] at whole
    obtain ⟨rfl, rfl⟩ := whole
    rfl
  | cons piece later ih =>
    rw [List.flatten_cons, ← List.append_assoc] at whole
    obtain ⟨early, r, part⟩ := waits_of_append whole
    obtain ⟨late, more, rfl, start⟩ := drain_append part whole settled
    simp [receive_of_wait part, ih start more, Reception.after]

theorem drain_frames_append {bodies : List String} {part : Bytes}
    (fits : ∀ body ∈ bodies, (encode body).length < addressLimit) (settled : Settled part) :
    drain (bodies.flatMap encode ++ part) = (bodies, .waiting part) := by
  induction bodies with
  | nil => exact drain_of_pause settled
  | cons body bodies ih =>
    have first := take_encode (fits body List.mem_cons_self) (bodies.flatMap encode ++ part)
    rw [List.flatMap_cons, List.append_assoc, drain_of_body first,
      ih fun later h => fits later (List.mem_cons_of_mem _ h)]

theorem drain_frames {bodies : List String}
    (fits : ∀ body ∈ bodies, (encode body).length < addressLimit) :
    drain (bodies.flatMap encode) = (bodies, .waiting []) := by
  rw [← List.append_nil (bodies.flatMap encode), drain_frames_append fits Settled.nil]

/-- Frames one behind the other are taken out as they were put in, however they are cut. -/
theorem receive_frames {bodies : List String} {pieces : List Bytes}
    (fits : ∀ body ∈ bodies, (encode body).length < addressLimit)
    (cut : pieces.flatten = bodies.flatMap encode) :
    receive [] pieces = ⟨bodies, [], some []⟩ :=
  receive_of_drain Settled.nil (by rw [List.nil_append, cut, drain_frames fits]) Settled.nil

/-! ## Streams that are not well formed -/

theorem length_take_of_pause {buffer rest : Bytes} (h : take buffer = (.ok none, rest)) :
    rest = buffer ∨ rest.length < buffer.length := by
  unfold take at h
  split at h
  · simp_all
  · next head tail hs =>
    have := length_splitHead? hs
    split at h
    · simp at h
    · simp only [Prod.mk.injEq, true_and] at h
      exact .inr (by rw [← h]; omega)
    · split at h
      · simp at h
      · split at h
        · simp_all
        · split at h <;> simp at h

/-- The bodies in a stream up to the first fault, and how it stops the reader. A header
block that is dropped does not make it pause. -/
def contents (stream : Bytes) : List String × Drained :=
  match h : take stream with
  | (.ok (some body), rest) =>
    have := length_take_lt h
    let (bodies, stop) := contents rest
    (body :: bodies, stop)
  | (.ok none, rest) =>
    if _dropped : rest.length < stream.length then contents rest else ([], .waiting rest)
  | (.error fault, _) => ([], fault.stop)
termination_by stream.length

theorem contents_of_body {stream rest : Bytes} {body : String}
    (h : take stream = (.ok (some body), rest)) :
    contents stream = (body :: (contents rest).1, (contents rest).2) := by
  rw [contents]
  split <;> simp_all

theorem contents_of_block {stream rest : Bytes} (h : take stream = (.ok none, rest))
    (dropped : rest.length < stream.length) : contents stream = contents rest := by
  rw [contents]
  split <;> simp_all

theorem contents_of_fault {stream rest : Bytes} {fault : Fault}
    (h : take stream = (.error fault, rest)) : contents stream = ([], fault.stop) := by
  rw [contents]
  split <;> simp_all

theorem contents_append_of_wait {p q r : Bytes} {early : List String}
    (part : drain p = (early, .waiting r)) :
    contents (p ++ q) = (early ++ (contents (r ++ q)).1, (contents (r ++ q)).2) := by
  fun_induction drain p generalizing early with
  | case1 p body tail ht _ taken stop hd ih =>
    simp only [Prod.mk.injEq] at part
    obtain ⟨rfl, rfl⟩ := part
    rw [contents_of_body (take_append_of_body ht q), ih hd]
    rfl
  | case2 p tail ht =>
    simp only [Prod.mk.injEq, Drained.waiting.injEq] at part
    obtain ⟨rfl, rfl⟩ := part
    rcases settled_or_dropped ht with ⟨rfl, _⟩ | dropped
    · rfl
    · rcases length_take_of_pause ht with rfl | shorter
      · rfl
      · exact contents_of_block (dropped q) (by simpa using shorter)
  | case3 => simp at part
  | case4 => simp at part

theorem contents_append_of_stop {p : Bytes} (h : ∀ rest, (drain p).2 ≠ .waiting rest) (q : Bytes) :
    contents (p ++ q) = drain p := by
  fun_induction drain p with
  | case1 p body rest ht _ bodies stop hd ih =>
    rw [contents_of_body (take_append_of_body ht q), ih fun r => by simpa [hd] using h r, hd]
  | case2 _ rest => exact absurd rfl (h rest)
  | case3 p rest ht => exact contents_of_fault (take_append_of_fault ht q)
  | case4 p fault rest other ht =>
    rw [contents_of_fault (take_append_of_fault ht q), Fault.stop]
    exact other

theorem waits_or_stops (p : Bytes) :
    (∃ r, (drain p).2 = .waiting r) ∨ ∃ fault, (drain p).2 = Fault.stop fault := by
  fun_induction drain p with
  | case1 p body rest ht _ bodies stop hd ih => simpa [hd] using ih
  | case2 p rest ht => exact .inl ⟨rest, rfl⟩
  | case3 p rest ht => exact .inr ⟨.beyondMemory, rfl⟩
  | case4 p fault rest other ht =>
    refine .inr ⟨fault, ?_⟩
    rw [Fault.stop]
    exact other

theorem Fault.stop_ne_waiting (fault : Fault) (rest : Bytes) : fault.stop ≠ .waiting rest := by
  cases fault <;> simp [stop]

/-- However a stream is cut, a reader hands on its bodies in order: some of them, with all
the others still in the buffer, or all up to the first fault. -/
theorem receive_of_any_cut (buffer : Bytes) (pieces : List Bytes) :
    (∃ early left, receive buffer pieces = ⟨early, [], some left⟩ ∧
      contents (buffer ++ pieces.flatten) = (early ++ (contents left).1, (contents left).2)) ∨
    ∃ bodies fault later, contents (buffer ++ pieces.flatten) = (bodies, Fault.stop fault) ∧
      receive buffer pieces = Reception.after later bodies [fault] := by
  induction pieces generalizing buffer with
  | nil => exact .inl ⟨[], buffer, rfl, by simp⟩
  | cons piece later ih =>
    rw [List.flatten_cons, ← List.append_assoc]
    rcases waits_or_stops (buffer ++ piece) with ⟨r, waits⟩ | ⟨fault, stops⟩
    · have part : drain (buffer ++ piece) = ((drain (buffer ++ piece)).1, .waiting r) :=
        Prod.ext rfl waits
      rw [contents_append_of_wait part, receive_of_wait part]
      rcases ih r with ⟨early, left, heard, rest⟩ | ⟨bodies, fault, more, rest, heard⟩
      · exact .inl ⟨_, left, by rw [heard]; rfl, by rw [rest, List.append_assoc]⟩
      · refine .inr ⟨_, fault, more, by rw [rest], ?_⟩
        simp [heard, Reception.after]
    · rw [contents_append_of_stop fun r => stops ▸ fault.stop_ne_waiting r]
      have part : drain (buffer ++ piece) = ((drain (buffer ++ piece)).1, fault.stop) :=
        Prod.ext rfl stops
      rw [receive, part]
      cases fault with
      | beyondMemory =>
        exact .inr ⟨_, .beyondMemory, ⟨[], [], none⟩, rfl, by simp [Fault.stop, Reception.after]⟩
      | _ => exact .inr ⟨_, _, receive [] later, rfl, rfl⟩

theorem drain_frame {body : String} (fits : (encode body).length < addressLimit) :
    drain (encode body) = ([body], .waiting []) := by
  have first := take_encode fits []
  rw [List.append_nil] at first
  rw [drain_of_body first, drain_of_pause Settled.nil]

/-- A frame behind a header block without a length waits for more bytes when it came with
the block, and is heard when it came after it. -/
theorem receive_behind_block {block : Bytes} {body : String} (dropped : take block = (.ok none, []))
    (some_bytes : block ≠ []) (fits : (encode body).length < addressLimit) :
    receive [] [block ++ encode body] = ⟨[], [], some (encode body)⟩ ∧
      receive [] [block, encode body] = ⟨[body], [], some []⟩ := by
  have block_first : take (block ++ encode body) = (.ok none, encode body) := by
    rcases settled_or_dropped dropped with ⟨e, _⟩ | h
    · exact absurd e.symm some_bytes
    · exact h _
  constructor
  · simp [receive, drain_of_pause block_first, Reception.after]
  · simp [receive, drain_of_pause dropped, drain_frame fits, Reception.after]

theorem cut_decides_what_is_heard :
    let block := bytesOf "X-Trace: 1\r\n\r\n".toList
    let frame := encode "null"
    (receive [] [block ++ frame]).bodies = [] ∧ (receive [] [block, frame]).bodies = ["null"] := by
  intro block frame
  have dropped : take block = (.ok none, []) := rfl
  have fits : (encode "null").length < addressLimit := by decide +kernel
  obtain ⟨together, apart⟩ := receive_behind_block dropped (by decide +kernel) fits
  exact ⟨congrArg Reception.bodies together, congrArg Reception.bodies apart⟩

/-- A frame behind an unreadable one is lost when both came together, and is heard when it
came after it. -/
theorem receive_behind_fault {bad rest : Bytes} {body : String} {fault : Fault}
    (unreadable : take bad = (.error fault, rest)) (goes_on : fault ≠ .beyondMemory)
    (fits : (encode body).length < addressLimit) :
    receive [] [bad ++ encode body] = ⟨[], [fault], some []⟩ ∧
      receive [] [bad, encode body] = ⟨[body], [fault], some []⟩ := by
  have clears : fault.stop = .cleared fault := by cases fault <;> simp_all [Fault.stop]
  constructor
  · simp [receive, drain_of_fault (take_append_of_fault unreadable _), clears, Reception.after]
  · simp [receive, drain_of_fault unreadable, clears, drain_frame fits,
      Reception.after]

end LanguageHub.Frame
