import LanguageHub.Event.Broadcast

/-!
# What is ahead of a subscriber

A subscriber that keeps up receives every item in its turn: what is ahead of it begins with what it
receives next and ends with what was sent last. Items that it has not seen are only lost when the
oldest item that is left lies ahead of it.
-/

namespace LanguageHub.Broadcast

variable {α : Type} {b : Broadcast α} {cursor : Nat}

/-- No more items are left than were sent. -/
def IsSound (b : Broadcast α) : Prop := b.retained.length ≤ b.sent

/-- What a subscriber that has seen `cursor` items has yet to receive, if nothing of it is lost. -/
def ahead (b : Broadcast α) (cursor : Nat) : List α := b.retained.drop (cursor - b.oldest)

theorem IsSound.send (hb : b.IsSound) (a : α) : (b.send a).IsSound := by
  have hleft : (b.send a).retained.length ≤ b.retained.length + 1 := by
    simp only [Broadcast.send, List.length_drop, List.length_append, List.length_singleton]
    omega
  exact Nat.le_trans hleft (Nat.succ_le_succ hb)

theorem oldest_add_length (hb : b.IsSound) : b.oldest + b.retained.length = b.sent :=
  Nat.sub_add_cancel hb

/-- What sending pushes out. -/
theorem oldest_send (hb : b.IsSound) (a : α) :
    (b.send a).oldest = b.oldest + (b.retained.length + 1 - b.capacity) := by
  have hcount := oldest_add_length hb
  simp only [oldest, Broadcast.send, List.length_drop, List.length_append, List.length_singleton]
    at hcount ⊢
  omega

theorem oldest_le_send (hb : b.IsSound) (a : α) : b.oldest ≤ (b.send a).oldest := by
  rw [oldest_send hb]
  exact Nat.le_add_right _ _

theorem ahead_sent (hb : b.IsSound) : b.ahead b.sent = [] := by
  have hcount := oldest_add_length hb
  exact List.drop_eq_nil_of_le (by omega)

theorem lt_sent_of_ahead (hb : b.IsSound) (hkept : b.oldest ≤ cursor) {a : α} {rest : List α}
    (hahead : b.ahead cursor = a :: rest) : cursor < b.sent := by
  have hcount := oldest_add_length hb
  have hlength := congrArg List.length hahead
  simp only [ahead, List.length_drop, List.length_cons] at hlength
  omega

theorem sent_le_of_ahead (hb : b.IsSound) (hkept : b.oldest ≤ cursor)
    (hahead : b.ahead cursor = []) : b.sent ≤ cursor := by
  have hcount := oldest_add_length hb
  have hlength := congrArg List.length hahead
  simp only [ahead, List.length_drop, List.length_nil] at hlength
  omega

/-- Unless it loses something, a subscriber has what is sent ahead of it as well. -/
theorem ahead_send (hb : b.IsSound) {a : α} (hcursor : cursor ≤ b.sent)
    (hkept : (b.send a).oldest ≤ cursor) : (b.send a).ahead cursor = b.ahead cursor ++ [a] := by
  have hcount := oldest_add_length hb
  have holdest := oldest_send hb a
  have hdropped : (b.send a).retained =
      (b.retained ++ [a]).drop (b.retained.length + 1 - b.capacity) := by
    simp [Broadcast.send]
  have hplace : b.retained.length + 1 - b.capacity + (cursor - (b.send a).oldest) =
      cursor - b.oldest := by omega
  unfold ahead
  rw [hdropped, List.drop_drop, hplace, List.drop_append_of_le_length (by omega)]

/-- A subscriber that lost nothing receives what comes first of what is ahead of it. -/
theorem receive_of_kept (hkept : b.oldest ≤ cursor) : b.receive cursor =
    match b.ahead cursor with
    | a :: _ => (.item a, cursor + 1)
    | [] => (.empty, cursor) := by
  unfold receive ahead
  rw [if_neg (Nat.not_lt_of_le hkept)]
  cases hahead : b.retained.drop (cursor - b.oldest) with
  | nil =>
    rw [List.drop_eq_nil_iff] at hahead
    rw [List.getElem?_eq_none hahead]
  | cons a rest =>
    have hfirst : b.retained[cursor - b.oldest]? = some a := by
      rw [← List.head?_drop, hahead]
      rfl
    rw [hfirst]

theorem ahead_succ (hkept : b.oldest ≤ cursor) : b.ahead (cursor + 1) = (b.ahead cursor).tail := by
  unfold ahead
  rw [List.tail_drop, Nat.succ_sub hkept]

end LanguageHub.Broadcast
