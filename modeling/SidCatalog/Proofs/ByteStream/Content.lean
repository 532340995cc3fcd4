import SidCatalog.Proofs.ByteStream.Delivery

/-! What a stream brings before it first reports the end or fails. A read that wants no more than that takes just
what it wants; one that wants more comes to the end or to the fault. -/

namespace SidCatalog.ByteStream

/-- The bytes that come before the first report of the end or the first fault. -/
def incoming : ByteStream → Bytes
  | drained => []
  | broken _ => []
  | fault _ _ => []
  | interrupted next => next.incoming
  | piece bs next => if bs = [] then [] else bs ++ next.incoming

def failure? : ByteStream → Option OsFault
  | drained => none
  | broken f => some f
  | fault f _ => some f
  | interrupted next => next.failure?
  | piece bs next => if bs = [] then none else next.failure?

/-- What reading to the end comes to: all of the bytes, or the fault without any. -/
def whole (s : ByteStream) : Except OsFault Bytes :=
  match s.failure? with
  | none => .ok s.incoming
  | some f => .error f

theorem whole_piece {bs : Bytes} (hbs : bs ≠ []) (next : ByteStream) :
    (piece bs next).whole = next.whole.map (bs ++ ·) := by
  simp only [whole, failure?, incoming, if_neg hbs]
  cases next.failure? <;> rfl

theorem whole_eq_map_take {s rest : ByteStream} {n : Nat} (hincoming : rest.incoming = s.incoming.drop n)
    (hfailure : rest.failure? = s.failure?) : s.whole = rest.whole.map (s.incoming.take n ++ ·) := by
  rw [whole, whole, hincoming, hfailure]
  cases s.failure? with
  | some f => rfl
  | none => rw [Except.map, List.take_append_drop]

theorem incoming_unread (s : ByteStream) (bs : Bytes) : (s.unread bs).incoming = bs ++ s.incoming := by
  unfold unread
  split
  · next hbs => rw [hbs, List.nil_append]
  · next hbs => rw [incoming, if_neg hbs]

theorem failure?_unread (s : ByteStream) (bs : Bytes) : (s.unread bs).failure? = s.failure? := by
  unfold unread
  split
  · rfl
  · next hbs => rw [failure?, if_neg hbs]

theorem Delivers.whole_eq {s : ByteStream} {content : Bytes} (h : s.Delivers content) : s.whole = .ok content := by
  induction h with
  | drained => rfl
  | ended _ _ => rfl
  | piece hbs _ ih => rw [whole_piece hbs, ih, Except.map]
  | interrupted _ ih => exact ih

theorem length_fill_le {s : ByteStream} {want : Nat} {chunk : Bytes} (h : (s.fill want).1 = .ok chunk) :
    chunk.length ≤ want := by
  induction s generalizing want chunk with
  | drained =>
    cases h
    exact Nat.zero_le want
  | broken f => cases h
  | fault f next _ => cases h
  | interrupted next ih => exact ih h
  | piece bs next ih =>
    simp only [fill] at h
    split at h
    · cases h
      exact Nat.zero_le want
    · split at h
      · next hlt =>
        cases hmore : (next.fill (want - bs.length)).1 with
        | error f =>
          rw [hmore] at h
          cases h
        | ok more =>
          rw [hmore] at h
          cases h
          have hle := ih hmore
          rw [List.length_append]
          omega
      · cases h
        exact List.length_take_le want bs

theorem fill_of_lt {s : ByteStream} {want : Nat} (h : s.incoming.length < want) : (s.fill want).1 = s.whole := by
  induction s generalizing want with
  | drained => rfl
  | broken f => rfl
  | fault f next _ => rfl
  | interrupted next ih => exact ih h
  | piece bs next ih =>
    by_cases hbs : bs = []
    · simp [fill, whole, failure?, incoming, hbs]
    · rw [incoming, if_neg hbs, List.length_append] at h
      have hlt : bs.length < want := by omega
      have hmore : next.incoming.length < want - bs.length := by omega
      simp only [fill, if_neg hbs, if_pos hlt, ih hmore, whole_piece hbs]

theorem fill_of_le {s : ByteStream} {want : Nat} (hpos : 0 < want) (h : want ≤ s.incoming.length) :
    ∃ rest, s.fill want = (.ok (s.incoming.take want), rest) ∧ rest.incoming = s.incoming.drop want ∧
      rest.failure? = s.failure? := by
  induction s generalizing want with
  | drained => exact absurd (Nat.lt_of_lt_of_le hpos h) (Nat.lt_irrefl 0)
  | broken f => exact absurd (Nat.lt_of_lt_of_le hpos h) (Nat.lt_irrefl 0)
  | fault f next _ => exact absurd (Nat.lt_of_lt_of_le hpos h) (Nat.lt_irrefl 0)
  | interrupted next ih => exact ih hpos h
  | piece bs next ih =>
    by_cases hbs : bs = []
    · rw [incoming, if_pos hbs] at h
      exact absurd (Nat.lt_of_lt_of_le hpos h) (Nat.lt_irrefl 0)
    · simp only [incoming, if_neg hbs, List.length_append, failure?, fill] at h ⊢
      -- The piece is used up and the rest is wanted of the next ones, or what is left of it is put back.
      rcases Nat.lt_or_ge bs.length want with hlt | hge
      · have hmore : 0 < want - bs.length := by omega
        have hmore' : want - bs.length ≤ next.incoming.length := by omega
        obtain ⟨rest, hfill, hincoming, hfailure⟩ := ih hmore hmore'
        refine ⟨rest, ?_, ?_, hfailure⟩
        · rw [if_pos hlt, hfill, List.take_append, List.take_of_length_le (Nat.le_of_lt hlt)]
          rfl
        · rw [hincoming, List.drop_append, List.drop_of_length_le (Nat.le_of_lt hlt), List.nil_append]
      · refine ⟨next.unread (bs.drop want), ?_, ?_, failure?_unread _ _⟩
        · rw [if_neg (Nat.not_lt.2 hge), List.take_append_of_le_length hge]
        · rw [incoming_unread, List.drop_append_of_le_length hge]

end SidCatalog.ByteStream
