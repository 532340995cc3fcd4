/-! Byte strings, and texts as UTF-8 bytes. Offsets into a line count bytes, so a text is cut by `cut?` after a
number of bytes, which fails inside a character and beyond the end. -/

namespace SidCatalog

abbrev Bytes := List UInt8

namespace Text

def bytes (s : String) : Bytes := s.toByteArray.toList

def byteLength (s : List Char) : Nat := s.foldr (fun c n => c.utf8Size + n) 0

/-- The characters before and after byte `n`, unless `n` is beyond the end or inside a character. -/
def cut? : Nat → List Char → Option (List Char × List Char)
  | 0, s => some ([], s)
  | _ + 1, [] => none
  | n + 1, c :: s =>
    if c.utf8Size ≤ n + 1 then
      (cut? (n + 1 - c.utf8Size) s).map fun p => (c :: p.1, p.2)
    else none

def latin1 (bs : Bytes) : String := String.ofList (bs.map Char.ofUInt8)

/-- The text with these UTF-8 bytes, or the Latin-1 reading when there is none. -/
def decode (bs : Bytes) : String :=
  (String.fromUTF8? bs.toByteArray).getD (latin1 bs)

@[simp] theorem byteLength_nil : byteLength [] = 0 := rfl

@[simp] theorem byteLength_cons (c : Char) (s : List Char) :
    byteLength (c :: s) = c.utf8Size + byteLength s := rfl

@[simp] theorem byteLength_append (s t : List Char) :
    byteLength (s ++ t) = byteLength s + byteLength t := by
  induction s with
  | nil => simp
  | cons c s ih =>
    rw [List.cons_append, byteLength_cons, byteLength_cons, ih, Nat.add_assoc]

theorem append_of_cut? {n : Nat} {s a b : List Char} (h : cut? n s = some (a, b)) :
    s = a ++ b ∧ byteLength a = n := by
  induction s generalizing n a b with
  | nil =>
    cases n with
    | zero =>
      simp only [cut?, Option.some.injEq, Prod.mk.injEq] at h
      simp [← h.1, ← h.2]
    | succ n => simp [cut?] at h
  | cons c s ih =>
    cases n with
    | zero =>
      simp only [cut?, Option.some.injEq, Prod.mk.injEq] at h
      simp [← h.1, ← h.2]
    | succ n =>
      simp only [cut?] at h
      split at h
      · next hc =>
        obtain ⟨⟨a', b'⟩, hp, he⟩ := Option.map_eq_some_iff.1 h
        obtain ⟨rfl, rfl⟩ := Prod.mk.inj he
        obtain ⟨rfl, hn⟩ := ih hp
        exact ⟨rfl, by simp only [byteLength_cons, hn]; omega⟩
      · cases h

theorem cut?_append (a b : List Char) : cut? (byteLength a) (a ++ b) = some (a, b) := by
  induction a with
  | nil => cases b <;> rfl
  | cons c a ih =>
    have hc := c.utf8Size_pos
    obtain ⟨n, hn⟩ : ∃ n, c.utf8Size + byteLength a = n + 1 := ⟨c.utf8Size + byteLength a - 1, by omega⟩
    rw [byteLength_cons, hn, List.cons_append, cut?, if_pos (by omega),
      show n + 1 - c.utf8Size = byteLength a by omega, ih]
    rfl

end Text

end SidCatalog
