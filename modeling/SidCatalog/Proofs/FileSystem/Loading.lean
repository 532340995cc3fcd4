import Mathlib.Logic.Relation
import Mathlib.SetTheory.Cardinal.Finite
import SidCatalog.FileSystem
import SidCatalog.Proofs.ByteStream.Content

/-! Loading whole files. The buffer is always a doubling of one chunk, filled with whole chunks, so the next chunk
has its place in it. In whatever pieces a stream brings its bytes, a load comes to just these bytes or to the fault
that the stream ends with, and every doubling that the bytes need is logged once. -/

namespace SidCatalog.FileSystem

def loadLog (path : String) (k : Nat) : List Event :=
  (List.range k).map fun i => .loadBufferGrown path (chunkSize * 2 ^ (i + 1))

theorem loadLog_succ (path : String) (k : Nat) :
    loadLog path (k + 1) = loadLog path k ++ [.loadBufferGrown path (chunkSize * 2 ^ (k + 1))] := by
  rw [loadLog, List.range_succ, List.map_append, List.map_singleton, loadLog]

namespace Loading

variable {path : String} {limit k : Nat} {l next : Loading}

/-- The buffer has doubled `k` times, each time because its chunks were filled, and whole chunks of it are filled. -/
structure IsAligned (l : Loading) (k : Nat) : Prop where
  length_buffer : l.buffer.length = chunkSize * 2 ^ k
  dvd_offset : chunkSize ∣ l.offset
  offset_le : l.offset ≤ l.buffer.length
  le_offset : ∀ i < k, chunkSize * 2 ^ i ≤ l.offset

def content (l : Loading) : Except OsFault Bytes := l.stream.whole.map (l.loaded ++ ·)

def reach (l : Loading) : Nat := l.offset + l.stream.incoming.length

def Leads (path : String) (limit : Nat) (l next : Loading) : Prop := l.turn path limit = .goesOn next

@[simp] theorem offset_makeRoom (l : Loading) : l.makeRoom.offset = l.offset := by
  unfold makeRoom
  split <;> rfl

@[simp] theorem offset_write (l : Loading) (chunk : Bytes) (stream : ByteStream) :
    (l.write chunk stream).offset = l.offset + chunk.length := rfl

theorem loaded_makeRoom (h : l.offset ≤ l.buffer.length) : l.makeRoom.loaded = l.loaded := by
  rw [loaded, offset_makeRoom, makeRoom]
  split
  · exact List.take_append_of_le_length h
  · rfl

theorem length_loaded (h : l.offset ≤ l.buffer.length) : l.loaded.length = l.offset :=
  List.length_take_of_le h

theorem loaded_write (h : l.offset ≤ l.buffer.length) (chunk : Bytes) (stream : ByteStream) :
    (l.write chunk stream).loaded = l.loaded ++ chunk := by
  have hlength : l.offset + chunk.length = (l.loaded ++ chunk).length := by
    rw [List.length_append, length_loaded h]
  change (l.loaded ++ chunk ++ _).take (l.offset + chunk.length) = _
  rw [hlength, List.take_left]

theorem IsAligned.makeRoom (h : l.IsAligned k) (path : String) :
    ∃ k', l.makeRoom.IsAligned k' ∧ l.offset + chunkSize ≤ l.makeRoom.buffer.length ∧
      loadLog path k ++ l.growth path = loadLog path k' := by
  have hlength := h.length_buffer
  by_cases hfull : l.offset = l.buffer.length
  · have hroom : l.makeRoom = { l with buffer := l.buffer ++ List.replicate l.buffer.length 0 } :=
      if_pos (decide_eq_true hfull)
    have hgrowth : l.growth path = [.loadBufferGrown path (2 * l.buffer.length)] :=
      if_pos (decide_eq_true hfull)
    have hdouble : chunkSize * 2 ^ (k + 1) = 2 * l.buffer.length := by
      rw [hlength, Nat.pow_succ, Nat.mul_comm (2 ^ k), Nat.mul_left_comm]
    have hchunk : chunkSize ≤ l.buffer.length := by
      rw [hlength]
      exact Nat.le_mul_of_pos_right _ (Nat.two_pow_pos k)
    have hlength' : l.makeRoom.buffer.length = 2 * l.buffer.length := by
      rw [hroom, List.length_append, List.length_replicate]
      omega
    refine ⟨k + 1, ⟨?_, ?_, ?_, fun i hi => ?_⟩, ?_, ?_⟩
    · rw [hlength', hdouble]
    · rw [offset_makeRoom]
      exact h.dvd_offset
    · rw [offset_makeRoom]
      omega
    · rw [offset_makeRoom]
      rcases Nat.lt_succ_iff_lt_or_eq.1 hi with hlt | rfl
      · exact h.le_offset i hlt
      · omega
    · omega
    · rw [loadLog_succ, hgrowth, hdouble]
  · have hroom : l.makeRoom = l := if_neg (by simpa [isFull] using hfull)
    have hgrowth : l.growth path = [] := if_neg (by simpa [isFull] using hfull)
    have hdvd : chunkSize ∣ l.buffer.length := by
      rw [hlength]
      exact Nat.dvd_mul_right ..
    have hlt := Nat.lt_of_le_of_ne h.offset_le hfull
    rw [hroom, hgrowth, List.append_nil]
    refine ⟨k, h, ?_, rfl⟩
    -- The offset and the length of the buffer are whole chunks, so they differ by a chunk at least.
    exact Nat.le_of_lt_add_of_dvd (Nat.add_lt_add_right hlt _) (Nat.dvd_add_self_right.2 h.dvd_offset) hdvd

theorem IsAligned.write (h : l.IsAligned k) (hroom : l.offset + chunkSize ≤ l.buffer.length) {chunk : Bytes}
    (hchunk : chunk.length = chunkSize) (stream : ByteStream) : (l.write chunk stream).IsAligned k := by
  have hlength : (l.write chunk stream).buffer.length = l.buffer.length := by
    change (l.loaded ++ chunk ++ l.buffer.drop (l.offset + chunk.length)).length = _
    rw [List.length_append, List.length_append, List.length_drop, length_loaded h.offset_le, hchunk]
    omega
  have hoffset : (l.write chunk stream).offset = l.offset + chunkSize := by rw [offset_write, hchunk]
  refine ⟨?_, ?_, ?_, fun i hi => ?_⟩
  · rw [hlength, h.length_buffer]
  · rw [hoffset]
    exact Nat.dvd_add_self_right.2 h.dvd_offset
  · rw [hoffset, hlength]
    exact hroom
  · rw [hoffset]
    exact Nat.le_add_right_of_le (h.le_offset i hi)

theorem isAligned_start (stream : ByteStream) : IsAligned { stream } 0 where
  length_buffer := by rw [Nat.pow_zero, Nat.mul_one, List.length_replicate]
  dvd_offset := Nat.dvd_zero _
  offset_le := Nat.zero_le _
  le_offset _ hi := absurd hi (Nat.not_lt_zero _)

theorem IsAligned.turn (h : l.IsAligned k) (hturn : Leads path limit l next) : ∃ k', next.IsAligned k' := by
  obtain ⟨chunk, stream, hfill, hfull, rfl, -⟩ := turn_eq_goesOn hturn
  obtain ⟨k', haligned, hroom, -⟩ := h.makeRoom path
  have hchunk : chunk.length ≤ chunkSize := ByteStream.length_fill_le (by rw [hfill])
  rw [← offset_makeRoom] at hroom
  exact ⟨k', haligned.write hroom (Nat.le_antisymm hchunk hfull) stream⟩

theorem exists_isAligned {stream : ByteStream} (h : Relation.ReflTransGen (Leads path limit) { stream } l) :
    ∃ k, l.IsAligned k := by
  induction h with
  | refl => exact ⟨0, isAligned_start stream⟩
  | tail _ hturn ih =>
    obtain ⟨k, hk⟩ := ih
    exact hk.turn hturn

theorem IsAligned.turn_of_lt (h : l.IsAligned k) (hshort : l.stream.incoming.length < chunkSize)
    (hlimit : l.reach ≤ limit) : l.turn path limit = .ended (l.content.mapError (.io path)) := by
  obtain ⟨k', haligned, -⟩ := h.makeRoom path
  have hfill := ByteStream.fill_of_lt hshort
  cases hread : l.stream.fill chunkSize with
  | mk got rest =>
    rw [hread] at hfill
    rw [Loading.turn, hread, content]
    cases hfailure : l.stream.failure? with
    | some f =>
      have hwhole : l.stream.whole = .error f := by rw [ByteStream.whole, hfailure]
      rw [hwhole] at hfill ⊢
      cases hfill
      rfl
    | none =>
      have hwhole : l.stream.whole = .ok l.stream.incoming := by rw [ByteStream.whole, hfailure]
      rw [hwhole] at hfill ⊢
      cases hfill
      dsimp only
      rw [offset_write, offset_makeRoom, ← reach, if_neg (Nat.not_lt.2 hlimit), if_pos hshort,
        loaded_write haligned.offset_le, loaded_makeRoom h.offset_le]
      rfl

theorem IsAligned.exists_leads (h : l.IsAligned k) (path : String) (hlong : chunkSize ≤ l.stream.incoming.length)
    (hlimit : l.reach ≤ limit) :
    ∃ next k', Leads path limit l next ∧ next.IsAligned k' ∧ loadLog path k ++ l.growth path = loadLog path k' ∧
      next.content = l.content ∧ next.reach = l.reach ∧ next.stream.incoming.length < l.stream.incoming.length := by
  obtain ⟨k', haligned, hroom, hlog⟩ := h.makeRoom path
  obtain ⟨rest, hfill, hincoming, hfailure⟩ := ByteStream.fill_of_le (by decide) hlong
  have hchunk : (l.stream.incoming.take chunkSize).length = chunkSize := List.length_take_of_le hlong
  have hrest : rest.incoming.length + chunkSize = l.stream.incoming.length := by
    rw [hincoming, List.length_drop, Nat.sub_add_cancel hlong]
  have hpos : 0 < chunkSize := by decide
  have hwithin : ¬ limit < l.offset + chunkSize := by
    rw [reach] at hlimit
    omega
  refine ⟨l.makeRoom.write (l.stream.incoming.take chunkSize) rest, k', ?_, ?_, hlog, ?_, ?_, ?_⟩
  · rw [Leads, Loading.turn, hfill]
    dsimp only
    rw [offset_write, offset_makeRoom, hchunk, if_neg hwithin, if_neg (Nat.lt_irrefl _)]
  · exact haligned.write (by rwa [offset_makeRoom]) hchunk rest
  · rw [content, content, loaded_write haligned.offset_le, loaded_makeRoom h.offset_le,
      ByteStream.whole_eq_map_take hincoming hfailure]
    change rest.whole.map _ = _
    cases rest.whole with
    | error f => rfl
    | ok bs => rw [Except.map, Except.map, Except.map, List.append_assoc]
  · rw [reach, reach, offset_write, offset_makeRoom, hchunk, Nat.add_assoc, Nat.add_comm chunkSize]
    exact congrArg _ hrest
  · change rest.incoming.length < _
    omega

theorem run_of_ended {outcome : Except Failure Bytes} (h : l.turn path limit = .ended outcome) :
    l.run path limit = ⟨outcome, l.growth path⟩ := by
  rw [run]
  split
  · next outcome' h' =>
    cases h.symm.trans h'
    exact congrArg (Attempt.mk outcome) (List.append_nil _)
  · next next' h' => cases h.symm.trans h'

theorem run_of_leads (h : Leads path limit l next) :
    l.run path limit = (next.run path limit).after (l.growth path) := by
  rw [run]
  split
  · next outcome h' => cases h.symm.trans h'
  · next next' h' =>
    cases h.symm.trans h'
    rfl

theorem IsAligned.reached_iff (h : l.IsAligned k) {n : Nat} (hle : l.offset ≤ n) (hlt : n < l.buffer.length) (i : Nat) :
    chunkSize * 2 ^ i ≤ n ↔ i < k := by
  refine ⟨fun hi => ?_, fun hi => Nat.le_trans (h.le_offset i hi) hle⟩
  rw [h.length_buffer] at hlt
  have hpow : 2 ^ i < 2 ^ k := Nat.lt_of_mul_lt_mul_left (Nat.lt_of_le_of_lt hi hlt)
  exact (Nat.pow_lt_pow_iff_right (Nat.lt_succ_self 1)).1 hpow

theorem IsAligned.run_eq (h : l.IsAligned k) (path : String) (hlimit : l.reach ≤ limit) :
    (l.run path limit).outcome = l.content.mapError (.io path) ∧
      ∃ m, (∀ i, chunkSize * 2 ^ i ≤ l.reach ↔ i < m) ∧
        loadLog path k ++ (l.run path limit).events = loadLog path m := by
  -- The induction is on the bytes to come: with less than a chunk the load ends, a full one leads on.
  induction hn : l.stream.incoming.length using Nat.strongRecOn generalizing l k with
  | ind n ih =>
    rcases Nat.lt_or_ge l.stream.incoming.length chunkSize with hshort | hlong
    · obtain ⟨k', haligned, hroom, hlog⟩ := h.makeRoom path
      have hfits : l.reach < l.makeRoom.buffer.length :=
        Nat.lt_of_lt_of_le (Nat.add_lt_add_left hshort l.offset) hroom
      rw [run_of_ended (h.turn_of_lt hshort hlimit)]
      refine ⟨rfl, k', haligned.reached_iff ?_ hfits, hlog⟩
      rw [offset_makeRoom]
      exact Nat.le_add_right ..
    · obtain ⟨next, k', hleads, haligned, hlog, hcontent, hreach, hfewer⟩ := h.exists_leads path hlong hlimit
      obtain ⟨houtcome, m, hm, hevents⟩ := ih _ (hn ▸ hfewer) haligned (by rwa [hreach]) rfl
      rw [hreach] at hm
      rw [run_of_leads hleads]
      refine ⟨?_, m, hm, ?_⟩
      · rw [← hcontent]
        exact houtcome
      · change loadLog path k ++ (l.growth path ++ (next.run path limit).events) = _
        rw [← List.append_assoc, hlog, hevents]

end Loading

theorem card_reached {n k : Nat} (h : ∀ i, chunkSize * 2 ^ i ≤ n ↔ i < k) :
    Nat.card {i // chunkSize * 2 ^ i ≤ n} = k := by
  rw [Nat.card_congr (Equiv.subtypeEquivRight h), Nat.card_congr Fin.equivSubtype.symm, Nat.card_fin]

theorem load_eq (path : String) {limit : Nat} {stream : ByteStream} (hlimit : stream.incoming.length ≤ limit) :
    load path limit stream = ⟨stream.whole.mapError (.io path),
      loadLog path (Nat.card {i // chunkSize * 2 ^ i ≤ stream.incoming.length})⟩ := by
  have hreach : Loading.reach { stream } = stream.incoming.length := Nat.zero_add _
  have hcontent : Loading.content { stream } = stream.whole := by
    change stream.whole.map (([] : Bytes) ++ ·) = _
    cases stream.whole <;> rfl
  have hlimit' : Loading.reach { stream } ≤ limit := by rwa [hreach]
  obtain ⟨houtcome, k, hk, hevents⟩ := (Loading.isAligned_start stream).run_eq path hlimit'
  rw [hcontent] at houtcome
  rw [hreach] at hk
  calc
    load path limit stream = ⟨(load path limit stream).outcome, (load path limit stream).events⟩ := rfl
    _ = ⟨stream.whole.mapError (.io path), loadLog path k⟩ := congrArg₂ Attempt.mk houtcome hevents
    _ = _ := by rw [card_reached hk]

/-- In whatever pieces the bytes come in, a load within the limit comes to just these bytes, or without any of them to
the fault behind them. It logs, in order, each doubling of the buffer from a size that they reach. On every turn the
buffer has room for the whole chunk. -/
theorem load_brings_incoming (path : String) (limit : Nat) (stream : ByteStream)
    (hlimit : stream.incoming.length ≤ limit) :
    (stream.failure? = none → (load path limit stream).outcome = .ok stream.incoming) ∧
      (∀ fault, stream.failure? = some fault → (load path limit stream).outcome = .error (.io path fault)) ∧
      (load path limit stream).events =
        loadLog path (Nat.card {i // chunkSize * 2 ^ i ≤ stream.incoming.length}) ∧
      ∀ l, Relation.ReflTransGen (Loading.Leads path limit) { stream } l →
        l.makeRoom.offset + chunkSize ≤ l.makeRoom.buffer.length := by
  rw [load_eq path hlimit]
  refine ⟨fun hend => ?_, fun fault hfault => ?_, rfl, fun l hl => ?_⟩
  · change stream.whole.mapError _ = _
    rw [ByteStream.whole, hend]
    rfl
  · change stream.whole.mapError _ = _
    rw [ByteStream.whole, hfault]
    rfl
  · obtain ⟨k, haligned⟩ := Loading.exists_isAligned hl
    obtain ⟨-, -, hroom, -⟩ := haligned.makeRoom path
    rwa [Loading.offset_makeRoom]

def shortPiece : Bytes := List.replicate 65535 0x53

def brokenChunk (next : ByteStream) : ByteStream := .piece shortPiece (.interrupted (.piece [0x49] next))

/-- A chunk that fills the buffer to its end is all there is, but it takes an empty one behind it to tell. The fault in
its place leaves nothing of the chunk. -/
theorem load_brings_incoming_exactChunk :
    (load "tune" 65536 (brokenChunk .drained)).outcome = .ok (shortPiece ++ [0x49]) ∧
      (load "tune" 65536 (brokenChunk .drained)).events = [.loadBufferGrown "tune" 131072] ∧
      (load "tune" 65536 (brokenChunk (.broken (.number 5)))).outcome = .error (.io "tune" (.number 5)) ∧
      (let l : Loading := { stream := brokenChunk .drained }
       l.makeRoom.offset + chunkSize ≤ l.makeRoom.buffer.length) := by
  have hshort : shortPiece.length = 65535 := List.length_replicate
  have hne : shortPiece ≠ [] := List.ne_nil_of_length_eq_add_one hshort
  have hincoming (next : ByteStream) (hnext : next.incoming = []) :
      (brokenChunk next).incoming = shortPiece ++ [0x49] := by
    rw [brokenChunk, ByteStream.incoming, if_neg hne, ByteStream.incoming, ByteStream.incoming, hnext]
    rfl
  have hlength : (shortPiece ++ [(0x49 : UInt8)]).length = 65536 := by rw [List.length_append, hshort]; rfl
  have hreached (i : Nat) : chunkSize * 2 ^ i ≤ 65536 ↔ i < 1 := by
    have hpow := Nat.two_pow_pos i
    cases i with
    | zero => simp [chunkSize]
    | succ i =>
      rw [Nat.pow_succ, chunkSize]
      omega
  have hended := hincoming .drained rfl
  obtain ⟨houtcome, -, hevents, hroom⟩ :=
    load_brings_incoming "tune" 65536 (brokenChunk .drained) (by rw [hended, hlength])
  obtain ⟨-, hfault, -⟩ := load_brings_incoming "tune" 65536 (brokenChunk (.broken (.number 5)))
    (by rw [hincoming _ rfl, hlength])
  have hfailure (next : ByteStream) : (brokenChunk next).failure? = next.failure? := by
    rw [brokenChunk, ByteStream.failure?, if_neg hne]
    rfl
  refine ⟨?_, ?_, hfault _ (hfailure _), hroom _ .refl⟩
  · rw [houtcome (hfailure _), hended]
  · rw [hevents, hended, hlength, card_reached hreached]
    rfl

end SidCatalog.FileSystem
