import Mathlib.Algebra.Order.Ring.Nat
import Mathlib.Order.Bounds.Basic
import SidCatalog.Proofs.TextFile.Lines

/-! The room for lines. It is what doubling first comes to with two bytes more than the longest line so far, and each
doubling is logged once, with the number of the first line that needs it. A closed file has no room and no line. -/

namespace SidCatalog.TextFile

/-- The length of the longest line without its line feed. A carriage return in front of that counts. -/
def longest : List RawLine → Nat
  | [] => 0
  | line :: lines => max line.bytes.length (longest lines)

def firstBeyond (room : Nat) (lines : List RawLine) : Nat :=
  lines.findIdx fun line => room < line.bytes.length + 2

def growthLog (lines : List RawLine) (k : Nat) : List Event :=
  (List.range k).map fun i =>
    .lineBuffersGrown (initialCapacity * 2 ^ (i + 1)) (firstBeyond (initialCapacity * 2 ^ i) lines + 1)

structure FitsAfter (lines : List RawLine) (k : Nat) : Prop where
  fits : longest lines + 2 ≤ initialCapacity * 2 ^ k
  lt_of_lt : ∀ i < k, initialCapacity * 2 ^ i < longest lines + 2

theorem longest_append (lines more : List RawLine) : longest (lines ++ more) = max (longest lines) (longest more) := by
  induction lines with
  | nil => rw [List.nil_append, longest, Nat.zero_max]
  | cons line lines ih => rw [List.cons_append, longest, longest, ih, Nat.max_assoc]

theorem length_le_longest {lines : List RawLine} {line : RawLine} (h : line ∈ lines) :
    line.bytes.length ≤ longest lines := by
  obtain ⟨front, back, rfl⟩ := List.append_of_mem h
  rw [longest_append, longest]
  omega

theorem exists_doublings {need capacity : Nat} (hpos : 0 < capacity) :
    ∃ m, doublings need capacity = (List.range m).map (fun i => capacity * 2 ^ (i + 1)) ∧
      need ≤ capacity * 2 ^ m ∧ ∀ i < m, capacity * 2 ^ i < need := by
  fun_induction doublings need capacity with
  | case1 capacity h ih =>
    obtain ⟨m, hm, hfits, hlt⟩ := ih (by omega)
    have hpow (i : Nat) : 2 * capacity * 2 ^ i = capacity * 2 ^ (i + 1) := by
      rw [Nat.pow_succ, Nat.mul_comm 2 capacity, Nat.mul_assoc, Nat.mul_comm 2]
    simp only [hpow] at hm hfits hlt
    refine ⟨m + 1, ?_, hfits, fun i hi => ?_⟩
    · rw [hm, List.range_succ_eq_map, List.map_cons, List.map_map, Nat.zero_add, Nat.pow_one, Nat.mul_comm 2]
      rfl
    · cases i with
      | zero => simpa using h.2
      | succ i => exact hlt i (Nat.lt_of_succ_lt_succ hi)
  | case2 capacity h =>
    refine ⟨0, rfl, ?_, fun i hi => absurd hi (Nat.not_lt_zero i)⟩
    rw [Nat.pow_zero, Nat.mul_one]
    omega

theorem getLastD_doublings (capacity m : Nat) :
    ((List.range m).map fun i => capacity * 2 ^ (i + 1)).getLastD capacity = capacity * 2 ^ m := by
  cases m with
  | zero => simp
  | succ m => rw [List.range_succ, List.map_append, List.map_singleton, List.getLastD_concat]

namespace Handle

theorem le_capacity_accept (h : Handle) (line : RawLine) : h.capacity ≤ (h.accept line).capacity := by
  change h.capacity ≤ (h.growth line).getLastD h.capacity
  rcases Nat.eq_zero_or_pos h.capacity with hzero | hpos
  · rw [hzero]
    exact Nat.zero_le _
  · obtain ⟨m, hm, -⟩ := @exists_doublings (line.bytes.length + 2) _ hpos
    rw [growth, hm, getLastD_doublings]
    exact Nat.le_mul_of_pos_right _ (Nat.two_pow_pos m)

theorem le_capacity_read (h : Handle) : h.capacity ≤ h.read.2.capacity := by
  rcases h.read_cases with ⟨fault, stream, hread⟩ | ⟨stream, hread⟩ | ⟨stream, line, hread⟩ <;> rw [hread]
  · exact Nat.le_refl _
  · exact Nat.le_refl _
  · exact le_capacity_accept (h.advance stream) line

theorem events_isTrace {h : Handle} (n : Nat) : ∀ e ∈ h.log n, e.level = .trace := by
  induction n with
  | zero => exact fun _ he => absurd he List.not_mem_nil
  | succ n ih =>
    rw [log_succ]
    refine List.forall_mem_append.2 ⟨ih, ?_⟩
    rcases (h.after n).read_cases with ⟨fault, stream, hread⟩ | ⟨stream, hread⟩ | ⟨stream, line, hread⟩ <;> rw [hread]
    · exact fun _ he => absurd he List.not_mem_nil
    · exact fun _ he => absurd he List.not_mem_nil
    · intro e he
      obtain ⟨c, -, rfl⟩ := List.mem_map.1 he
      rfl

end Handle

section Run

variable {lines : List RawLine} {line : RawLine} {k m n : Nat}

theorem FitsAfter.succ (h : FitsAfter (lines.take n) k) (hline : lines[n]? = some line)
    (hfits : line.bytes.length + 2 ≤ initialCapacity * 2 ^ k * 2 ^ m)
    (hlt : ∀ i < m, initialCapacity * 2 ^ k * 2 ^ i < line.bytes.length + 2) :
    FitsAfter (lines.take (n + 1)) (k + m) := by
  have hlongest : longest (lines.take (n + 1)) = max (longest (lines.take n)) line.bytes.length := by
    rw [List.take_add_one, longest_append, hline]
    simp [longest]
  have hgrow : initialCapacity * 2 ^ k ≤ initialCapacity * 2 ^ k * 2 ^ m :=
    Nat.le_mul_of_pos_right _ (Nat.two_pow_pos m)
  have hfits' := h.fits
  refine ⟨?_, fun i hi => ?_⟩
  · rw [Nat.pow_add, ← Nat.mul_assoc, hlongest]
    omega
  · rw [hlongest]
    rcases Nat.lt_or_ge i k with hik | hki
    · have hlt' := h.lt_of_lt i hik
      omega
    · obtain ⟨j, rfl⟩ := Nat.exists_eq_add_of_le hki
      have hlt' := hlt j (by omega)
      rw [Nat.pow_add, ← Nat.mul_assoc]
      omega

theorem FitsAfter.firstBeyond_eq (h : FitsAfter (lines.take n) k) (hline : lines[n]? = some line) {room : Nat}
    (hroom : initialCapacity * 2 ^ k ≤ room) (hlt : room < line.bytes.length + 2) : firstBeyond room lines = n := by
  obtain ⟨hn, rfl⟩ := List.getElem?_eq_some_iff.1 hline
  refine (List.findIdx_eq hn).2 ⟨decide_eq_true hlt, fun j hj => decide_eq_false ?_⟩
  have hmem : lines[j] ∈ lines.take n := List.mem_take_iff_getElem.2 ⟨j, by omega, rfl⟩
  have hle := length_le_longest hmem
  have hfits := h.fits
  omega

theorem growthLog_add (lines : List RawLine) (k m : Nat) :
    growthLog lines (k + m) = growthLog lines k ++ (List.range m).map fun i =>
      .lineBuffersGrown (initialCapacity * 2 ^ k * 2 ^ (i + 1))
        (firstBeyond (initialCapacity * 2 ^ k * 2 ^ i) lines + 1) := by
  rw [growthLog, List.range_add, List.map_append, List.map_map, growthLog]
  congr 1
  refine List.map_congr_left fun i _ => ?_
  simp only [Function.comp_apply, Nat.pow_add, Nat.mul_assoc]

end Run

section Delivers

variable {h : Handle} {content : Bytes} {n : Nat} {line : RawLine}

theorem Handle.lineNumber_of_getElem? (hs : h.stream.Delivers content) (hnew : h.lineNumber = 0)
    (hline : (rawLines content)[n]? = some line) : (h.after n).lineNumber = n := by
  obtain ⟨hn, -⟩ := List.getElem?_eq_some_iff.1 hline
  have hlength := length_rawLines content
  rw [Handle.lineNumber_after hs, hnew, Nat.zero_add, count_lineFeed_take]
  split at hlength <;> omega

theorem Handle.exists_fitsAfter (hs : h.stream.Delivers content) (hnew : h.lineNumber = 0)
    (hcapacity : h.capacity = initialCapacity) (n : Nat) :
    ∃ k, (h.after n).capacity = initialCapacity * 2 ^ k ∧ FitsAfter ((rawLines content).take n) k ∧
      h.log n = growthLog (rawLines content) k := by
  induction n with
  | zero =>
    refine ⟨0, ?_, ⟨?_, fun i hi => absurd hi (Nat.not_lt_zero i)⟩, rfl⟩
    · rw [Handle.after_zero, hcapacity, Nat.pow_zero, Nat.mul_one]
    · rw [List.take_zero]
      decide
  | succ n ih =>
    obtain ⟨k, hk, hfits, hlog⟩ := ih
    rw [Handle.after_succ, Handle.log_succ, hlog]
    -- A read at the end grows nothing; a line that is read adds the doublings that it needs itself.
    rcases Handle.read_after hs n with ⟨stream, hnone, hread⟩ | ⟨stream, line, hline, hread⟩ <;> rw [hread]
    · refine ⟨k, hk, ?_, List.append_nil _⟩
      rwa [List.take_add_one, hnone, Option.toList_none, List.append_nil]
    · have hpos : 0 < initialCapacity * 2 ^ k := Nat.mul_pos (by decide) (Nat.two_pow_pos k)
      obtain ⟨m, hm, hroom, hlt⟩ := @exists_doublings (line.bytes.length + 2) _ hpos
      have hgrowth : (h.after n).growth line =
          (List.range m).map fun i => initialCapacity * 2 ^ k * 2 ^ (i + 1) := by
        rw [Handle.growth, hk, hm]
      refine ⟨k + m, ?_, hfits.succ hline hroom hlt, ?_⟩
      · have hgrowth' : (((h.after n).advance stream).growth line) = (h.after n).growth line := rfl
        change (((h.after n).advance stream).growth line).getLastD (h.after n).capacity = _
        rw [hgrowth', hgrowth, hk, getLastD_doublings, Nat.pow_add, Nat.mul_assoc]
      · rw [growthLog_add, Handle.growthEvents, hgrowth, List.map_map,
          Handle.lineNumber_of_getElem? hs hnew hline]
        congr 1
        refine List.map_congr_left fun i hi => ?_
        have hlt' := hlt i (List.mem_range.1 hi)
        have hroom' : initialCapacity * 2 ^ k ≤ initialCapacity * 2 ^ k * 2 ^ i :=
          Nat.le_mul_of_pos_right _ (Nat.two_pow_pos i)
        rw [hfits.firstBeyond_eq hline hroom' hlt']
        rfl

end Delivers

def log : Nat → TextFile → List Event
  | 0, _ => []
  | n + 1, file => file.read.1.events ++ log n file.read.2

theorem log_opened (n : Nat) (h : Handle) : log n (opened h) = h.log n := by
  induction n generalizing h with
  | zero => rfl
  | succ n ih => rw [log, Handle.log, read, ih]

theorem FitsAfter.isLeast {lines : List RawLine} {k : Nat} (h : FitsAfter lines k) :
    IsLeast {c | (∃ j, c = 1024 * 2 ^ j) ∧ longest lines + 2 ≤ c} (1024 * 2 ^ k) := by
  refine ⟨⟨⟨k, rfl⟩, h.fits⟩, ?_⟩
  rintro c ⟨⟨j, rfl⟩, hj⟩
  have hkj : k ≤ j := by
    by_contra hlt
    exact absurd hj (Nat.not_le.2 (h.lt_of_lt j (Nat.not_le.1 hlt)))
  exact Nat.mul_le_mul_left _ (Nat.pow_le_pow_right (by decide) hkj)

theorem le_capacity_read (file : TextFile) : file.capacity ≤ file.read.2.capacity := by
  cases file with
  | closed => exact Nat.le_refl _
  | opened h => exact h.le_capacity_read

theorem capacity_le_of_le {m n : Nat} (hle : m ≤ n) (file : TextFile) :
    (after m file).capacity ≤ (after n file).capacity := by
  induction n, hle using Nat.le_induction with
  | base => exact Nat.le_refl _
  | succ n _ ih =>
    rw [after_succ]
    exact Nat.le_trans ih (le_capacity_read _)

structure IsVacant (file : TextFile) : Prop where
  capacity_eq : file.capacity = 0
  lineNumber_eq : file.lineNumber = 0
  path?_eq : file.path? = none
  previousLine_eq : file.previousLine = none
  read_eq : ∃ f, f.code = .invalid ∧ file.read = (.fail f, file)

theorem isVacant_of_not_isOpen {file : TextFile} (h : file.isOpen = false) : file.IsVacant := by
  cases file with
  | closed => exact ⟨rfl, rfl, rfl, rfl, .closedTextFile, rfl, rfl⟩
  | opened h' => cases h

theorem isOpen_close (n : Nat) (file : TextFile) : (close^[n + 1] file).isOpen = false := by
  rw [Function.iterate_succ_apply']
  rfl

/-- The capacity of a file is the least doubling of 1024 with room for the longest line so far and two bytes more, and
it never shrinks. All that is traced is its doublings, in order and once each, at the first line that needs them. A
file that was never opened, or closed any number of times, has nothing in it. -/
theorem capacity_follows_longest {fs : FileSystem} {path : String} {stream : ByteStream} {content : Bytes}
    (hopen : fs.openFile path = .ok stream) (hs : stream.Delivers content) :
    (∃ file, openFile fs path = ⟨.ok file, [.opening path]⟩ ∧ ∀ n, ∃ k,
      (after n file).capacity = 1024 * 2 ^ k ∧
      IsLeast {c | (∃ j, c = 1024 * 2 ^ j) ∧ longest ((rawLines content).take n) + 2 ≤ c} (after n file).capacity ∧
      ((openFile fs path).events ++ log n file).filter (fun e => e.level = .trace) =
        growthLog (rawLines content) k) ∧
    (∀ (file : TextFile) (m n : Nat), m ≤ n → (after m file).capacity ≤ (after n file).capacity) ∧
    closed.IsVacant ∧ ∀ (file : TextFile) (n : Nat), (close^[n + 1] file).IsVacant := by
  have hfile : openFile fs path = ⟨.ok (opened { path, stream }), [.opening path]⟩ := openFile_of_ok hopen
  refine ⟨⟨opened { path, stream }, hfile, fun n => ?_⟩, fun file m n hle => capacity_le_of_le hle file,
    isVacant_of_not_isOpen rfl, fun file n => isVacant_of_not_isOpen (isOpen_close n file)⟩
  obtain ⟨k, hk, hfits, hlog⟩ := @Handle.exists_fitsAfter { path, stream } content hs rfl rfl n
  have hcapacity : (after n (opened { path, stream })).capacity = 1024 * 2 ^ k := by
    rw [after_opened]
    exact hk
  refine ⟨k, hcapacity, hcapacity ▸ hfits.isLeast, ?_⟩
  have htrace : (Handle.log n { path, stream }).filter (fun e => e.level = .trace) = Handle.log n { path, stream } :=
    List.filter_eq_self.2 fun e he => decide_eq_true (Handle.events_isTrace n e he)
  rw [hfile, log_opened, List.filter_append, htrace, hlog]
  rfl

def edgeContent : Bytes := List.replicate 1022 0x79 ++ ByteStream.lineFeed :: List.replicate 1023 0x79

def edgeFiles : FileSystem := ⟨fun _ => .ok (.ofBytes edgeContent)⟩

theorem rawLines_edgeContent :
    rawLines edgeContent = [⟨List.replicate 1022 0x79, true⟩, ⟨List.replicate 1023 0x79, false⟩] := by
  have hlf (n : Nat) : ByteStream.lineFeed ∉ List.replicate n (0x79 : UInt8) := fun hmem =>
    absurd (List.eq_of_mem_replicate hmem) (by decide)
  have hne : List.replicate 1023 (0x79 : UInt8) ≠ [] := List.cons_ne_nil _ _
  rw [edgeContent, rawLines_cons (hlf _), rawLines_of_not_mem hne (hlf _)]

theorem capacity_follows_longest_edge :
    ∃ file, openFile edgeFiles "list" = ⟨.ok file, [.opening "list"]⟩ ∧ (after 1 file).capacity = 1024 ∧
      (after 2 file).capacity = 2048 ∧
      ((openFile edgeFiles "list").events ++ log 2 file).filter (fun e => e.level = .trace) =
        [.lineBuffersGrown 2048 2] ∧
      (after 1 file).capacity ≤ (after 2 file).capacity ∧ (close^[2] file).IsVacant := by
  have hs : (ByteStream.ofBytes edgeContent).Delivers edgeContent := ByteStream.delivers_ofBytes edgeContent
  obtain ⟨⟨file, hfile, hrun⟩, hmono, -, hclosed⟩ := @capacity_follows_longest edgeFiles "list" _ _ rfl hs
  obtain ⟨-, -, hfirst, -⟩ := hrun 1
  obtain ⟨k, hk, hsecond, hlog⟩ := hrun 2
  have hone : longest ((rawLines edgeContent).take 1) + 2 = 1024 := by
    simp only [rawLines_edgeContent, List.take_succ_cons, List.take_zero, longest, List.length_replicate]
    rfl
  have htwo : longest ((rawLines edgeContent).take 2) + 2 = 1025 := by
    simp only [rawLines_edgeContent, List.take_succ_cons, List.take_zero, longest, List.length_replicate]
    rfl
  have hcapacity : (after 2 file).capacity = 2048 := by
    refine hsecond.unique ⟨⟨⟨1, rfl⟩, by rw [htwo]; decide⟩, ?_⟩
    rintro c ⟨⟨j, rfl⟩, hj⟩
    rw [htwo] at hj
    cases j with
    | zero => omega
    | succ j =>
      have hpos := Nat.two_pow_pos j
      rw [Nat.pow_succ]
      omega
  obtain rfl : k = 1 := by
    have hpow : 2 ^ k = 2 ^ 1 := by omega
    exact Nat.pow_right_injective (Nat.le_refl 2) hpow
  have hline : firstBeyond (1024 * 2 ^ 0) (rawLines edgeContent) = 1 := by
    simp only [firstBeyond, rawLines_edgeContent, List.findIdx_cons, List.length_replicate]
    rfl
  refine ⟨file, hfile, hfirst.unique ⟨⟨⟨0, rfl⟩, hone.le⟩, fun c hc => hone ▸ hc.2⟩, hcapacity, ?_,
    hmono file 1 2 (by decide), hclosed file 1⟩
  rw [hlog, growthLog, initialCapacity, List.range_one, List.map_singleton, hline]
  rfl

end SidCatalog.TextFile
