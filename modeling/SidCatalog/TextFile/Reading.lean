import SidCatalog.TextFile.Handle

/-! All reads of an open file, from one place on to its end or to the first fault. Each read that returns a
line moves the stream forward, so there are finitely many. -/

namespace SidCatalog.TextFile

structure Reading where
  attempt : Attempt (Option String)
  handle : Handle

namespace Reading

def ofHandle (h : Handle) : Reading := ⟨h.read.1, h.read.2⟩

def line? (r : Reading) : Option String :=
  match r.attempt.outcome with
  | .ok line => line
  | .error _ => none

end Reading

namespace Handle

/-- Adds the reads from here on to those seen before, latest first. -/
def readingsAfter (seen : List Reading) (h : Handle) : List Reading :=
  let r := Reading.ofHandle h
  match _h : r.attempt.outcome with
  | .ok (some _) => readingsAfter (r :: seen) r.handle
  | _ => (r :: seen).reverse
termination_by h.stream.size
decreasing_by exact size_read_lt _h

def readings (h : Handle) : List Reading := readingsAfter [] h

theorem readingsAfter_eq (seen : List Reading) (h : Handle) :
    readingsAfter seen h = seen.reverse ++ readings h := by
  -- The induction is on a bound for the bytes left, since each read changes the file.
  suffices key : ∀ n, ∀ h : Handle, h.stream.size < n →
      ∀ seen, readingsAfter seen h = seen.reverse ++ readingsAfter [] h from
    key _ h (Nat.lt_succ_self _) seen
  intro n
  induction n with
  | zero => intro h hn; omega
  | succ n ih =>
    intro h hn seen
    rw [readingsAfter.eq_def seen h, readingsAfter.eq_def [] h]
    dsimp only
    split
    · next line hl =>
      have hs := size_read_lt hl
      have hr : (Reading.ofHandle h).handle.stream.size < n := by
        simp only [Reading.ofHandle]
        omega
      rw [ih _ hr, ih _ hr [Reading.ofHandle h]]
      simp
    · simp

theorem readings_eq (h : Handle) :
    h.readings = Reading.ofHandle h ::
      match h.read.1.outcome with
      | .ok (some _) => h.read.2.readings
      | _ => [] := by
  rw [readings, readingsAfter]
  dsimp only [Reading.ofHandle]
  split
  · next hl =>
    rw [readingsAfter_eq, hl]
    rfl
  · next hn =>
    split
    · next hl => exact absurd hl (hn _)
    · rfl

end Handle

end SidCatalog.TextFile
