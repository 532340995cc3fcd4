import SidCatalog.Proofs.SongLengths.Recognition

/-! Lookups without an answer. A lookup misses when the list was read to its end and no line counted. All else that
keeps a lookup by path from its answer is an obstacle: a list that does not open or breaks off, a comment with
nothing below it, an entry that is malformed. No failure is both. -/

namespace SidCatalog.SongLengths

open TextFile

def IsMiss (outcome : Except Failure SongLengths) : Prop :=
  ∃ f, outcome = .error f ∧ f.code = .notFound

def Unlisted (path : String) (lines : List String) : Prop :=
  ∀ l ∈ lines, Entry.commentPath? l ≠ some (listedPath path)

/-- What keeps the list from telling whether it has the path, or what stands under it. -/
inductive Obstacle (fs : FileSystem) (sldb path : String) : Failure → Prop where
  | closed {fault : OsFault} (hopen : fs.openFile sldb = .error fault) : Obstacle fs sldb path (.io sldb fault)
  | brokenAbove {lines : List String} {f : Failure} (hc : Course fs sldb lines (some f))
      (hlines : Unlisted path lines) : Obstacle fs sldb path f
  | brokenBelow {passed : List String} {comment : String} {f : Failure}
      (hc : Course fs sldb (passed ++ [comment]) (some f)) (hpassed : Unlisted path passed)
      (hcomment : Entry.commentPath? comment = some (listedPath path)) : Obstacle fs sldb path f
  | truncated {passed : List String} {comment : String}
      (hc : Course fs sldb (passed ++ [comment]) none) (hpassed : Unlisted path passed)
      (hcomment : Entry.commentPath? comment = some (listedPath path)) :
      Obstacle fs sldb path (.endsAfterComment (listedPath path))
  | malformed {passed rest : List String} {comment line : String} {stop : Option Failure} {f : Failure}
      (hc : Course fs sldb (passed ++ comment :: line :: rest) stop) (hpassed : Unlisted path passed)
      (hcomment : Entry.commentPath? comment = some (listedPath path)) (hline : Entry.parse line = .error f) :
      Obstacle fs sldb path f

section Lookup

variable {fs : FileSystem} {sldb path : String} {lines : List String} {f : Failure}

theorem not_isMiss_ok (s : SongLengths) : ¬ IsMiss (.ok s) := by
  rintro ⟨f, hf, -⟩
  cases hf

theorem isMiss_error_iff : IsMiss (.error f) ↔ f.code = .notFound := by
  constructor
  · rintro ⟨g, hg, hcode⟩
    cases hg
    exact hcode
  · exact fun hcode => ⟨f, rfl, hcode⟩

theorem Obstacle.outcome_eq (h : Obstacle fs sldb path f) : (findByPath fs sldb path).outcome = .error f := by
  cases h with
  | closed hopen =>
    rw [findByPath, openHandle_of_closed hopen]
    rfl
  | brokenAbove hc hlines => exact outcome_findByPath_of_forall hc hlines
  | brokenBelow hc hpassed hcomment => exact outcome_findByPath_of_hit hc hpassed hcomment
  | truncated hc hpassed hcomment => exact outcome_findByPath_of_hit hc hpassed hcomment
  | malformed hc hpassed hcomment hline =>
    rw [outcome_findByPath_of_hit hc hpassed hcomment, belowComment, hline]
    rfl

theorem Obstacle.code_ne (h : Obstacle fs sldb path f) : f.code ≠ .notFound := by
  cases h with
  | closed hopen => exact nofun
  | brokenAbove hc hlines =>
    rw [hc.code_eq]
    exact nofun
  | brokenBelow hc hpassed hcomment =>
    rw [hc.code_eq]
    exact nofun
  | truncated hc hpassed hcomment => exact nofun
  | malformed hc hpassed hcomment hline => exact Entry.code_ne_notFound_of_parse hline

theorem findByPath_cases (fs : FileSystem) (sldb path : String) :
    (∃ f, Obstacle fs sldb path f) ∨
      (∃ lines, Course fs sldb lines none ∧ Unlisted path lines) ∨
      ∃ s, (findByPath fs sldb path).outcome = .ok s := by
  rcases closed_or_course fs sldb with ⟨fault, hopen⟩ | ⟨lines, stop, hc⟩
  · exact .inl ⟨_, .closed hopen⟩
  rcases forall_or_split (fun l => Entry.commentPath? l = some (listedPath path)) lines with
    hnone | ⟨passed, comment, rest, rfl, hpassed, hcomment⟩
  · have hlines : Unlisted path lines := by simpa [Unlisted] using hnone
    cases stop with
    | none => exact .inr (.inl ⟨lines, hc, hlines⟩)
    | some f => exact .inl ⟨f, .brokenAbove hc hlines⟩
  · have hpassed' : Unlisted path passed := by simpa [Unlisted] using hpassed
    rw [decide_eq_true_iff] at hcomment
    cases rest with
    | nil =>
      cases stop with
      | none => exact .inl ⟨_, .truncated hc hpassed' hcomment⟩
      | some f => exact .inl ⟨f, .brokenBelow hc hpassed' hcomment⟩
    | cons line rest =>
      cases hline : Entry.parse line with
      | error f => exact .inl ⟨f, .malformed hc hpassed' hcomment hline⟩
      | ok entry =>
        refine .inr (.inr ⟨⟨entry.1, some (listedPath path), entry.2⟩, ?_⟩)
        rw [outcome_findByPath_of_hit hc hpassed' hcomment, belowComment, hline]
        rfl

theorem isMiss_findByPath_iff :
    IsMiss (findByPath fs sldb path).outcome ↔ ∃ lines, Course fs sldb lines none ∧ Unlisted path lines := by
  constructor
  · intro hmiss
    rcases findByPath_cases fs sldb path with ⟨f, hobstacle⟩ | hlines | ⟨s, hs⟩
    · rw [hobstacle.outcome_eq, isMiss_error_iff] at hmiss
      exact absurd hmiss hobstacle.code_ne
    · exact hlines
    · rw [hs] at hmiss
      exact absurd hmiss (not_isMiss_ok s)
  · rintro ⟨lines, hc, hlines⟩
    rw [outcome_findByPath_of_forall hc hlines, isMiss_error_iff]
    rfl

theorem obstacle_iff :
    Obstacle fs sldb path f ↔ (findByPath fs sldb path).outcome = .error f ∧ f.code ≠ .notFound := by
  constructor
  · exact fun hobstacle => ⟨hobstacle.outcome_eq, hobstacle.code_ne⟩
  · rintro ⟨hf, hcode⟩
    rcases findByPath_cases fs sldb path with ⟨g, hobstacle⟩ | hlines | ⟨s, hs⟩
    · obtain rfl : g = f := Except.error.inj (hobstacle.outcome_eq.symm.trans hf)
      exact hobstacle
    · have hmiss : IsMiss (findByPath fs sldb path).outcome := isMiss_findByPath_iff.2 hlines
      rw [hf, isMiss_error_iff] at hmiss
      exact absurd hmiss hcode
    · rw [hs] at hf
      cases hf

end Lookup

end SidCatalog.SongLengths
