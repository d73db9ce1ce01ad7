import Mathlib.Data.List.Induction
import X86.Proofs.Interrupt.Lines

/-!
# Lines shared between threads

Devices raise and lower lines from threads of their own, one update at a time, while others take
lines by looking and exchanging. The accesses of all of them follow one another in some order, and
whatever happens between two accesses of a taker is in that order too.

* `SharedLines.access_cases`: **an access either exchanges what is still there or looks.**
* `SharedLines.isPending_next_iff`: what a single access does to a line.
* `SharedLines.exists_raise`, `SharedLines.isPending_of_raised`: the same for a history.
* `SharedLines.sharing`: **no line is lost, and none is taken twice.**
-/

namespace X86

namespace Taker

/-- The next call begins where the last one has come to its end. -/
def restart : Taker → Taker
  | finished _ => idle
  | t => t

/-- What a call has come to. -/
def result? : Taker → Option (Option Line)
  | finished line => some line
  | _ => none

end Taker

/-- The pending lines, and those who take lines from them. -/
structure SharedLines (ι : Type) where
  lines : IrqLines := {}
  takers : ι → Taker := fun _ => .idle

namespace SharedLines

/-- What can happen to shared lines: an update by whatever thread, or an access of a taker. -/
inductive Access (ι : Type) where
  | raise (n : Line)
  | lower (n : Line)
  | take (t : ι)

variable {ι : Type}

/-- What a taker knows after its access, and the lines. -/
def access (s : SharedLines ι) (t : ι) : Taker × IrqLines := (s.takers t).restart.step s.lines

/-- The result of the call that an access completes. -/
def returned? (s : SharedLines ι) : Access ι → Option (Option Line)
  | .take t => (s.access t).1.result?
  | _ => none

/-- The next access of the taker exchanges: it has seen just the lines that are pending. -/
def Exchanges (s : SharedLines ι) (t : ι) : Prop := s.takers t = .seen s.lines

/-- Whoever has seen pending lines has seen some. -/
def Sound (s : SharedLines ι) : Prop := ∀ t q, s.takers t = .seen q → q.any = true

section Histories

variable [DecidableEq ι]

/-- One access. -/
def next (s : SharedLines ι) : Access ι → SharedLines ι
  | .raise n => { s with lines := s.lines.raise n }
  | .lower n => { s with lines := s.lines.lower n }
  | .take t =>
    { lines := (s.access t).2
      takers := fun u => if u = t then (s.access t).1 else s.takers u }

/-- The lines after a history of accesses. Nothing is pending at its beginning. -/
def after (h : List (Access ι)) : SharedLines ι := h.foldl next {}

/-- The results of the calls that are completed from here on. -/
def results (s : SharedLines ι) : List (Access ι) → List (Option Line)
  | [] => []
  | a :: h => (s.returned? a).toList ++ (s.next a).results h

end Histories

/-! ### One access -/

variable {s : SharedLines ι} {t : ι} {n : Line}

/-- **An access either exchanges what is still there, and takes the lowest line of it, or looks.** -/
theorem access_cases (hs : s.Sound) (t : ι) :
    (s.Exchanges t ∧ ∃ n, s.lines.lowest? = some n ∧
        s.access t = (.finished (some n), s.lines.lower n)) ∨
      ¬ s.Exchanges t ∧ s.access t = (.observe s.lines, s.lines) := by
  rw [Exchanges, access]
  cases hTaker : s.takers t with
  | idle => exact .inr ⟨by simp, rfl⟩
  | finished line => exact .inr ⟨by simp, rfl⟩
  | seen q =>
    obtain ⟨n, hLowest, -⟩ := IrqLines.exists_lowest (hs t q hTaker)
    by_cases hSame : s.lines = q
    · subst hSame
      refine .inl ⟨rfl, n, hLowest, ?_⟩
      simp only [Taker.restart, Taker.step, hLowest, if_true]
    · refine .inr ⟨fun h => hSame (Taker.seen.inj h).symm, ?_⟩
      simp only [Taker.restart, Taker.step, hLowest, if_neg hSame]

/-- Who looks returns only where nothing is pending. -/
theorem result_observe {q : IrqLines} {r : Option Line}
    (h : (Taker.observe q).result? = some r) : r = none ∧ q.any = false := by
  rw [Taker.observe] at h
  split at h
  · cases h
  · cases h
    exact ⟨rfl, by simpa using ‹¬ q.any = true›⟩

/-- A line is returned only by an exchange that finds it the lowest one. -/
theorem returned_some (hs : s.Sound) (h : s.returned? (.take t) = some (some n)) :
    s.Exchanges t ∧ s.lines.lowest? = some n := by
  rcases access_cases hs t with ⟨hExchanges, k, hLowest, hAccess⟩ | ⟨-, hAccess⟩
  · rw [returned?, hAccess] at h
    cases h
    exact ⟨hExchanges, hLowest⟩
  · rw [returned?, hAccess] at h
    exact absurd (result_observe h).1 (Option.some_ne_none n)

/-- Nothing is returned only where nothing is pending. -/
theorem returned_none (hs : s.Sound) (h : s.returned? (.take t) = some none) (n : Line) :
    s.lines.isPending n = false := by
  rcases access_cases hs t with ⟨-, k, -, hAccess⟩ | ⟨-, hAccess⟩
  · rw [returned?, hAccess] at h
    cases h
  · rw [returned?, hAccess] at h
    exact IrqLines.isPending_of_any (result_observe h).2 n

variable [DecidableEq ι]

theorem Sound.next (hs : s.Sound) (a : Access ι) : (s.next a).Sound := by
  cases a with
  | raise n | lower n => exact hs
  | take t =>
    intro u q hSeen
    change (if u = t then (s.access t).1 else s.takers u) = .seen q at hSeen
    split at hSeen
    · rcases access_cases hs t with ⟨-, n, -, hAccess⟩ | ⟨-, hAccess⟩
      · rw [hAccess] at hSeen
        cases hSeen
      · rw [hAccess, Taker.observe] at hSeen
        split at hSeen
        · cases hSeen
          assumption
        · cases hSeen
    · exact hs u q hSeen

/-- **What an access does to a line**: it is pending afterwards if it has been raised, or if it was
pending, and has been neither lowered nor returned. -/
theorem isPending_next_iff (hs : s.Sound) (a : Access ι) (n : Line) :
    (s.next a).lines.isPending n = true ↔
      a = .raise n ∨
        s.lines.isPending n = true ∧ a ≠ .lower n ∧ s.returned? a ≠ some (some n) := by
  cases a with
  | raise k =>
    change (s.lines.raise k).isPending n = true ↔ _
    rw [IrqLines.isPending_raise]
    simp [returned?, eq_comm (a := n), or_comm]
  | lower k =>
    change (s.lines.lower k).isPending n = true ↔ _
    rw [IrqLines.isPending_lower]
    simp [returned?, eq_comm (a := n)]
  | take t =>
    change (s.access t).2.isPending n = true ↔ _
    rcases access_cases hs t with ⟨-, k, -, hAccess⟩ | ⟨-, hAccess⟩
    · rw [returned?, hAccess, IrqLines.isPending_lower]
      simp [Taker.result?, eq_comm (a := n)]
    · rw [returned?, hAccess]
      have hLooks : (Taker.observe s.lines).result? ≠ some (some n) := fun h =>
        absurd (result_observe h).1 (Option.some_ne_none n)
      simp [hLooks]

/-! ### Histories -/

theorem after_concat (h : List (Access ι)) (a : Access ι) :
    after (h ++ [a]) = (after h).next a := by
  simp [after]

theorem results_concat (s : SharedLines ι) (h : List (Access ι)) (a : Access ι) :
    s.results (h ++ [a]) = s.results h ++ ((h.foldl next s).returned? a).toList := by
  induction h generalizing s with
  | nil => simp [results]
  | cons b h ih => simp [results, ih]

theorem sound_after (h : List (Access ι)) : (after h).Sound := by
  induction h using List.reverseRecOn with
  | nil => exact fun _ _ hSeen => by cases hSeen
  | append_singleton h a ih =>
    rw [after_concat]
    exact ih.next a

/-- **A line that has been raised stays pending** until somebody lowers it or a call returns it. -/
theorem isPending_of_raised (g g' : List (Access ι)) (hLower : .lower n ∉ g')
    (hReturn : some n ∉ (after (g ++ [.raise n])).results g') :
    (after (g ++ .raise n :: g')).lines.isPending n = true := by
  induction g' using List.reverseRecOn with
  | nil =>
    rw [after_concat, isPending_next_iff (sound_after g)]
    exact .inl rfl
  | append_singleton g' a ih =>
    have hSplit : g ++ .raise n :: (g' ++ [a]) = (g ++ .raise n :: g') ++ [a] := by simp
    have hFold : g'.foldl next (after (g ++ [.raise n])) = after (g ++ .raise n :: g') := by
      simp [after]
    rw [results_concat, hFold, List.mem_append, not_or] at hReturn
    rw [List.mem_append, not_or] at hLower
    rw [hSplit, after_concat, isPending_next_iff (sound_after _)]
    refine .inr ⟨ih hLower.1 hReturn.1, fun h => hLower.2 (by simp [h]), fun h => hReturn.2 ?_⟩
    simp [h]

/-- **A line is pending only because it has been raised**, and no call has returned it since. -/
theorem exists_raise (h : List (Access ι)) (hPending : (after h).lines.isPending n = true) :
    ∃ g g', h = g ++ .raise n :: g' ∧ some n ∉ (after (g ++ [.raise n])).results g' := by
  induction h using List.reverseRecOn with
  | nil => simp [after, IrqLines.isPending] at hPending
  | append_singleton h a ih =>
    rw [after_concat, isPending_next_iff (sound_after h)] at hPending
    rcases hPending with rfl | ⟨hBefore, -, hKept⟩
    · exact ⟨h, [], rfl, by simp [results]⟩
    · obtain ⟨g, g', rfl, hReturn⟩ := ih hBefore
      have hFold : g'.foldl next (after (g ++ [.raise n])) = after (g ++ .raise n :: g') := by
        simp [after]
      refine ⟨g, g' ++ [a], by simp, ?_⟩
      rw [results_concat, hFold, List.mem_append, not_or]
      exact ⟨hReturn, by simpa [eq_comm] using hKept⟩

/-- **No line is lost, and none is taken twice**, whatever the order of the accesses. At the end of
every history:
* an exchange succeeds if the taker has seen the lines that are pending, and it returns the lowest
  of them, which is pending no more, with all others as they were; and only so is a line returned;
* a line is pending if it has been raised and since then neither lowered nor returned;
* a line is returned only if it has been raised since it was last returned;
* a call comes back with nothing only if no line is pending. -/
theorem sharing (h : List (Access ι)) :
    (∀ t, (after h).Exchanges t → ∃ n,
        (after h).lines.isPending n = true ∧ (∀ k < n, (after h).lines.isPending k = false) ∧
        (after h).returned? (.take t) = some (some n) ∧
        ∀ k, (after (h ++ [.take t])).lines.isPending k =
          ((after h).lines.isPending k && decide (k ≠ n))) ∧
      (∀ t n, (after h).returned? (.take t) = some (some n) → (after h).Exchanges t) ∧
      (∀ g g' n, h = g ++ .raise n :: g' → .lower n ∉ g' →
        some n ∉ (after (g ++ [.raise n])).results g' →
        (after h).lines.isPending n = true) ∧
      (∀ t n, (after h).returned? (.take t) = some (some n) →
        ∃ g g', h = g ++ .raise n :: g' ∧ some n ∉ (after (g ++ [.raise n])).results g') ∧
      ∀ t, (after h).returned? (.take t) = some none →
        ∀ n, (after h).lines.isPending n = false := by
  have hSound := sound_after h
  refine ⟨fun t hExchanges => ?_, fun t n hReturns => (returned_some hSound hReturns).1, ?_,
    fun t n hReturns => ?_, fun t => returned_none hSound⟩
  · rcases access_cases hSound t with ⟨-, n, hLowest, hAccess⟩ | ⟨hLooks, -⟩
    · refine ⟨n, IrqLines.isPending_of_lowest hLowest,
        fun _ => IrqLines.isPending_of_lt_lowest hLowest, ?_, fun k => ?_⟩
      · rw [returned?, hAccess]
        rfl
      · rw [after_concat]
        change ((after h).access t).2.isPending k = _
        rw [hAccess, IrqLines.isPending_lower]
    · exact absurd hExchanges hLooks
  · rintro g g' n rfl hLower hReturn
    exact isPending_of_raised g g' hLower hReturn
  · exact exists_raise h (IrqLines.isPending_of_lowest (returned_some hSound hReturns).2)

/-- Line 4 is seen, but line 1 is raised before the exchange: the second look finds both, and line 1
is taken first. -/
example : (after (ι := Unit) []).results
    [.raise 4, .take (), .raise 1, .take (), .take (), .take (), .take (), .take ()] =
      [some 1, some 4, none] := by
  decide

end SharedLines

end X86
