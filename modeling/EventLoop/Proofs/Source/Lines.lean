import EventLoop.Proofs.Source.Stretch

/-!
# The lines of a text

A text is split into lines at its line feeds.  The place behind some characters stands on the
line whose number is that of the line feeds among them, and in this line or directly behind it
(`exists_line`).
-/

namespace EventLoop

theorem splitOn_feed (text : List Char) :
    ('\n' :: text).splitOn '\n' = [] :: text.splitOn '\n' := by
  rw [List.splitOn, List.splitOnP_cons_eq_if_modifyHead, if_pos (by decide)]
  rfl

theorem splitOn_cons {c : Char} (h : c ≠ '\n') (text : List Char) :
    (c :: text).splitOn '\n' = (text.splitOn '\n').modifyHead (c :: ·) := by
  rw [List.splitOn, List.splitOnP_cons_eq_if_modifyHead, if_neg (by simpa using h)]
  rfl

/-- The line on which a place stands goes at least up to the place. -/
theorem exists_line (before after : List Char) :
    ∃ line, ((before ++ after).splitOn '\n')[before.count '\n']? = some line ∧
      columnAfter before ≤ line.length := by
  induction before with
  | nil =>
      obtain ⟨line, rest, hlines⟩ :=
        List.exists_cons_of_ne_nil (List.splitOnP_ne_nil (· == '\n') after)
      exact ⟨line, by rw [List.nil_append, List.splitOn, hlines]; rfl, Nat.zero_le _⟩
  | cons c before ih =>
      obtain ⟨line, hline, hcolumn⟩ := ih
      by_cases hfeed : c = '\n'
      · subst hfeed
        refine ⟨line, ?_, by rwa [columnAfter_feed]⟩
        rw [List.cons_append, splitOn_feed, List.count_cons_self, List.getElem?_cons_succ, hline]
      · rw [List.cons_append, splitOn_cons hfeed, List.count_cons_of_ne hfeed]
        by_cases hmem : '\n' ∈ before
        · -- the place stands on a later line
          obtain ⟨number, hnumber⟩ := Nat.exists_eq_succ_of_ne_zero
            (Nat.ne_of_gt (List.count_pos_iff.2 hmem))
          refine ⟨line, ?_, by rwa [columnAfter_cons_of_mem c hmem]⟩
          rw [hnumber] at hline ⊢
          cases hlines : (before ++ after).splitOn '\n' with
          | nil => simp [hlines] at hline
          | cons first rest => simpa [hlines] using hline
        · have hnone : before.count '\n' = 0 := List.count_eq_zero.2 hmem
          have hnot : '\n' ∉ c :: before := by simp [hmem, Ne.symm hfeed]
          rw [columnAfter_of_not_mem hmem] at hcolumn
          rw [hnone] at hline ⊢
          refine ⟨c :: line, ?_, ?_⟩
          · cases hlines : (before ++ after).splitOn '\n' with
            | nil => simp [hlines] at hline
            | cons first rest => simpa [hlines] using hline
          · rw [columnAfter_of_not_mem hnot, List.length_cons, List.length_cons]
            exact Nat.succ_le_succ hcolumn

end EventLoop
