import Psuart.Proof.Utils.Comparison

namespace Psuart

variable {c d : Byte} {source decPrefix : List Byte}

theorem runsOver_nil (source : List Byte) : ¬RunsOver source [] := fun runs => Nat.not_lt_zero _ runs.1

theorem nil_runsOver (d : Byte) (decPrefix : List Byte) : RunsOver [] (d :: decPrefix) :=
  ⟨Nat.zero_lt_succ _, List.not_mem_nil, .nil⟩

/-- The loop goes on behind a character that matches and is no star. -/
theorem runsOver_cons :
    RunsOver (c :: source) (d :: decPrefix) ↔ d ≠ charByte '*' ∧ MatchesChar c d ∧ RunsOver source decPrefix := by
  simp only [RunsOver, List.length_cons, List.take_succ_cons, List.mem_cons, not_or, List.forall₂_cons,
    Nat.add_lt_add_iff_right]
  constructor
  · rintro ⟨longer, ⟨plain, others⟩, fits, fit⟩
    exact ⟨Ne.symm plain, fits, longer, others, fit⟩
  · rintro ⟨plain, fits, longer, others, fit⟩
    exact ⟨longer, ⟨Ne.symm plain, others⟩, fits, fit⟩

theorem matchesPrefix_nil (source : List Byte) : MatchesPrefix source [] := ⟨[], source, rfl, .nil⟩

theorem matchesPrefix_star (source decPrefix : List Byte) : MatchesPrefix source (charByte '*' :: decPrefix) := by
  refine ⟨[], source, rfl, ?_⟩
  rw [fixedPrefix, List.takeWhile_cons_of_neg (by simp)]
  exact .nil

theorem matchesPrefix_cons (plain : d ≠ charByte '*') :
    MatchesPrefix (c :: source) (d :: decPrefix) ↔ MatchesChar c d ∧ MatchesPrefix source decPrefix := by
  have goes : fixedPrefix (d :: decPrefix) = d :: fixedPrefix decPrefix :=
    List.takeWhile_cons_of_pos (by simpa using plain)
  simp only [MatchesPrefix, goes]
  constructor
  · rintro ⟨front, rest, split, pairs⟩
    obtain ⟨first, others, fits, fit, rfl⟩ := List.forall₂_cons_right_iff.mp pairs
    obtain ⟨rfl, rfl⟩ := List.cons.inj split
    exact ⟨fits, others, rest, rfl, fit⟩
  · rintro ⟨fits, front, rest, rfl, fit⟩
    exact ⟨c :: front, rest, rfl, .cons fits fit⟩

/-- The place behind the loop: the matching prefix, the end behind a star or zero behind a difference. -/
theorem removePrefixLoop_inside (sourceLen decPrefixLen : Nat) (fits : ¬RunsOver source decPrefix) :
    (MatchesPrefix source decPrefix → removePrefixLoop sourceLen decPrefixLen source decPrefix =
        if charByte '*' ∈ decPrefix then sourceLen else decPrefixLen) ∧
      (¬MatchesPrefix source decPrefix → removePrefixLoop sourceLen decPrefixLen source decPrefix = 0) := by
  induction decPrefix generalizing source with
  | nil =>
      rw [if_neg List.not_mem_nil, removePrefixLoop]
      exact ⟨fun _ => rfl, fun differs => absurd (matchesPrefix_nil source) differs⟩
  | cons d decPrefix ih =>
      cases source with
      | nil => exact absurd (nil_runsOver d decPrefix) fits
      | cons c source =>
          rw [removePrefixLoop]
          by_cases star : d = charByte '*'
          · rw [if_pos star, star, if_pos List.mem_cons_self]
            exact ⟨fun _ => rfl, fun differs => absurd (matchesPrefix_star _ decPrefix) differs⟩
          have later : charByte '*' ∈ d :: decPrefix ↔ charByte '*' ∈ decPrefix := by
            rw [List.mem_cons, or_iff_right (Ne.symm star)]
          simp only [if_neg star, matchesPrefix_cons star, later]
          by_cases same : MatchesChar c d
          · obtain ⟨left, right⟩ := ih fun runs => fits (runsOver_cons.mpr ⟨star, same, runs⟩)
            rw [and_iff_right same, if_neg fun other => same.elim other.2 other.1]
            exact ⟨left, right⟩
          · rw [if_pos ⟨fun equal => same (Or.inr equal), fun any => same (Or.inl any)⟩]
            exact ⟨fun both => absurd both.1 same, fun _ => rfl⟩

/-- The end of the source leaves the length of the whole prefix. -/
theorem removePrefixLoop_over (sourceLen decPrefixLen : Nat) (runs : RunsOver source decPrefix) :
    removePrefixLoop sourceLen decPrefixLen source decPrefix = decPrefixLen := by
  induction decPrefix generalizing source with
  | nil => exact absurd runs (runsOver_nil source)
  | cons d decPrefix ih =>
      cases source with
      | nil => rw [removePrefixLoop]
      | cons c source =>
          obtain ⟨plain, same, rest⟩ := runsOver_cons.mp runs
          rw [removePrefixLoop, if_neg plain, if_neg fun other => same.elim other.2 other.1]
          exact ih rest

theorem removePrefixLoopReads_inside (source decPrefix : List Byte) :
    ∀ i ∈ removePrefixLoopReads source decPrefix, i < source.length := by
  induction decPrefix generalizing source with
  | nil =>
      rw [removePrefixLoopReads.eq_def]
      cases source <;> exact List.forall_mem_nil _
  | cons d decPrefix ih =>
      cases source with
      | nil => exact List.forall_mem_nil _
      | cons c source =>
          rw [removePrefixLoopReads]
          split
          · exact List.forall_mem_nil _
          rw [List.forall_mem_cons]
          constructor
          · exact Nat.zero_lt_succ _
          split
          · exact List.forall_mem_nil _
          · rw [List.forall_mem_map]
            exact fun i member => Nat.succ_lt_succ (ih source i member)

theorem tolower_eq_star (byte : Byte) : tolower byte = charByte '*' ↔ byte = charByte '*' := by
  revert byte
  decide

theorem tolower_eq_a (byte : Byte) : tolower byte = charByte 'a' ↔ byte = charByte 'a' ∨ byte = charByte 'A' := by
  revert byte
  decide

/-- The comparison finds the special prefix in both spellings. -/
theorem utilsStrincmp_keeps (terminated : 0 ∉ decPrefix) :
    utilsStrincmp decPrefix (stringBytes "*a") 0 = 0 ↔ KeepsPrefix decPrefix := by
  have special : (cString (stringBytes "*a")).map tolower = [charByte '*', charByte 'a'] := by decide
  have lower : stringBytes "*a" = [charByte '*', charByte 'a'] := by decide
  have upper : stringBytes "*A" = [charByte '*', charByte 'A'] := by decide
  rw [utilsStrincmp_eq_zero, cString_eq terminated, special, KeepsPrefix, lower, upper]
  constructor
  · intro same
    obtain ⟨star, rest, rfl, first, others⟩ := List.map_eq_cons_iff.mp same
    obtain ⟨letter, tail, rfl, second, nothing⟩ := List.map_eq_cons_iff.mp others
    rw [List.map_eq_nil_iff.mp nothing, (tolower_eq_star star).mp first]
    rcases (tolower_eq_a letter).mp second with rfl | rfl
    · exact Or.inl rfl
    · exact Or.inr rfl
  · rintro (rfl | rfl)
    · decide
    · decide

theorem removePrefixPos_eq (terminated : 0 ∉ decPrefix) (other : ¬KeepsPrefix decPrefix) :
    removePrefixPos source decPrefix = removePrefixLoop source.length decPrefix.length source decPrefix := by
  rw [removePrefixPos, if_neg (mt (utilsStrincmp_keeps terminated).mp other)]

/-- The result is the source from the place on when the place is inside. -/
theorem removePrefix_eq (terminated : 0 ∉ decPrefix) (other : ¬KeepsPrefix decPrefix)
    (inside : removePrefixPos source decPrefix ≤ source.length) :
    removePrefix source decPrefix =
      .ok (decide (0 < removePrefixPos source decPrefix), source.drop (removePrefixPos source decPrefix)) := by
  rw [removePrefix, if_neg (Nat.not_lt.mpr inside), if_neg (mt (utilsStrincmp_keeps terminated).mp other)]

theorem fixedPrefix_eq (plain : charByte '*' ∉ decPrefix) : fixedPrefix decPrefix = decPrefix := by
  rw [fixedPrefix]
  exact Scan.takeWhile_ne_self plain

/-- A prefix without a star matches only a source that is at least as long. -/
theorem MatchesPrefix.length_le (fits : MatchesPrefix source decPrefix) (plain : charByte '*' ∉ decPrefix) :
    decPrefix.length ≤ source.length := by
  obtain ⟨front, rest, rfl, pairs⟩ := fits
  rw [fixedPrefix_eq plain] at pairs
  rw [List.length_append, pairs.length_eq]
  exact Nat.le_add_right _ _

theorem removePrefixPos_le (terminated : 0 ∉ decPrefix) (fits : KeepsPrefix decPrefix ∨ ¬RunsOver source decPrefix) :
    removePrefixPos source decPrefix ≤ source.length := by
  by_cases special : KeepsPrefix decPrefix
  · rw [removePrefixPos, if_pos ((utilsStrincmp_keeps terminated).mpr special)]
    exact Nat.zero_le _
  obtain ⟨same, different⟩ := removePrefixLoop_inside source.length decPrefix.length (fits.resolve_left special)
  rw [removePrefixPos_eq terminated special]
  by_cases matched : MatchesPrefix source decPrefix
  · rw [same matched]
    split
    · exact le_rfl
    · rename_i plain
      exact matched.length_le plain
  · rw [different matched]
    exact Nat.zero_le _

/-- A matching prefix is removed. -/
theorem removePrefix_matches (terminated : 0 ∉ decPrefix) (other : ¬KeepsPrefix decPrefix)
    (fits : ¬RunsOver source decPrefix) (matched : MatchesPrefix source decPrefix) :
    ∃ ret, removePrefix source decPrefix = .ok (ret, unmatchedRest source decPrefix) ∧
      (source ≠ [] → decPrefix ≠ [] → ret = true) := by
  have place := (removePrefixLoop_inside source.length decPrefix.length fits).1 matched
  rw [← removePrefixPos_eq terminated other] at place
  rw [removePrefix_eq terminated other (removePrefixPos_le terminated (Or.inr fits)), unmatchedRest, place]
  by_cases star : charByte '*' ∈ decPrefix
  · rw [if_pos star, if_pos (List.contains_iff_mem.mpr star), List.drop_length]
    exact ⟨_, rfl, fun visible _ => decide_eq_true (List.length_pos_of_ne_nil visible)⟩
  · rw [if_neg star, if_neg (mt List.contains_iff_mem.mp star)]
    exact ⟨_, rfl, fun _ named => decide_eq_true (List.length_pos_of_ne_nil named)⟩

theorem addPrefix_matches (source : List Byte) {decPrefix : List Byte} (plain : charByte '*' ∉ decPrefix) :
    MatchesPrefix (addPrefix source decPrefix) decPrefix := by
  refine ⟨decPrefix, source, rfl, ?_⟩
  rw [fixedPrefix_eq plain, List.forall₂_same]
  exact fun c _ => Or.inr rfl

/-- The prefix that was added is removed again. -/
theorem removePrefix_addPrefix (source : List Byte) (terminated : 0 ∉ decPrefix)
    (plain : charByte '*' ∉ decPrefix) :
    ∃ ret, removePrefix (addPrefix source decPrefix) decPrefix = .ok (ret, source) := by
  have other : ¬KeepsPrefix decPrefix := by
    rintro (rfl | rfl)
    · exact plain (by decide)
    · exact plain (by decide)
  have longer : ¬RunsOver (addPrefix source decPrefix) decPrefix := by
    intro runs
    have short := runs.1
    rw [addPrefix, List.length_append] at short
    omega
  obtain ⟨ret, result, _⟩ := removePrefix_matches terminated other longer (addPrefix_matches source plain)
  rw [unmatchedRest, if_neg (mt List.contains_iff_mem.mp plain), addPrefix, List.drop_left] at result
  exact ⟨ret, result⟩

/-- The call copies from its place to the terminator. -/
theorem removePrefixReads_inside (terminated : 0 ∉ decPrefix)
    (fits : KeepsPrefix decPrefix ∨ ¬RunsOver source decPrefix) :
    ∀ i ∈ removePrefixReads source decPrefix, i ≤ source.length := by
  have place := removePrefixPos_le terminated fits
  rw [removePrefixReads, List.forall_mem_append, List.forall_mem_append, List.forall_mem_cons]
  refine ⟨⟨fun i member => Nat.lt_succ_iff.mp (List.mem_range.mp member), ?_⟩, place, ?_⟩
  · split
    · exact List.forall_mem_nil _
    · exact fun i member => Nat.le_of_lt (removePrefixLoopReads_inside source decPrefix i member)
  · intro i member
    have range := List.mem_range'_1.mp member
    omega

/-- The removal is exact unless the whole source matches the front of a longer prefix. -/
theorem removePrefix_removes_iff (source decPrefix : List Byte) (terminated : 0 ∉ decPrefix) :
    RemovesPrefix source decPrefix ↔ KeepsPrefix decPrefix ∨ ¬RunsOver source decPrefix := by
  constructor
  · intro removes
    by_contra beyond
    obtain ⟨other, longer⟩ := not_or.mp beyond
    have runs := not_not.mp longer
    have place : removePrefixPos source decPrefix = decPrefix.length := by
      rw [removePrefixPos_eq terminated other, removePrefixLoop_over _ _ runs]
    have read : removePrefixPos source decPrefix ∈ removePrefixReads source decPrefix :=
      List.mem_append_right _ List.mem_cons_self
    have inside := removes.inside _ read
    rw [place] at inside
    exact Nat.not_le.mpr runs.1 inside
  · intro fits
    refine ⟨fun plain _ => removePrefix_addPrefix source terminated plain, ?_, ?_, ?_⟩
    · intro visible named other matched
      obtain ⟨ret, result, positive⟩ :=
        removePrefix_matches terminated other (fits.resolve_left other) matched
      rw [result, positive visible named]
    · intro visible named other different
      have place := (removePrefixLoop_inside source.length decPrefix.length (fits.resolve_left other)).2 different
      rw [← removePrefixPos_eq terminated other] at place
      rw [removePrefix_eq terminated other (removePrefixPos_le terminated fits), place, List.drop_zero]
      rfl
    · exact removePrefixReads_inside terminated fits

/-- A matching prefix with a star is removed in bounds. -/
theorem removePrefix_removes_star :
    0 ∉ stringBytes "00*" ∧ RemovesPrefix (stringBytes "0049") (stringBytes "00*") := by
  refine ⟨by decide, (removePrefix_removes_iff _ _ (by decide)).mpr (Or.inr ?_)⟩
  exact fun runs => absurd runs.1 (by decide)

/-- The source is shorter than the prefix, and the copy starts behind its terminator. -/
theorem removePrefix_overruns :
    removePrefix (stringBytes "a") (stringBytes "ab") = .error .sourceOverrun ∧
      2 ∈ removePrefixReads (stringBytes "a") (stringBytes "ab") ∧
      ¬RemovesPrefix (stringBytes "a") (stringBytes "ab") := by
  have read : 2 ∈ removePrefixReads (stringBytes "a") (stringBytes "ab") := by decide
  exact ⟨by decide, read, fun removes => absurd (removes.inside 2 read) (by decide)⟩

end Psuart
