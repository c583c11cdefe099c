import StepRunner.Text.Blank

/-!
# Texts of bounded length

There are finitely many texts of at most so many bytes.
-/

namespace StepRunner.Text

theorem exists_all_chars : ∃ all : List Char, ∀ c, c ∈ all :=
  ⟨(List.range UInt32.size).map Char.ofNat, fun c =>
    List.mem_map.mpr ⟨c.toNat, List.mem_range.mpr c.val.toNat_lt, Char.ofNat_toNat c⟩⟩

theorem exists_all_of_byteLength_le (n : Nat) :
    ∃ all : List (List Char), ∀ cs, byteLength cs ≤ n → cs ∈ all := by
  induction n with
  | zero =>
    refine ⟨[[]], fun cs h => ?_⟩
    cases cs with
    | nil => exact List.mem_cons_self
    | cons c r =>
      have := c.utf8Size_pos
      rw [byteLength_cons] at h
      omega
  | succ n ih =>
    obtain ⟨chars, hchars⟩ := exists_all_chars
    obtain ⟨shorter, hshorter⟩ := ih
    refine ⟨[] :: chars.flatMap fun c => shorter.map (c :: ·), fun cs h => ?_⟩
    cases cs with
    | nil => exact List.mem_cons_self
    | cons c r =>
      have := c.utf8Size_pos
      rw [byteLength_cons] at h
      exact List.mem_cons_of_mem _ <| List.mem_flatMap.mpr
        ⟨c, hchars c, List.mem_map.mpr ⟨r, hshorter r (by omega), rfl⟩⟩

end StepRunner.Text
