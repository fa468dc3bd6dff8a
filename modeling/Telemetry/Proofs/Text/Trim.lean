import Mathlib.Data.List.DropRight
import Mathlib.Data.List.TakeWhile
import Telemetry.Text.Blank
/-!
What trimming leaves of a text: a character that is not blank if anything, and everything if no
character is. A second trimming takes nothing more off.
-/

namespace Telemetry

/-- The last element that is kept does not satisfy the predicate. -/
theorem exists_mem_dropRight {α : Type} {p : α → Bool} {xs : List α} (h : dropRight p xs ≠ []) :
    ∃ x ∈ dropRight p xs, p x = false := by
  have hd : xs.reverse.dropWhile p ≠ [] := fun h' => h (by rw [dropRight, h', List.reverse_nil])
  refine ⟨(xs.reverse.dropWhile p).head hd, ?_, List.head_dropWhile_not p hd⟩
  rw [dropRight, List.mem_reverse]
  exact List.head_mem hd

theorem isBlankText_trim {s : String} (h : trim s ≠ "") : isBlankText (trim s) = false := by
  have hne : trimChars s.toList ≠ [] := fun h' => h (congrArg String.ofList h')
  obtain ⟨c, hc, hb⟩ := exists_mem_dropRight hne
  rw [isBlankText, trim, String.toList_ofList, List.all_eq_false]
  exact ⟨c, hc, by simp [hb]⟩

theorem trimChars_eq_self {cs : List Char} (h : ∀ c ∈ cs, isBlank c = false) : trimChars cs = cs := by
  have kept {xs : List Char} (hx : ∀ c ∈ xs, c ∈ cs) : xs.dropWhile isBlank = xs := by
    apply List.dropWhile_eq_self_iff.mpr
    intro hl
    simp [h _ (hx _ (List.getElem_mem hl))]
  rw [trimChars, dropRight, kept fun c hc => hc, kept fun c hc => List.mem_reverse.mp hc,
    List.reverse_reverse]

theorem trimChars_trimChars (cs : List Char) : trimChars (trimChars cs) = trimChars cs := by
  -- What is left begins as the text without its first blanks does.
  have left : (trimChars cs).dropWhile isBlank = trimChars cs := by
    obtain ⟨blanks, split⟩ : trimChars cs <+: cs.dropWhile isBlank := List.rdropWhile_prefix _ _
    refine List.dropWhile_eq_self_iff.mpr fun some => ?_
    have begins : 0 < (cs.dropWhile isBlank).length := by
      rw [← split, List.length_append]
      omega
    have first := List.dropWhile_eq_self_iff.mp (List.dropWhile_idempotent isBlank cs) begins
    simpa only [← split, List.getElem_append_left some] using first
  rw [trimChars, left]
  exact List.rdropWhile_idempotent _ _

theorem trim_trim (s : String) : trim (trim s) = trim s := by
  rw [trim, trim, String.toList_ofList, trimChars_trimChars]

end Telemetry
