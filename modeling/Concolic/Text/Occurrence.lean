/-!
# Texts inside texts
-/

namespace Concolic.Text

/-- Whether a text occurs somewhere in another one. -/
def occursIn (pattern : List Char) : List Char → Bool
  | [] => pattern.isEmpty
  | character :: rest => pattern.isPrefixOf (character :: rest) || occursIn pattern rest

theorem occursIn_iff {pattern text : List Char} : occursIn pattern text = true ↔ pattern <:+: text := by
  induction text with
  | nil => simp [occursIn]
  | cons character rest ih =>
      simp only [occursIn, Bool.or_eq_true, List.isPrefixOf_iff_prefix, ih, List.infix_cons_iff]

end Concolic.Text
