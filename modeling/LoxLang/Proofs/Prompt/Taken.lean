import LoxLang.Proofs.Prompt.Drafts

namespace LoxLang

namespace Prompt
set_option autoImplicit true

/-- Enter takes the line. -/
structure Takes (p : Prompt) : Prop where
  idle : p.running = none
  none : p.cycling = true → p.found = []
  line : p.field.text.trim ≠ []

theorem Takes.handle {p : Prompt} (h : p.Takes) : p.handle .enter = some p.submit := by
  have htakes : (!p.cycling || p.found.isEmpty) = true := by
    cases hcycling : p.cycling with
    | false => rfl
    | true => simp [h.none hcycling]
  rw [handle_idle h.idle, press, if_pos htakes]

end Prompt

end LoxLang
