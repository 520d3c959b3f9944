import LoxLang.Proofs.Prompt.Safe
import LoxLang.Proofs.Source.Named

namespace LoxLang

namespace Session
set_option autoImplicit true

/-- A session that came about from a new one by definitions and runs. A run may be interrupted at any
point. -/
inductive Reached : Session → Prop where
  | new : Reached .new
  | define (environment : Text → Text) (defines : Dict Text) :
      Reached s → Reached (s.define environment defines).2
  | run (o : Options) (hnatives : o.host.natives = Native.standard) (t : Text) :
      Reached s → Reached (drain (Source.run o t s.machine)).2

theorem Reached.eval (h : Reached s) (now : Int) (signal : Signal) (line : Text) :
    Reached (s.eval now signal line).2 :=
  h.run ⟨host now signal, true, [], fun _ => [], Machine.ample⟩ rfl (Prompt.terminated line)

theorem Reached.load (h : Reached s) (now : Int) (signal : Signal) (program : Text) :
    Reached (s.load now signal program).2.2 :=
  h.run ⟨host now signal, false, [], fun _ => [], Machine.ample⟩ rfl program

theorem standard_named : ∀ f ∈ Native.standard, f.Named := by
  intro f hf now args _
  rw [List.mem_singleton.1 hf]
  exact .done trivial

theorem Reached.named (h : Reached s) : s.machine.store.Named := by
  induction h with
  | new =>
    apply Machine.new_named
    intro f hf
    rw [List.mem_singleton.1 hf]
    change Text.AllWord "clock"
    decide +kernel
  | define environment defines _ ih =>
    exact Machine.defineAll_keeps (I := fun m => m.store.Named) Machine.define_named _ _ ih
  | run o hnatives t _ ih =>
    apply Source.run_named _ t ih
    rw [hnatives]
    exact standard_named

theorem Reached.globals (h : Reached s) : ∀ x ∈ s.globals, x.AllWord := by
  intro x hx
  obtain ⟨e, he, rfl⟩ := List.mem_map.1 (List.mem_mergeSort.1 hx)
  exact (h.named.vars _ e he).1

theorem Reached.members (h : Reached s) (name : Text) : ∀ x ∈ s.members name, x.AllWord := by
  intro x hx
  unfold Session.members at hx
  split at hx
  · rename_i id c hlookup
    have hc : c.Named := (h.named.vars _ _ (Dict.mem_of_get? hlookup)).2
    rcases List.mem_append.1 hx with hx | hx
    · obtain ⟨e, he, rfl⟩ := List.mem_map.1 (List.mem_mergeSort.1 hx)
      exact (h.named.fields id e he).1
    · exact hc.methodNames x (List.mem_filter.1 hx).1
  · rename_i c hlookup
    have hc : c.Named := (h.named.vars _ _ (Dict.mem_of_get? hlookup)).2
    exact hc.methodNames x hx
  · exact absurd hx List.not_mem_nil

end Session

namespace Prompt
set_option autoImplicit true

theorem revise_reached {s : Session} (h : s.Reached) (now : Int) (signal : Signal)
    (failure replies shown stdout stderr : Text) (saves : List Text) :
    (Editing.revise now signal failure saves replies shown stdout stderr s).session.Reached := by
  induction saves generalizing replies shown stdout stderr s with
  | nil => exact h
  | cons saved saves ih =>
    have hload := h.load now signal saved
    rw [Editing.revise]
    split
    · exact h
    · dsimp only
      split
      · split
        · exact hload
        · split
          · exact hload
          · exact ih hload _ _ _ _
      · exact hload

/-- A message that a prompt may get: sessions come about as above, and edits from editing one. -/
def Message.Real : Message → Prop
  | .session s => s.Reached
  | .edited e => ∃ now signal editor buffer s, Session.Reached s ∧
      e = Editing.run now signal editor buffer s
  | .key _ | .resize _ | .finished _ => True

theorem keywords_allWord : ∀ x ∈ Token.Kind.keywords.map Prod.fst, x.AllWord := by
  decide +kernel

theorem commands_allWord : ∀ x ∈ commands, x.AllWord := by
  decide +kernel

theorem completions_allWord {p : Prompt} (h : p.session.Reached) (word : Word) :
    ∀ c ∈ p.completions word, c.AllWord := by
  intro c hc
  unfold completions at hc
  split at hc
  · split at hc
    · exact absurd hc List.not_mem_nil
    · exact commands_allWord c (mem_of_mem_find hc)
  · split at hc
    · rename_i name _
      dsimp only at hc
      split at hc
      · exact h.members name c hc
      · exact h.members name c (mem_of_mem_find hc)
    · split at hc
      · exact absurd hc List.not_mem_nil
      · rcases List.mem_append.1 (mem_of_mem_find hc) with hc | hc
        · exact keywords_allWord c hc
        · exact h.globals c hc

end Prompt

end LoxLang
