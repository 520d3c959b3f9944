import LoxLang.Proofs.Parser.Exact
import LoxLang.Proofs.Scan.Spaced
import LoxLang.Proofs.Tree.Dumped
import LoxLang.Source

namespace LoxLang
set_option autoImplicit true

theorem Stmt.anywhere_erase (s : Stmt μ) : s.erase.anywhere = s.anywhere := Stmt.map_map _ _ _ _ s

namespace Source

theorem program_written (h : (ofText t).diagnostics = []) :
    Stmt.WrittenAll ((ofText t).program.map Stmt.erase) := by
  obtain ⟨body, eof, htokens, heof, hbody⟩ := Scan.ofText_tokens t
  have hparse : (Parsed.ofTokens (Scan.ofText t).tokens).diagnostics = [] :=
    (List.append_eq_nil_iff.1 h).2
  rw [htokens] at hparse
  have hprogram : (ofText t).program = (Parsed.ofTokens (body ++ [eof])).statements :=
    congrArg (fun ts => (Parsed.ofTokens ts).statements) htokens
  have hderives := Parsed.derives heof (fun u hu => (hbody u hu).1) hparse
  rw [hprogram]
  apply hderives.written
  intro u hu
  exact Scan.ofText_scanned t u (htokens ▸ List.mem_append_left _ hu) (hbody u hu).1

/-- Texts without faults are printed alike if and only if their trees are the same up to the places
of the tokens, and they are dumped alike under the same condition. -/
theorem dumps_faithful (hp : (ofText p).diagnostics = []) (hq : (ofText q).diagnostics = []) :
    (Stmt.programText (ofText p).program = Stmt.programText (ofText q).program ↔
      (ofText p).program.map Stmt.anywhere = (ofText q).program.map Stmt.anywhere) ∧
    (Stmt.programDump (ofText p).program = Stmt.programDump (ofText q).program ↔
      (ofText p).program.map Stmt.anywhere = (ofText q).program.map Stmt.anywhere) := by
  have herase (ss : List (Stmt Mark)) :
      (ss.map Stmt.erase).map Stmt.anywhere = ss.map Stmt.anywhere := by
    rw [List.map_map]
    exact List.map_congr_left fun s _ => Stmt.anywhere_erase s
  have htext := Stmt.programText_inj (program_written hp) (program_written hq)
  have hdump := Stmt.programDump_inj (program_written hp) (program_written hq)
  rw [← Stmt.programText_anywhere, ← Stmt.programText_anywhere (List.map _ (ofText q).program),
    herase, herase, Stmt.programText_anywhere, Stmt.programText_anywhere] at htext
  rw [← Stmt.programDump_anywhere, ← Stmt.programDump_anywhere (List.map _ (ofText q).program),
    herase, herase, Stmt.programDump_anywhere, Stmt.programDump_anywhere] at hdump
  exact ⟨htext, hdump⟩

/-- The same function on one line and on three, with one number written in two ways. -/
theorem dumps_faithful_spaced :
    ((ofText "fun f(a) \x7b return a.b = -1.50; \x7d").diagnostics = [] ∧
      (ofText "fun f(a) \x7b\n  return a.b = - 1.5;\n\x7d").diagnostics = []) ∧
    (ofText "fun f(a) \x7b return a.b = -1.50; \x7d").program.map Stmt.anywhere =
      (ofText "fun f(a) \x7b\n  return a.b = - 1.5;\n\x7d").program.map Stmt.anywhere ∧
    Stmt.programDump (ofText "fun f(a) \x7b return a.b = -1.50; \x7d").program =
      Stmt.programDump (ofText "fun f(a) \x7b\n  return a.b = - 1.5;\n\x7d").program := by
  have hp : (ofText "fun f(a) \x7b return a.b = -1.50; \x7d").diagnostics = [] := by
    decide +kernel
  have hq : (ofText "fun f(a) \x7b\n  return a.b = - 1.5;\n\x7d").diagnostics = [] := by
    decide +kernel
  have hsame : Stmt.programText (ofText "fun f(a) \x7b return a.b = -1.50; \x7d").program =
      Stmt.programText (ofText "fun f(a) \x7b\n  return a.b = - 1.5;\n\x7d").program := by
    decide +kernel
  have hfaithful := dumps_faithful hp hq
  have htree := hfaithful.1.1 hsame
  exact ⟨⟨hp, hq⟩, htree, hfaithful.2.2 htree⟩

end Source

end LoxLang
