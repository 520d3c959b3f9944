import LoxLang.Proofs.Machine.Bound
import LoxLang.Proofs.Machine.Chain
import LoxLang.Proofs.Scan.Terminated
import LoxLang.Proofs.Source.Along
import LoxLang.Proofs.Source.Gated
import LoxLang.Proofs.Source.Loops

namespace LoxLang
set_option autoImplicit true
open Grammar LoxLang.Parser

namespace Text

def letters : Text := "ABCDEFGHIJKLMNOPQRSTUVWXYZ_abcdefghijklmnopqrstuvwxyz"

def digits : Text := "0123456789"

def Spelled (t : Text) : Prop := ∃ b w, t = b :: w ∧ b ∈ letters ∧ ∀ c ∈ w, c ∈ letters ++ digits

theorem mem_of_filter {p : UInt8 → Bool} {t : Text}
    (h : ((List.range 256).map UInt8.ofNat).filter p = t) (b : UInt8) : p b = true ↔ b ∈ t := by
  have hb : b ∈ (List.range 256).map UInt8.ofNat :=
    List.mem_map.2 ⟨b.toNat, List.mem_range.2 b.toNat_lt, UInt8.ofNat_toNat⟩
  rw [← h, List.mem_filter, and_iff_right hb]

theorem isLetter_iff_mem (b : UInt8) : isLetter b = true ↔ b ∈ letters :=
  mem_of_filter (by decide +kernel) b

theorem isWord_iff_mem (b : UInt8) : isWord b = true ↔ b ∈ letters ++ digits := by
  have hdigit : isDigit b = true ↔ b ∈ digits := mem_of_filter (by decide +kernel) b
  rw [isWord, Bool.or_eq_true, isLetter_iff_mem, hdigit, List.mem_append]

theorem isName_iff (t : Text) :
    t.IsName ↔ t.Spelled ∧ t ∉ Token.Kind.keywords.map Prod.fst := by
  constructor
  · rintro ⟨b, w, rfl, hb, hw, hk⟩
    refine ⟨⟨b, w, rfl, (isLetter_iff_mem b).1 hb, fun c hc => (isWord_iff_mem c).1 (hw c hc)⟩, ?_⟩
    intro hmem
    obtain ⟨e, he, hword⟩ := List.mem_map.1 hmem
    have hall : ∀ e ∈ Token.Kind.keywords, Token.Kind.ofWord e.1 ≠ .identifier := by
      decide +kernel
    exact hall e he (hword ▸ hk)
  · rintro ⟨⟨b, w, rfl, hb, hw⟩, hfree⟩
    refine ⟨b, w, rfl, (isLetter_iff_mem b).2 hb, fun c hc => (isWord_iff_mem c).2 (hw c hc), ?_⟩
    by_contra hk
    exact hfree (List.mem_map_of_mem (Token.Kind.mem_keywords_of_ofWord rfl hk))

theorem IsName.reads {t : Text} (h : t.IsName) : Scan.Form.Reads .word t .identifier := by
  obtain ⟨b, w, rfl, hb, hw, hk⟩ := h
  exact hk ▸ .word hb hw

end Text

/-- All of the text is scanned, but only the tokens are looked at: what else there is in the text is
missing from the lexeme. -/
theorem isIdentifier_iff_isName (name : Text) : isIdentifier name = true ↔ name.IsName := by
  constructor
  · intro h
    unfold isIdentifier at h
    split at h
    · rename_i t u htokens
      rw [Bool.and_eq_true, decide_eq_true_eq, decide_eq_true_eq] at h
      obtain ⟨hk, rfl⟩ := h
      have hscanned : t.Scanned := by
        apply Scan.ofText_scanned t.lexeme t
        · rw [htokens]
          exact List.mem_cons_self
        · rw [hk]
          exact Token.Kind.noConfusion
      exact (hscanned.isName hk).2
    · cases h
  · intro h
    unfold isIdentifier
    rw [h.reads.ofText.1]
    simp

theorem Expr.ofTokens_of_derives {ts : List Token} {e : Expr Unit} (he : eof.kind = .eof)
    (h : Derives .assignment ts e) :
    ∃ e', Expr.ofTokens (ts ++ [eof]) = (.ok e', []) ∧ e'.erase = e := by
  have hl := left_start ts he
  have hbefore : Before Rank.assignment.continuers [eof] := .cons (by rw [he]; decide)
  obtain ⟨e', p, hrun, herase, hrest, hd⟩ := h.complete (steps (ts ++ [eof]))
    (start (ts ++ [eof])) [eof] hl hbefore (by rw [steps]; omega)
  have hend : p.cursor.current.kind = .eof := by
    obtain ⟨hcurrent, -⟩ := List.cons.inj (show p.cursor.current :: _ = [eof] from hrest)
    rw [hcurrent, he]
  refine ⟨e', ?_, herase⟩
  unfold Expr.ofTokens EStateM.run
  dsimp only
  rw [bind_ok hrun, bind_ok (peek_run p), if_pos hend]
  exact congrArg (Prod.mk _) hd

theorem derives_name {x : Token} (h : x.kind = .identifier) :
    Derives .assignment [x] (.var ⟨x, ()⟩) :=
  .noAssignment (.noOr (.noAnd (.noEquality (.noComparison (.noTerm (.noFactor (.noUnary
    (.noCall (.name h)))))))))

theorem Expr.eq_var_of_erase {e : Expr Mark} (h : e.erase = .var ⟨x, ()⟩) :
    ∃ mark, e = .var ⟨x, mark⟩ := by
  cases e with
  | var ref =>
    obtain ⟨name, mark⟩ := ref
    cases h
    exact ⟨mark, rfl⟩
  | _ => cases h

theorem Stmt.eq_reference_of_erase {ss : List (Stmt Mark)}
    (h : ss.map Stmt.erase = [.expression (.var ⟨x, ()⟩)]) :
    ∃ mark, ss = [.expression (.var ⟨x, mark⟩)] := by
  obtain ⟨s, rfl, hs⟩ := List.map_eq_singleton_iff.1 h
  cases s with
  | expression e =>
    obtain ⟨mark, rfl⟩ := Expr.eq_var_of_erase (Stmt.expression.inj hs)
    exact ⟨mark, rfl⟩
  | _ => cases hs

theorem isName_iff_reference (name : Text) : name.IsName ↔
    (Scan.ofText name).diagnostics = [] ∧
      ∃ ref, Expr.ofTokens (Scan.ofText name).tokens = (.ok (.var ref), []) ∧
        ref.name.lexeme = name := by
  constructor
  · intro h
    obtain ⟨htokens, hdiagnostics⟩ := h.reads.ofText
    refine ⟨hdiagnostics, ?_⟩
    have hend : (⟨.eof, [], none, Scan.lineAfter name⟩ : Token).kind = .eof := rfl
    have hname : (⟨.identifier, name, none, Scan.lineAfter name⟩ : Token).kind = .identifier := rfl
    obtain ⟨e, hparse, herase⟩ := Expr.ofTokens_of_derives hend (derives_name hname)
    obtain ⟨mark, rfl⟩ := Expr.eq_var_of_erase herase
    refine ⟨⟨⟨.identifier, name, none, Scan.lineAfter name⟩, mark⟩, ?_, rfl⟩
    rw [htokens]
    exact hparse
  · rintro ⟨-, ref, hparse, hname⟩
    obtain ⟨body, eof, htokens, heof, hbody⟩ := Scan.ofText_tokens name
    rw [htokens] at hparse
    have hsole : Expr.Sole body (.var ⟨ref.name, ()⟩) :=
      ⟨fun t ht => (hbody t ht).1, eof, _, heof, hparse, rfl⟩
    obtain ⟨hone, hk⟩ := hsole.derives.name_inv _ rfl
    rw [← isIdentifier_iff_isName]
    unfold isIdentifier
    rw [htokens, hone]
    change (decide (ref.name.kind = .identifier) && decide (ref.name.lexeme = name)) = true
    rw [Bool.and_eq_true, decide_eq_true_eq, decide_eq_true_eq]
    exact ⟨hk, hname⟩

namespace Machine

theorem evaluate_global (host : Host) (n : Nat) {m : Machine} {x : Token}
    (h : m.store.get? globals x.lexeme = some v) :
    evaluate host (n + 1) (.var ⟨x, none⟩) m = .ok v m := by
  have hread : lookUp x none m = .ok v m := by
    rw [lookUp, get_bind]
    dsimp only
    rw [h]
    rfl
  exact hread

end Machine

namespace Source

def reading (name : Text) : Text := name ++ [byte ';']

theorem reading_tokens (h : Text.IsName name) : ∃ x semi eof,
    (Scan.ofText (reading name)).tokens = [x, semi, eof] ∧ x.kind = .identifier ∧
      x.lexeme = name ∧ semi.kind = .semicolon ∧ eof.kind = .eof ∧
      (Scan.ofText (reading name)).diagnostics = [] := by
  have hsemi : Scan.Form.Reads .operator [byte ';'] .semicolon := .operator (by decide)
  have hname : Scan.Fits (.token .identifier) name [] := h.reads.fits fun b hb => by cases hb
  have hclose : Scan.Fits (.token .semicolon) [byte ';'] [] := hsemi.fits fun b hb => by cases hb
  have htiles : Scan.Tiles [] (reading name) _ _ := .lexeme hname.close (.lexeme hclose .finish)
  obtain ⟨htokens, hdiagnostics⟩ := htiles.eq_ofText
  exact ⟨_, _, _, htokens.symm, rfl, rfl, rfl, rfl, hdiagnostics.symm⟩

theorem reading_program (h : Text.IsName name) :
    staticFaults (reading name) = [] ∧ resolvingFaults (reading name) = [] ∧
      ∃ x : Token, x.lexeme = name ∧
        (Resolved.ofProgram (ofText (reading name)).program).tree =
          [.expression (.var ⟨x, none⟩)] := by
  obtain ⟨x, semi, eof, htokens, hx, hname, hsemi, heof, hscan⟩ := reading_tokens h
  have hderives : Declarations [x, semi] [.expression (.var ⟨x, ()⟩)] :=
    .cons (.statement (.effect (.mk (derives_name hx) hsemi))) .nil
  obtain ⟨hparse, hstatements⟩ := Parsed.of_derives heof hderives
  obtain ⟨mark, hprogram⟩ := Stmt.eq_reference_of_erase hstatements
  have hresolved : Resolved.ofProgram [.expression (.var ⟨x, mark⟩)] =
      ⟨[.expression (.var ⟨x, none⟩)], [], []⟩ := rfl
  refine ⟨?_, ?_, x, hname, ?_⟩
  · rw [staticFaults, hscan, htokens]
    exact hparse
  · rw [resolvingFaults, htokens]
    change (Resolved.ofProgram (Parsed.ofTokens ([x, semi] ++ [eof])).statements).diagnostics = []
    rw [hprogram, hresolved]
  · change (Resolved.ofProgram (Parsed.ofTokens (Scan.ofText (reading name)).tokens).statements).tree
      = _
    rw [htokens]
    change (Resolved.ofProgram (Parsed.ofTokens ([x, semi] ++ [eof])).statements).tree = _
    rw [hprogram, hresolved]

/-- The program that refers to a variable runs without faults, and with echo it writes the text of
the value that the variable has. -/
def Reads (m : Machine) (name : Text) (v : Value) : Prop :=
  ∃ line, v.text? = some line ∧ ∀ o : Options, o.echo = true → o.defines = [] → 0 < o.steps →
    (run o (reading name) m).ending = .done ∧ (run o (reading name) m).diagnostics = [] ∧
      (run o (reading name) m).machine = m.write (line ++ [Text.newline])

theorem reads_of_global (h : Text.IsName name) {m : Machine}
    (hv : (m.store.vars Machine.globals).get? name = some v) (hline : v.text? = some line) :
    Reads m name v := by
  refine ⟨line, hline, fun o hecho hdefines hsteps => ?_⟩
  obtain ⟨hs, hr, x, rfl, htree⟩ := reading_program h
  have hd : m.defineAll o.environment o.defines.sorted = (none, m) := by
    rw [hdefines, Dict.sorted, List.mergeSort_nil]
    rfl
  have hget : m.store.get? Machine.globals x.lexeme = some v := by
    have hhas : (m.store.vars Machine.globals).has x.lexeme = true := by
      rw [Dict.has, hv]
      rfl
    rw [Store.get?, Store.holder?_of_has hhas]
    exact hv
  have hvalue : Machine.value o.host o.steps (.var ⟨x, none⟩) m = (.ok v, m) := by
    obtain ⟨n, hn⟩ : ∃ n, o.steps = n + 1 := ⟨o.steps - 1, by omega⟩
    rw [hn, Machine.value, Machine.attempt, Machine.evaluate_global _ _ hget]
  have hperform (log : List Log.Record) : perform o [.expression (.var ⟨x, none⟩)] log m =
      ⟨m.write (line ++ [Text.newline]), .done, [], log⟩ := by
    unfold perform
    rw [hecho, if_pos rfl]
    dsimp only [soleExpression?]
    rw [hvalue]
    dsimp only
    rw [hline]
  rw [run_execute hs, execute_perform hs hd hr, htree, hperform]
  exact ⟨rfl, rfl, rfl⟩

end Source

namespace Machine

theorem text_of_eval (h : Formula.eval environment source = .ok v) :
    ∃ line, v.text? = some line := by
  cases eval_plain h with
  | bool b => cases b <;> exact ⟨_, rfl⟩
  | nil | number | string => exact ⟨_, rfl⟩

theorem get?_define {m : Machine} (h : globals < m.store.frames.size) (name : Text) (v : Value) :
    ((m.define name v).store.vars globals).get? name = some v := by
  rw [define, Store.vars_define_self _ _ _ h, Dict.get?_set_self]

theorem defineAll_one (environment : Text → Text) (name source : Text) (m : Machine) :
    (∃ e, m.defineAll environment [(name, source)] = (some e, m)) ∨
      ∃ v, isIdentifier name = true ∧ Formula.eval environment source = .ok v ∧
        m.defineAll environment [(name, source)] = (none, m.define name v) := by
  rw [defineAll, defineFormula]
  by_cases hname : isIdentifier name = true
  · rw [if_pos hname]
    cases hv : Formula.eval environment source with
    | ok v => exact .inr ⟨v, hname, rfl, rfl⟩
    | error e => exact .inl ⟨_, rfl⟩
  · rw [if_neg hname]
    exact .inl ⟨_, rfl⟩

end Machine

/-- The texts that pass the check of names are the words that are not reserved; they are the texts
that scan and parse, without faults, as a reference by themselves. So a definition on a machine that
has a frame of globals fails and leaves the machine as it was, or its name is bound to a value that
a program reads by that name. -/
theorem isIdentifier_exact (name : Text) :
    (isIdentifier name = true ↔ name.Spelled ∧ name ∉ Token.Kind.keywords.map Prod.fst) ∧
    (isIdentifier name = true ↔ (Scan.ofText name).diagnostics = [] ∧
      ∃ ref, Expr.ofTokens (Scan.ofText name).tokens = (.ok (.var ref), []) ∧
        ref.name.lexeme = name) ∧
    ∀ (environment : Text → Text) (source : Text) (m : Machine),
      Machine.globals < m.store.frames.size →
      (∃ e, m.defineAll environment [(name, source)] = (some e, m)) ∨
        ∃ v, Formula.eval environment source = .ok v ∧
          m.defineAll environment [(name, source)] = (none, m.define name v) ∧
          (m.define name v).global name = v ∧ Source.Reads (m.define name v) name v := by
  refine ⟨(isIdentifier_iff_isName name).trans name.isName_iff,
    (isIdentifier_iff_isName name).trans (isName_iff_reference name), ?_⟩
  intro environment source m hglobals
  obtain hfailed | ⟨v, hname, hv, hdefined⟩ := m.defineAll_one environment name source
  · exact .inl hfailed
  · have hget := Machine.get?_define hglobals name v
    obtain ⟨line, hline⟩ := Machine.text_of_eval hv
    refine .inr ⟨v, hv, hdefined, ?_, ?_⟩
    · rw [Machine.global, hget]
      rfl
    · exact Source.reads_of_global ((isIdentifier_iff_isName name).1 hname) hget hline

/-- A sum is defined on a new machine, and read by its name. -/
theorem isIdentifier_exact_sum : ∃ v, Formula.eval (fun _ => []) "1 + 2" = .ok v ∧
    (Machine.new Native.standard).defineAll (fun _ => []) [("sum", "1 + 2")] =
      (none, (Machine.new Native.standard).define "sum" v) ∧
    ((Machine.new Native.standard).define "sum" v).global "sum" = v ∧
    Source.Reads ((Machine.new Native.standard).define "sum" v) "sum" v := by
  refine ((isIdentifier_exact "sum").2.2 (fun _ => []) "1 + 2" (Machine.new Native.standard)
    (by decide +kernel)).resolve_left ?_
  rintro ⟨e, hfailed⟩
  have hbound : ((Machine.new Native.standard).defineAll (fun _ => []) [("sum", "1 + 2")]).1 =
    none := by decide +kernel
  rw [hfailed] at hbound
  cases hbound

/-- A comment, a blank or an open string after a name is no part of one. -/
example : isIdentifier "a//" = false ∧ isIdentifier "a " = false ∧ isIdentifier "a\"" = false := by
  decide +kernel

end LoxLang
