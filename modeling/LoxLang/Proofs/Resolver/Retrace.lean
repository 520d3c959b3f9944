import LoxLang.Proofs.Resolver.Marks
import LoxLang.Proofs.Resolver.Run
import LoxLang.Proofs.Resolver.Sound
import LoxLang.Proofs.Tree.Rename

namespace LoxLang
set_option autoImplicit true

/-- An expression before it is resolved. The numbers of its places do not count. -/
def Expr.unresolved (e : Expr Distance) : Expr Mark := e.map (fun _ => 0) id

def Reference.unresolved (ref : Reference Distance) : Reference Mark := ref.map (fun _ => 0) id

def Stmt.unresolved (s : Stmt Distance) : Stmt Mark := s.map (fun _ => 0) id

def Routine.unresolved (r : Routine (Stmt Distance)) : Routine (Stmt Mark) :=
  Stmt.mapRoutine (fun _ => 0) id r

theorem Stmt.map_erase_unresolved (ss : List (Stmt Distance)) :
    (ss.map Stmt.unresolved).map Stmt.erase = ss.map Stmt.erase := by
  rw [List.map_map]
  exact List.map_congr_left fun s _ => Stmt.map_map (fun _ => 0) (fun _ => ()) id id s

namespace Resolver

inductive ScopesSpelled (E : Exchange) : Legend → List Scope → List Scope → Prop where
  | nil : ScopesSpelled E Λ [] []
  | cons : Dict.Spelled E (Λ 0) Eq s s' → ScopesSpelled E Λ.outer ss ss' →
      ScopesSpelled E Λ (s :: ss) (s' :: ss')

/-- Two states of the resolver at the same place of a program that is spelled in two ways. No scope
has the new name on its own account. -/
structure Respelled (E : Exchange) (Λ : Legend) (r r' : Resolver) : Prop where
  scopes : ScopesSpelled E Λ r.scopes r'.scopes
  fresh : ∀ s ∈ r.scopes, Dict.has s E.new = false
  body : r'.body = r.body
  home : r'.home = r.home
  faults : r'.diagnostics.length = r.diagnostics.length

/-- The second outcome is this result, and the states after both are at the same place. -/
structure Retraces (E : Exchange) (Λ : Legend) (o : α × Resolver) (o' : β × Resolver) (b : β) :
    Prop where
  result : o'.1 = b
  state : Respelled E Λ o.2 o'.2

variable {E : Exchange} {Λ : Legend} {r r' : Resolver}

theorem not_has {s s' : Scope} (h : Dict.Spelled E hot Eq s s') (hz : z ≠ E.new)
    (hn : Dict.has s E.new = false) (hno : Dict.has s z = false) (b : Bool) :
    Dict.has s' (E.spell b z) = false := by
  have hspelled (z : Text) : Dict.has s' z = Dict.has s (E.spell hot z) := by
    rw [← h.has, E.spell_spell]
  rw [hspelled]
  by_cases hold : z = E.old
  · subst hold
    cases b with
    | false =>
      cases hot with
      | false => exact hno
      | true => rwa [E.spell_false, E.spell_old]
    | true =>
      cases hot with
      | false => rwa [E.spell_old]
      | true => rwa [E.spell_spell]
  · rwa [E.spell_of_ne _ hold hz, E.spell_of_ne _ hold hz]

theorem ScopesSpelled.distance {ss ss' : List Scope} (h : ScopesSpelled E Λ ss ss')
    (hfresh : ∀ s ∈ ss, Dict.has s E.new = false) (hz : z ≠ E.new) :
    Resolver.distance ss' (E.spell ((Resolver.distance ss z).any Λ) z) =
      Resolver.distance ss z := by
  induction h with
  | nil => rfl
  | @cons Λ s s' ss ss' hs _ ih =>
    obtain ⟨hn, hfresh⟩ := List.forall_mem_cons.1 hfresh
    unfold Resolver.distance at ih ⊢
    rw [List.findIdx?_cons, List.findIdx?_cons]
    by_cases hhas : s.has z
    · rw [if_pos hhas, Option.any_some, hs.has, if_pos hhas]
    · rw [if_neg hhas]
      have hname : ((ss.findIdx? (Dict.has · z)).map (· + 1)).any Λ =
          (ss.findIdx? (Dict.has · z)).any Λ.outer := by
        cases ss.findIdx? (Dict.has · z) with
        | none => rfl
        | some k => rfl
      rw [hname, not_has hs hz hn (Bool.eq_false_iff.2 hhas), ih hfresh]
      rfl

theorem ScopesSpelled.head_get? {ss ss' : List Scope} {z : Text} (h : ScopesSpelled E Λ ss ss')
    (hfresh : ∀ s ∈ ss, Dict.has s E.new = false) (hz : z ≠ E.new) :
    Dict.get? (ss'.head?.getD []) (E.spell ((Resolver.distance ss z).any Λ) z) =
      Dict.get? (ss.head?.getD []) z := by
  cases h with
  | nil => rfl
  | @cons _ s s' ss ss' hs _ =>
    have hn := hfresh s List.mem_cons_self
    simp only [List.head?_cons, Option.getD_some]
    by_cases hhas : Dict.has s z
    · unfold Resolver.distance
      rw [List.findIdx?_cons, if_pos hhas, Option.any_some]
      exact hs.get?_eq z
    · have hno := not_has hs hz hn (Bool.eq_false_iff.2 hhas)
      have hnone {s : Scope} {x : Text} (h : Dict.has s x = false) : Dict.get? s x = none :=
        Option.isNone_iff_eq_none.1 (Option.isSome_eq_false_iff.1 h)
      rw [hnone (hno _), hnone (Bool.eq_false_iff.2 hhas)]

theorem ScopesSpelled.head_has {ss ss' : List Scope} (h : ScopesSpelled E Λ ss ss') (x : Text) :
    Dict.has (ss'.head?.getD []) (E.spell (Λ 0) x) = Dict.has (ss.head?.getD []) x := by
  cases h with
  | nil => rfl
  | cons hs _ => exact hs.has x

theorem ScopesSpelled.cases_head (h : ScopesSpelled E Λ ss ss') : (ss = [] ∧ ss' = []) ∨
    ∃ s rest s' rest', ss = s :: rest ∧ ss' = s' :: rest' ∧ Dict.Spelled E (Λ 0) Eq s s' ∧
      ScopesSpelled E Λ.outer rest rest' := by
  cases h with
  | nil => exact .inl ⟨rfl, rfl⟩
  | cons hs hss => exact .inr ⟨_, _, _, _, rfl, rfl, hs, hss⟩

theorem ScopesSpelled.tail (h : ScopesSpelled E Λ ss ss') :
    ScopesSpelled E Λ.outer ss.tail ss'.tail := by
  cases h with
  | nil => exact .nil
  | cons _ hss => exact hss

theorem report_spelled (h : Respelled E Λ r r') (t t' : Token) (message : Text) :
    Respelled E Λ (report t message r).2 (report t' message r').2 := by
  refine ⟨h.scopes, h.fresh, h.body, h.home, ?_⟩
  change (_ ++ [_]).length = (_ ++ [_]).length
  rw [List.length_append, List.length_append, h.faults]
  rfl

theorem begin_spelled (h : Respelled E Λ r r') (hot : Bool) :
    Respelled E (Λ.enter hot) (begin r).2 (begin r').2 := by
  refine ⟨.cons .nil h.scopes, ?_, h.body, h.home, h.faults⟩
  exact List.forall_mem_cons.2 ⟨rfl, h.fresh⟩

theorem finish_spelled (h : Respelled E Λ r r') : Respelled E Λ.outer (finish r).2 (finish r').2 :=
  ⟨h.scopes.tail, fun s hs => h.fresh s (List.mem_of_mem_tail hs), h.body, h.home, h.faults⟩

theorem mark_spelled (h : Respelled E Λ r r') (hx : x ≠ E.new) (b : Bool) :
    Respelled E Λ (mark x b r).2 (mark (E.spell (Λ 0) x) b r').2 := by
  obtain ⟨hs, hs'⟩ | ⟨s, ss, s', ss', hs, hs', hscope, hscopes⟩ := h.scopes.cases_head
  · rw [mark_nil hs, mark_nil hs']
    exact h
  · rw [mark_cons hs, mark_cons hs']
    obtain ⟨hn, hfresh⟩ := List.forall_mem_cons.1 (hs ▸ h.fresh)
    refine ⟨.cons (hscope.set x rfl) hscopes, List.forall_mem_cons.2 ⟨?_, hfresh⟩, h.body, h.home,
      h.faults⟩
    rw [Dict.has, Dict.get?_set_of_ne _ _ hx.symm]
    exact hn

theorem declare_spelled (h : Respelled E Λ r r') (hx : t.lexeme ≠ E.new) :
    Respelled E Λ (declare t r).2 (declare (t.spell E (Λ 0)) r').2 := by
  rw [declare_run, declare_run, Token.spell_lexeme, h.scopes.head_has]
  refine mark_spelled ?_ hx false
  split
  · exact report_spelled h _ _ _
  · exact h

theorem define_spelled (h : Respelled E Λ r r') (hx : t.lexeme ≠ E.new) :
    Respelled E Λ (define t r).2 (define (t.spell E (Λ 0)) r').2 := mark_spelled h hx true

theorem bind_result (node : Expr Mark) (ref : Reference Mark) (r : Resolver) :
    (bind node ref r).1 = ⟨ref.name, distance r.scopes ref.name.lexeme⟩ := by
  obtain ⟨bs, hb⟩ := bind_run node ref r
  rw [hb]

theorem bind_retraces (h : Respelled E Λ r r') {ref : Reference Mark}
    (hx : ref.name.lexeme ≠ E.new) (ref' : Reference Mark)
    (hname : ref'.name = ref.name.spell E ((distance r.scopes ref.name.lexeme).any Λ))
    (node node' : Expr Mark) :
    Retraces E Λ (bind node ref r) (bind node' ref' r') ((bind node ref r).1.spell E Λ) := by
  have hdistance := h.scopes.distance h.fresh hx
  rw [← Token.spell_lexeme, ← hname] at hdistance
  refine ⟨?_, ?_⟩
  · rw [bind_result, bind_result, hdistance, hname]
    rfl
  · obtain ⟨bs, hb⟩ := bind_run node ref r
    obtain ⟨bs', hb'⟩ := bind_run node' ref' r'
    rw [hb, hb']
    exact ⟨h.scopes, h.fresh, h.body, h.home, h.faults⟩

theorem read_result (ref : Reference Mark) (r : Resolver) :
    (read ref r).1 = ⟨ref.name, distance r.scopes ref.name.lexeme⟩ := by
  rw [read_run, bind_result]
  split
  · rfl
  · rfl

theorem read_retraces (h : Respelled E Λ r r') {ref : Reference Mark}
    (hx : ref.name.lexeme ≠ E.new) (ref' : Reference Mark)
    (hname : ref'.name = ref.name.spell E ((distance r.scopes ref.name.lexeme).any Λ)) :
    Retraces E Λ (read ref r) (read ref' r') ((read ref r).1.spell E Λ) := by
  have hget := h.scopes.head_get? h.fresh hx
  rw [← Token.spell_lexeme, ← hname] at hget
  rw [read_run, read_run, hget]
  split
  · exact bind_retraces (report_spelled h _ _ _) hx ref' hname _ _
  · exact bind_retraces h hx ref' hname _ _

theorem this_retraces (h : Respelled E Λ r r') {ref : Reference Mark} (hx : ref.name.lexeme ≠ E.new) :
    Retraces E Λ (this ref r) (this ((this ref r).1.spell E Λ).unresolved r')
      ((this ref r).1.spell E Λ) := by
  unfold this
  simp only [run_bind, run_get]
  rw [h.home]
  cases r.home with
  | none => exact ⟨rfl, report_spelled h _ _ _⟩
  | plain | derived =>
    dsimp only
    apply bind_retraces h hx
    rw [bind_result]
    rfl

theorem super_retraces (h : Respelled E Λ r r') {ref : Reference Mark} (hx : ref.name.lexeme ≠ E.new)
    (method : Token) :
    Retraces E Λ (super ref method r) (super ((super ref method r).1.spell E Λ).unresolved method r')
      ((super ref method r).1.spell E Λ) := by
  unfold super
  simp only [run_bind, run_get]
  rw [h.home]
  cases r.home with
  | none | plain => exact ⟨rfl, report_spelled h _ _ _⟩
  | derived =>
    dsimp only
    apply bind_retraces h hx
    rw [bind_result]
    rfl

variable {T : Token → Prop}

mutual
theorem expr_retraces (hT : ∀ t, T t → t.lexeme ≠ E.new) (e : Expr Mark) (hf : e.Formed T)
    {r r' : Resolver} (h : Respelled E Λ r r') :
    Retraces E Λ (expr e r) (expr ((expr e r).1.spell E Λ).unresolved r')
      ((expr e r).1.spell E Λ) := by
  cases e with
  | literal v => exact ⟨rfl, h⟩
  | grouping e =>
    have he := expr_retraces hT e hf h
    exact ⟨congrArg Expr.grouping he.result, he.state⟩
  | unary op e =>
    have he := expr_retraces hT e hf.2 h
    exact ⟨congrArg (Expr.unary op) he.result, he.state⟩
  | binary l op right =>
    have hl := expr_retraces hT l hf.2.1 h
    have hr := expr_retraces hT right hf.2.2 hl.state
    exact ⟨congrArg₂ (Expr.binary · op ·) hl.result hr.result, hr.state⟩
  | logical l op right =>
    have hl := expr_retraces hT l hf.1 h
    have hr := expr_retraces hT right hf.2 hl.state
    exact ⟨congrArg₂ (Expr.logical · op ·) hl.result hr.result, hr.state⟩
  | var ref =>
    have href := read_retraces h (hT _ hf.1) ((read ref r).1.spell E Λ).unresolved
      (by rw [read_result]; rfl)
    exact ⟨congrArg Expr.var href.result, href.state⟩
  | assign ref e =>
    have he := expr_retraces hT e hf.2 h
    let node := Expr.assign ref e
    have href := bind_retraces he.state (hT _ hf.1.1)
      ((bind node ref (expr e r).2).1.spell E Λ).unresolved (by rw [bind_result]; rfl) node
    exact ⟨congrArg₂ Expr.assign (href _).result he.result, (href _).state⟩
  | call f paren args =>
    have hg := expr_retraces hT f hf.2.1 h
    have ha := exprs_retraces hT args hf.2.2 hg.state
    exact ⟨congrArg₂ (Expr.call · paren ·) hg.result ha.result, ha.state⟩
  | get o name =>
    have ho := expr_retraces hT o hf.2 h
    exact ⟨congrArg (Expr.get · name) ho.result, ho.state⟩
  | set o name e =>
    have he := expr_retraces hT e hf.2.2 h
    have ho := expr_retraces hT o hf.2.1 he.state
    exact ⟨congrArg₂ (Expr.set · name ·) ho.result he.result, ho.state⟩
  | this ref =>
    have href := this_retraces h (hT ref.name hf.1)
    exact ⟨congrArg Expr.this href.result, href.state⟩
  | super ref method =>
    have href := super_retraces h (hT ref.name hf.1.1) method
    exact ⟨congrArg (Expr.super · method) href.result, href.state⟩

theorem exprs_retraces (hT : ∀ t, T t → t.lexeme ≠ E.new) (es : List (Expr Mark))
    (hf : Expr.FormedAll T es) {r r' : Resolver} (h : Respelled E Λ r r') :
    Retraces E Λ (exprs es r)
      (exprs (Expr.mapAll (fun _ => 0) id (Expr.spellAll E Λ (exprs es r).1)) r')
      (Expr.spellAll E Λ (exprs es r).1) := by
  cases es with
  | nil => exact ⟨rfl, h⟩
  | cons e es =>
    have he := expr_retraces hT e hf.1 h
    have hes := exprs_retraces hT es hf.2 he.state
    exact ⟨congrArg₂ List.cons he.result hes.result, hes.state⟩
end

theorem expr?_retraces (hT : ∀ t, T t → t.lexeme ≠ E.new) (o : Option (Expr Mark))
    (hf : Expr.Formed? T o) {r r' : Resolver} (h : Respelled E Λ r r') :
    Retraces E Λ (expr? o r)
      (expr? (((expr? o r).1.map (Expr.spell E Λ)).map (Expr.map (fun _ => 0) id)) r')
      ((expr? o r).1.map (Expr.spell E Λ)) := by
  cases o with
  | none => exact ⟨rfl, h⟩
  | some e =>
    have he := expr_retraces hT e hf h
    exact ⟨congrArg some he.result, he.state⟩

theorem params_spelled (h : Respelled E Λ r r') (ps : List Token)
    (hp : ∀ p ∈ ps, p.lexeme ≠ E.new) :
    Respelled E Λ (params ps r).2 (params (ps.map (Token.spell E (Λ 0))) r').2 := by
  induction ps generalizing r r' with
  | nil => exact h
  | cons p ps ih =>
    obtain ⟨hx, hp⟩ := List.forall_mem_cons.1 hp
    exact ih (define_spelled (declare_spelled h hx) hx) hp

theorem checkReturn_spelled (h : Respelled E Λ r r') (word : Token) {value value' : Option (Expr Mark)}
    (hv : value'.isSome = value.isSome) :
    Respelled E Λ (checkReturn word value r).2 (checkReturn word value' r').2 := by
  have htop : Respelled E Λ
      (if r.body = .none then (report word "Can't return from top-level code." r).2 else r)
      (if r.body = .none then (report word "Can't return from top-level code." r').2 else r') := by
    split
    · exact report_spelled h _ _ _
    · exact h
  rw [checkReturn_run, checkReturn_run, h.body, hv]
  split
  · exact report_spelled htop _ _ _
  · exact htop

/-- The innermost scope has a name once it is set, and knows how far out it is. -/
theorem mark_distance (x : Text) (b : Bool) (r : Resolver) :
    distance (mark x b r).2.scopes x = none ∨ distance (mark x b r).2.scopes x = some 0 := by
  cases hs : r.scopes with
  | nil =>
    rw [mark_nil hs, hs]
    exact .inl rfl
  | cons s ss =>
    rw [mark_cons hs]
    refine .inr ?_
    simp [distance, List.findIdx?_cons, Dict.has]

theorem atSuperclass_scopes (name : Token) (ref : Reference Mark) (r : Resolver) :
    (atSuperclass name ref r).scopes = r.scopes := by
  unfold atSuperclass
  split
  · rfl
  · rfl

/-- A class that has just been declared inherits from itself in both spellings or in neither. -/
theorem inherits_iff (hx : E.spell (Λ 0) x = x) (hn : x ≠ E.new) {ss : List Scope}
    (hd : distance ss x = none ∨ distance ss x = some 0) (hz : z ≠ E.new) :
    E.spell ((distance ss z).any Λ) z = x ↔ z = x := by
  have hself : E.spell ((distance ss x).any Λ) x = x := by
    rcases hd with hd | hd
    · rw [hd]
      rfl
    · rw [hd]
      exact hx
  constructor
  · intro he
    by_cases hold : z = E.old
    · cases hb : (distance ss z).any Λ with
      | false =>
        rw [hb] at he
        exact he
      | true =>
        rw [hb, hold, E.spell_old] at he
        exact absurd he.symm hn
    · rwa [E.spell_of_ne _ hold hz] at he
  · rintro rfl
    exact hself

theorem atSuperclass_spelled (h : Respelled E Λ r r') {name : Token} {ref ref' : Reference Mark}
    (hsame : ref'.name.lexeme = name.lexeme ↔ ref.name.lexeme = name.lexeme) :
    Respelled E Λ (atSuperclass name ref r) (atSuperclass name ref' r') := by
  have htold : Respelled E Λ
      (if ref.name.lexeme = name.lexeme then
        (report ref.name "A class can't inherit from itself." r).2 else r)
      (if ref'.name.lexeme = name.lexeme then
        (report ref'.name "A class can't inherit from itself." r').2 else r') := by
    simp only [hsame]
    split
    · exact report_spelled h _ _ _
    · exact h
  exact ⟨htold.scopes, htold.fresh, htold.body, rfl, htold.faults⟩

theorem superclass_retraces (hT : ∀ t, T t → t.lexeme ≠ E.new) {name : Token}
    (hx : E.spell (Λ 0) name.lexeme = name.lexeme) (hn : name.lexeme ≠ E.new)
    (sup : Option (Reference Mark)) (hf : ∀ ref ∈ sup, ref.name.Names T)
    (hd : distance r.scopes name.lexeme = none ∨ distance r.scopes name.lexeme = some 0)
    (h : Respelled E Λ r r') :
    Retraces E (if sup.isSome then Λ.enter false else Λ) (superclass name sup r)
      (superclass name
        (((superclass name sup r).1.map (Reference.spell E Λ)).map
          (Reference.map (fun _ => 0) id)) r')
      ((superclass name sup r).1.map (Reference.spell E Λ)) := by
  cases sup with
  | none => exact ⟨rfl, h⟩
  | some ref =>
    have hz := hT _ (hf ref rfl).1
    let ref' := ((read ref (atSuperclass name ref r)).1.spell E Λ).unresolved
    have hname : ref'.name =
        ref.name.spell E ((distance (atSuperclass name ref r).scopes ref.name.lexeme).any Λ) := by
      change (Reference.spell E Λ (read ref (atSuperclass name ref r)).1).name = _
      rw [read_result]
      rfl
    have hsame : ref'.name.lexeme = name.lexeme ↔ ref.name.lexeme = name.lexeme := by
      rw [hname, atSuperclass_scopes]
      exact inherits_iff hx hn hd hz
    have hread := read_retraces (atSuperclass_spelled h hsame) hz ref' hname
    have hsuper : ("super" : Text) ≠ E.new := fun he => E.new_free (.inr he.symm)
    have hstate := mark_spelled (begin_spelled hread.state false) hsuper true
    rw [superclass_run, Option.map_some, Option.map_some]
    refine ⟨?_, ?_⟩
    · exact (congrArg Prod.fst (superclass_run name ref' r')).trans (congrArg some hread.result)
    · rw [superclass_run]
      exact hstate

def inMethods (name : Token) (sup : Option (Reference Mark)) (r : Resolver) : Resolver :=
  (mark "this" true (begin (superclass name sup (inClass name r)).2).2).2

theorem inClass_spelled (h : Respelled E Λ r r') {name : Token} (hn : name.lexeme ≠ E.new)
    (hx : E.spell (Λ 0) name.lexeme = name.lexeme) :
    Respelled E Λ (inClass name r) (inClass name r') := by
  have hplain : Respelled E Λ { r with home := .plain } { r' with home := .plain } :=
    ⟨h.scopes, h.fresh, h.body, rfl, h.faults⟩
  have hdeclared := define_spelled (declare_spelled hplain hn) hn
  rwa [Token.spell_eq_self E hx] at hdeclared

theorem leave_spelled {derived : Bool} (h : Respelled E (Λ.ofClass derived) r r') :
    Respelled E Λ (if derived then (finish (finish r).2).2 else (finish r).2)
      (if derived then (finish (finish r').2).2 else (finish r').2) := by
  cases derived with
  | false => exact finish_spelled h
  | true => exact finish_spelled (finish_spelled h)

theorem closeClass_retraces {sup : Option (Reference Mark)} {sup' : Option (Reference Distance)}
    {name : Token} {ms : List (Routine (Stmt Mark))} {ms' : List (Routine (Stmt Distance))}
    (hhome : r'.home = r.home)
    (hsup : Retraces E (if sup.isSome then Λ.enter false else Λ)
      (superclass name sup (inClass name r))
      (superclass name (sup'.map (Reference.map (fun _ => 0) id)) (inClass name r')) sup')
    (hsome : sup'.isSome = sup.isSome)
    (hms : ∀ {a'}, Respelled E (Λ.ofClass sup.isSome) (inMethods name sup r) a' →
      Retraces E (Λ.ofClass sup.isSome) (routines ms (inMethods name sup r))
        (routines (Stmt.mapRoutines (fun _ => 0) id ms') a') ms') :
    Retraces E Λ (stmt (.classDecl name sup ms) r)
      (stmt (Stmt.classDecl name sup' ms').unresolved r') (.classDecl name sup' ms') := by
  rw [Stmt.unresolved, Stmt.map, id, classDecl_run, classDecl_run]
  have hthis : ("this" : Text) ≠ E.new := fun he => E.new_free (.inl he.symm)
  have hms := hms (mark_spelled (begin_spelled hsup.state false) hthis true)
  have hout := leave_spelled hms.state
  unfold closeClass
  rw [superclass_isSome, hsup.result, hsome, ← inMethods]
  refine ⟨?_, hout.scopes, hout.fresh, hout.body, hhome, hout.faults⟩
  exact congrArg (Stmt.classDecl name sup') hms.result

mutual
theorem stmt_retraces (hT : ∀ t, T t → t.lexeme ≠ E.new) (s : Stmt Mark) (hf : s.Formed T)
    {Λ : Legend} {r r' : Resolver} (h : Respelled E Λ r r') (ht : Stmt.Spelled E Λ (stmt s r).1 t') :
    Retraces E Λ (stmt s r) (stmt t'.unresolved r') t' := by
  cases s with
  | expression e =>
    have he := expr_retraces hT e hf h
    change Stmt.Spelled E Λ (.expression _) t' at ht
    cases ht with
    | expression => exact ⟨congrArg Stmt.expression he.result, he.state⟩
  | print e =>
    have he := expr_retraces hT e hf h
    change Stmt.Spelled E Λ (.print _) t' at ht
    cases ht with
    | print => exact ⟨congrArg Stmt.print he.result, he.state⟩
  | varDecl x init =>
    have hx := hT x hf.1.1
    have hi := expr?_retraces hT init hf.2 (declare_spelled h hx)
    change Stmt.Spelled E Λ (.varDecl x _) t' at ht
    cases ht with
    | varDecl => exact ⟨congrArg (Stmt.varDecl _) hi.result, define_spelled hi.state hx⟩
  | block body =>
    change Stmt.Spelled E Λ (.block _) t' at ht
    cases ht with
    | block hot hbody =>
      have hb := stmts_retraces hT body hf (begin_spelled h hot) hbody
      exact ⟨congrArg Stmt.block hb.result, finish_spelled hb.state⟩
  | ifThen c s =>
    have hc := expr_retraces hT c hf.1 h
    change Stmt.Spelled E Λ (.ifThen _ _) t' at ht
    cases ht with
    | ifThen hs =>
      have hs := stmt_retraces hT s hf.2.2 hc.state hs
      exact ⟨congrArg₂ Stmt.ifThen hc.result hs.result, hs.state⟩
  | ifElse c s t =>
    have hc := expr_retraces hT c hf.1 h
    change Stmt.Spelled E Λ (.ifElse _ _ _) t' at ht
    cases ht with
    | ifElse hs ht =>
      have hs := stmt_retraces hT s hf.2.1.2 hc.state hs
      have ht := stmt_retraces hT t hf.2.2.2 hs.state ht
      exact ⟨congr (congrArg₂ Stmt.ifElse hc.result hs.result) ht.result, ht.state⟩
  | loop c s =>
    have hc := expr_retraces hT c hf.1 h
    change Stmt.Spelled E Λ (.loop _ _) t' at ht
    cases ht with
    | loop hs =>
      have hs := stmt_retraces hT s hf.2.2 hc.state hs
      exact ⟨congrArg₂ Stmt.loop hc.result hs.result, hs.state⟩
  | funDecl f =>
    obtain ⟨name, ps, body⟩ := f
    have hn := hT name hf.1.1
    change Stmt.Spelled E Λ (.funDecl (routine .function ⟨name, ps, body⟩
      (define name (declare name r).2).2).1) t' at ht
    cases ht with
    | @funDecl _ _ f' hx hr =>
      obtain ⟨name', ps', body'⟩ := f'
      obtain rfl : name = name' := hr.name.symm
      have hx : E.spell (Λ 0) name.lexeme = name.lexeme := hx
      have hdeclared := define_spelled (declare_spelled h hn) hn
      rw [Token.spell_eq_self E hx] at hdeclared
      have hf := routine_retraces hT .function _ hf hdeclared hr
      exact ⟨congrArg Stmt.funDecl hf.result, hf.state⟩
  | ret word value =>
    let value' := (expr? value (checkReturn word value r).2).1.map (Expr.spell E Λ)
    have hsome : (value'.map (Expr.map (fun _ => 0) id)).isSome = value.isSome := by
      cases value with
      | none => rfl
      | some e => rfl
    have hv := expr?_retraces hT value hf (checkReturn_spelled h word hsome)
    change Stmt.Spelled E Λ (.ret word _) t' at ht
    cases ht with
    | ret => exact ⟨congrArg (Stmt.ret word) hv.result, hv.state⟩
  | classDecl name sup methods =>
    have hn := hT name hf.1.1
    have hrun := congrArg Prod.fst (classDecl_run name sup methods r)
    rw [hrun] at ht
    change Stmt.Spelled E Λ (.classDecl name _ _) t' at ht
    cases ht with
    | classDecl hx hm =>
      have hsup := superclass_retraces hT hx hn sup hf.2.1 (mark_distance _ true _)
        (inClass_spelled h hn hx)
      refine closeClass_retraces h.home hsup ?_ ?_
      · rw [Option.isSome_map, superclass_isSome]
      · intro a' hin
        rw [superclass_isSome] at hm
        exact routines_retraces hT methods hf.2.2 hin hm

theorem stmts_retraces (hT : ∀ t, T t → t.lexeme ≠ E.new) (ss : List (Stmt Mark))
    (hf : Stmt.FormedAll T ss) {Λ : Legend} {r r' : Resolver} (h : Respelled E Λ r r')
    (ht : Program.Spelled E Λ (stmts ss r).1 ts') :
    Retraces E Λ (stmts ss r) (stmts (Stmt.mapAll (fun _ => 0) id ts') r') ts' := by
  cases ss with
  | nil =>
    change Program.Spelled E Λ [] ts' at ht
    cases ht with
    | nil => exact ⟨rfl, h⟩
  | cons s ss =>
    change Program.Spelled E Λ (_ :: _) ts' at ht
    obtain ⟨s', ss', rfl, hs, hss⟩ := ht.cons_inv
    have hs := stmt_retraces hT s hf.1 h hs
    have hss := stmts_retraces hT ss hf.2 hs.state hss
    exact ⟨congrArg₂ List.cons hs.result hss.result, hss.state⟩

theorem routine_retraces (hT : ∀ t, T t → t.lexeme ≠ E.new) (kind : Body) (f : Routine (Stmt Mark))
    (hf : Stmt.FormedRoutine T f) {Λ : Legend} {r r' : Resolver} (h : Respelled E Λ r r')
    (ht : Routine.Spelled E Λ (routine kind f r).1 f') :
    Retraces E Λ (routine kind f r) (routine kind f'.unresolved r') f' := by
  obtain ⟨name, ps, body⟩ := f
  change Routine.Spelled E Λ ⟨name, ps, _⟩ f' at ht
  cases ht with
  | mk hot hbody =>
    have hinner : Respelled E Λ { r with body := kind } { r' with body := kind } :=
      ⟨h.scopes, h.fresh, rfl, h.home, h.faults⟩
    have hparams := params_spelled (begin_spelled hinner hot) ps fun p hp => hT p (hf.2.1 p hp).1
    have hb := stmts_retraces hT body hf.2.2 hparams hbody
    have hout := finish_spelled hb.state
    rw [Routine.unresolved, Stmt.mapRoutine, List.map_id]
    exact ⟨congrArg (Routine.mk name _) hb.result,
      hout.scopes, hout.fresh, h.body, hout.home, hout.faults⟩

theorem routines_retraces (hT : ∀ t, T t → t.lexeme ≠ E.new) (fs : List (Routine (Stmt Mark)))
    (hf : Stmt.FormedRoutines T fs) {Λ : Legend} {r r' : Resolver} (h : Respelled E Λ r r')
    (ht : Routines.Spelled E Λ (routines fs r).1 fs') :
    Retraces E Λ (routines fs r) (routines (Stmt.mapRoutines (fun _ => 0) id fs') r') fs' := by
  cases fs with
  | nil =>
    change Routines.Spelled E Λ [] fs' at ht
    cases ht with
    | nil => exact ⟨rfl, h⟩
  | cons f fs =>
    obtain ⟨name, ps, body⟩ := f
    change Routines.Spelled E Λ ((routine (methodBody name) ⟨name, ps, body⟩ r).1 :: _) fs' at ht
    obtain ⟨f', fs', rfl, hr, hrs⟩ := ht.cons_inv
    obtain ⟨name', ps', body'⟩ := f'
    obtain rfl : name = name' := hr.name.symm
    have hr := routine_retraces hT (methodBody name) _ hf.1 h hr
    have hrs := routines_retraces hT fs hf.2 hr.state hrs
    exact ⟨congrArg₂ List.cons hr.result hrs.result, hrs.state⟩
end

end Resolver

namespace Resolved
open Resolver

variable {E : Exchange} {T : Token → Prop} {p p' : List (Stmt Mark)} {t' : List (Stmt Distance)}

/-- A program whose resolved tree is spelled anew is resolved to that tree, with as many faults. -/
theorem ofProgram_spelled (hT : ∀ t, T t → t.lexeme ≠ E.new) (hf : Stmt.FormedAll T p)
    (ht : Program.Spelled E .plain (ofProgram p).tree t')
    (hp' : p'.map Stmt.erase = t'.map Stmt.erase) :
    (ofProgram p').tree = t' ∧
      (ofProgram p').diagnostics.length = (ofProgram p).diagnostics.length := by
  have hinitial : Respelled E .plain initial initial :=
    ⟨.nil, List.forall_mem_nil _, rfl, rfl, rfl⟩
  have hrun := stmts_retraces hT p hf hinitial ht
  rw [Stmt.mapAll_eq] at hrun
  obtain ⟨htree, hfaults⟩ := ofProgram_eq (hp'.trans (Stmt.map_erase_unresolved t').symm)
  exact ⟨htree.trans hrun.result, (congrArg List.length hfaults).trans hrun.state.faults⟩

end Resolved

end LoxLang
