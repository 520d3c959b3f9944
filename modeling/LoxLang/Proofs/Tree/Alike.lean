import LoxLang.Proofs.Tree.Formed
import Mathlib.Data.List.Forall2

namespace LoxLang
set_option autoImplicit true

variable {μ ν : Type}

/-- Tokens that are related are spelled alike: they differ in their lines at most. -/
def Spelled (R : Token → Token → Prop) : Prop :=
  ∀ t t', R t t' → t'.kind = t.kind ∧ t'.lexeme = t.lexeme

structure Reference.Alike (R : Token → Token → Prop) (S : μ → ν → Prop) (ref : Reference μ)
    (ref' : Reference ν) : Prop where
  name : R ref.name ref'.name
  mark : S ref.mark ref'.mark

/-- The tokens and marks of two expressions of one shape are related. Of the operator of a logical
expression only the kind counts. -/
inductive Expr.Alike (R : Token → Token → Prop) (S : μ → ν → Prop) : Expr μ → Expr ν → Prop where
  | literal : Alike R S (.literal v) (.literal v)
  | grouping : Alike R S e e' → Alike R S (.grouping e) (.grouping e')
  | unary : R op op' → Alike R S e e' → Alike R S (.unary op e) (.unary op' e')
  | binary : Alike R S l l' → R op op' → Alike R S r r' →
      Alike R S (.binary l op r) (.binary l' op' r')
  | logical : Alike R S l l' → op'.kind = op.kind → Alike R S r r' →
      Alike R S (.logical l op r) (.logical l' op' r')
  | var : ref.Alike R S ref' → Alike R S (.var ref) (.var ref')
  | assign : ref.Alike R S ref' → Alike R S e e' → Alike R S (.assign ref e) (.assign ref' e')
  | call : Alike R S f f' → R paren paren' → List.Forall₂ (Alike R S) args args' →
      Alike R S (.call f paren args) (.call f' paren' args')
  | get : Alike R S o o' → R x x' → Alike R S (.get o x) (.get o' x')
  | set : Alike R S o o' → R x x' → Alike R S e e' → Alike R S (.set o x e) (.set o' x' e')
  | this : ref.Alike R S ref' → Alike R S (.this ref) (.this ref')
  | super : ref.Alike R S ref' → R x x' → Alike R S (.super ref x) (.super ref' x')

/-- Two routines with related tokens and bodies. -/
inductive Routine.Alike (R : Token → Token → Prop) (B : σ → τ → Prop) :
    Routine σ → Routine τ → Prop where
  | mk : R x x' → List.Forall₂ R ps ps' → List.Forall₂ B ss ss' →
      Alike R B ⟨x, ps, ss⟩ ⟨x', ps', ss'⟩

theorem Routine.Alike.name {B : σ → τ → Prop} {f : Routine σ} {f' : Routine τ}
    (h : Routine.Alike R B f f') : R f.name f'.name := by
  cases h with
  | mk hx => exact hx

/-- The tokens and marks of two statements of one shape are related. The word of a `return` does not
count. -/
inductive Stmt.Alike (R : Token → Token → Prop) (S : μ → ν → Prop) : Stmt μ → Stmt ν → Prop where
  | expression : e.Alike R S e' → Stmt.Alike R S (.expression e) (.expression e')
  | print : e.Alike R S e' → Stmt.Alike R S (.print e) (.print e')
  | varDecl : R x x' → Option.Rel (Expr.Alike R S) init init' →
      Stmt.Alike R S (.varDecl x init) (.varDecl x' init')
  | block : List.Forall₂ (Stmt.Alike R S) body body' → Stmt.Alike R S (.block body) (.block body')
  | ifThen : c.Alike R S c' → Stmt.Alike R S s s' → Stmt.Alike R S (.ifThen c s) (.ifThen c' s')
  | ifElse : c.Alike R S c' → Stmt.Alike R S s s' → Stmt.Alike R S t t' →
      Stmt.Alike R S (.ifElse c s t) (.ifElse c' s' t')
  | loop : c.Alike R S c' → Stmt.Alike R S s s' → Stmt.Alike R S (.loop c s) (.loop c' s')
  | funDecl : Routine.Alike R (Stmt.Alike R S) f f' → Stmt.Alike R S (.funDecl f) (.funDecl f')
  | ret : Option.Rel (Expr.Alike R S) value value' →
      Stmt.Alike R S (.ret word value) (.ret word' value')
  | classDecl : R x x' → Option.Rel (Reference.Alike R S) sup sup' →
      List.Forall₂ (Routine.Alike R (Stmt.Alike R S)) methods methods' →
      Stmt.Alike R S (.classDecl x sup methods) (.classDecl x' sup' methods')

/-- Changing marks and tokens in this way gives marks and tokens that are related to the old ones. -/
structure Relabels (R : Token → Token → Prop) (S : μ → ν → Prop) (T : Token → Prop) (f : μ → ν)
    (φ : Token → Token) : Prop where
  kind : ∀ t, (φ t).kind = t.kind
  token : ∀ t, T t → R t (φ t)
  mark : ∀ m, S m (f m)

mutual
theorem Relabels.expr (hr : Relabels R S T f φ) (e : Expr μ) (h : e.Formed T) :
    e.Alike R S (e.map f φ) := by
  cases e with
  | literal v => exact .literal
  | grouping e => exact .grouping (hr.expr e h)
  | unary op e => exact .unary (hr.token op h.1.1) (hr.expr e h.2)
  | binary l op r => exact .binary (hr.expr l h.2.1) (hr.token op h.1.1) (hr.expr r h.2.2)
  | logical l op r => exact .logical (hr.expr l h.1) (hr.kind op) (hr.expr r h.2)
  | var ref => exact .var ⟨hr.token _ h.1, hr.mark _⟩
  | assign ref e => exact .assign ⟨hr.token _ h.1.1, hr.mark _⟩ (hr.expr e h.2)
  | call g paren args =>
    exact .call (hr.expr g h.2.1) (hr.token paren h.1) (hr.exprs args h.2.2)
  | get o x => exact .get (hr.expr o h.2) (hr.token x h.1)
  | set o x e => exact .set (hr.expr o h.2.1) (hr.token x h.1) (hr.expr e h.2.2)
  | this ref => exact .this ⟨hr.token _ h.1, hr.mark _⟩
  | super ref x => exact .super ⟨hr.token _ h.1.1, hr.mark _⟩ (hr.token x h.2)

theorem Relabels.exprs (hr : Relabels R S T f φ) (es : List (Expr μ)) (h : Expr.FormedAll T es) :
    List.Forall₂ (Expr.Alike R S) es (Expr.mapAll f φ es) := by
  cases es with
  | nil => exact .nil
  | cons e es => exact .cons (hr.expr e h.1) (hr.exprs es h.2)
end

theorem Relabels.expr? (hr : Relabels R S T f φ) (o : Option (Expr μ)) (h : Expr.Formed? T o) :
    Option.Rel (Expr.Alike R S) o (o.map (Expr.map f φ)) := by
  cases o with
  | none => exact .none
  | some e => exact .some (hr.expr e h)

mutual
theorem Relabels.stmt (hr : Relabels R S T f φ) (s : Stmt μ) (h : s.Formed T) :
    s.Alike R S (s.map f φ) := by
  cases s with
  | expression e => exact .expression (hr.expr e h)
  | print e => exact .print (hr.expr e h)
  | varDecl x init => exact .varDecl (hr.token x h.1.1) (hr.expr? init h.2)
  | block body => exact .block (hr.stmts body h)
  | ifThen c s => exact .ifThen (hr.expr c h.1) (hr.stmt s h.2.2)
  | ifElse c s t => exact .ifElse (hr.expr c h.1) (hr.stmt s h.2.1.2) (hr.stmt t h.2.2.2)
  | loop c s => exact .loop (hr.expr c h.1) (hr.stmt s h.2.2)
  | funDecl r => exact .funDecl (hr.routine r h)
  | ret word value => exact .ret (hr.expr? value h)
  | classDecl x sup methods =>
    apply Stmt.Alike.classDecl (hr.token x h.1.1) _ (hr.routines methods h.2.2)
    cases sup with
    | none => exact .none
    | some ref => exact .some ⟨hr.token _ (h.2.1 ref rfl).1, hr.mark _⟩

theorem Relabels.stmts (hr : Relabels R S T f φ) (ss : List (Stmt μ)) (h : Stmt.FormedAll T ss) :
    List.Forall₂ (Stmt.Alike R S) ss (Stmt.mapAll f φ ss) := by
  cases ss with
  | nil => exact .nil
  | cons s ss => exact .cons (hr.stmt s h.1) (hr.stmts ss h.2)

theorem Relabels.routine (hr : Relabels R S T f φ) (r : Routine (Stmt μ))
    (h : Stmt.FormedRoutine T r) :
    Routine.Alike R (Stmt.Alike R S) r (Stmt.mapRoutine f φ r) := by
  obtain ⟨name, params, body⟩ := r
  obtain ⟨hname, hparams, hbody⟩ := h
  apply Routine.Alike.mk (hr.token name hname.1) _ (hr.stmts body hbody)
  apply List.forall₂_map_right_iff.2
  exact List.forall₂_same.2 fun p hp => hr.token p (hparams p hp).1

theorem Relabels.routines (hr : Relabels R S T f φ) (rs : List (Routine (Stmt μ)))
    (h : Stmt.FormedRoutines T rs) :
    List.Forall₂ (Routine.Alike R (Stmt.Alike R S)) rs (Stmt.mapRoutines f φ rs) := by
  cases rs with
  | nil => exact .nil
  | cons r rs => exact .cons (hr.routine r h.1) (hr.routines rs h.2)
end

/-- Marks of which nothing is said. -/
def Anyhow (_ : μ) (_ : ν) : Prop := True

mutual
theorem Expr.Alike.unerase (e' : Expr ν) (h : Expr.Alike R S e e'.erase) :
    e.Alike R Anyhow e' := by
  cases e' with
  | literal v =>
    cases h with
    | literal => exact .literal
  | grouping e' =>
    cases h with
    | grouping he => exact .grouping (Expr.Alike.unerase e' he)
  | unary op e' =>
    cases h with
    | unary ho he => exact .unary ho (Expr.Alike.unerase e' he)
  | binary l op r =>
    cases h with
    | binary hl ho hr => exact .binary (Expr.Alike.unerase l hl) ho (Expr.Alike.unerase r hr)
  | logical l op r =>
    cases h with
    | logical hl ho hr => exact .logical (Expr.Alike.unerase l hl) ho (Expr.Alike.unerase r hr)
  | var ref =>
    cases h with
    | var href => exact .var ⟨href.name, trivial⟩
  | assign ref e' =>
    cases h with
    | assign href he => exact .assign ⟨href.name, trivial⟩ (Expr.Alike.unerase e' he)
  | call f paren args =>
    cases h with
    | call hf hp ha => exact .call (Expr.Alike.unerase f hf) hp (Expr.Alike.uneraseAll args ha)
  | get o x =>
    cases h with
    | get ho hx => exact .get (Expr.Alike.unerase o ho) hx
  | set o x e' =>
    cases h with
    | set ho hx he => exact .set (Expr.Alike.unerase o ho) hx (Expr.Alike.unerase e' he)
  | this ref =>
    cases h with
    | this href => exact .this ⟨href.name, trivial⟩
  | super ref x =>
    cases h with
    | super href hx => exact .super ⟨href.name, trivial⟩ hx

theorem Expr.Alike.uneraseAll (es' : List (Expr ν))
    (h : List.Forall₂ (Expr.Alike R S) es (Expr.mapAll (fun _ => ()) id es')) :
    List.Forall₂ (Expr.Alike R Anyhow) es es' := by
  cases es' with
  | nil =>
    cases h with
    | nil => exact .nil
  | cons e' es' =>
    cases h with
    | cons he hes => exact .cons (Expr.Alike.unerase e' he) (Expr.Alike.uneraseAll es' hes)
end

theorem Expr.Alike.unerase? (o' : Option (Expr ν))
    (h : Option.Rel (Expr.Alike R S) o (o'.map (Expr.map (fun _ => ()) id))) :
    Option.Rel (Expr.Alike R Anyhow) o o' := by
  cases o' with
  | none =>
    cases h with
    | none => exact .none
  | some e' =>
    cases h with
    | some he => exact .some (Expr.Alike.unerase e' he)

mutual
theorem Stmt.Alike.unerase (s' : Stmt ν) (h : Stmt.Alike R S s s'.erase) :
    s.Alike R Anyhow s' := by
  cases s' with
  | expression e' =>
    cases h with
    | expression he => exact .expression (Expr.Alike.unerase e' he)
  | print e' =>
    cases h with
    | print he => exact .print (Expr.Alike.unerase e' he)
  | varDecl x init =>
    cases h with
    | varDecl hx hi => exact .varDecl hx (Expr.Alike.unerase? init hi)
  | block body =>
    cases h with
    | block hb => exact .block (Stmt.Alike.uneraseAll body hb)
  | ifThen c s' =>
    cases h with
    | ifThen hc hs => exact .ifThen (Expr.Alike.unerase c hc) (Stmt.Alike.unerase s' hs)
  | ifElse c s' t' =>
    cases h with
    | ifElse hc hs ht =>
      exact .ifElse (Expr.Alike.unerase c hc) (Stmt.Alike.unerase s' hs) (Stmt.Alike.unerase t' ht)
  | loop c s' =>
    cases h with
    | loop hc hs => exact .loop (Expr.Alike.unerase c hc) (Stmt.Alike.unerase s' hs)
  | funDecl r =>
    cases h with
    | funDecl hr => exact .funDecl (Stmt.Alike.uneraseRoutine r hr)
  | ret word value =>
    cases h with
    | ret hv => exact .ret (Expr.Alike.unerase? value hv)
  | classDecl x sup methods =>
    cases h with
    | classDecl hx hsup hm =>
      apply Stmt.Alike.classDecl hx _ (Stmt.Alike.uneraseRoutines methods hm)
      cases sup with
      | none =>
        cases hsup with
        | none => exact .none
      | some ref =>
        cases hsup with
        | some href => exact .some ⟨href.name, trivial⟩

theorem Stmt.Alike.uneraseAll (ss' : List (Stmt ν))
    (h : List.Forall₂ (Stmt.Alike R S) ss (Stmt.mapAll (fun _ => ()) id ss')) :
    List.Forall₂ (Stmt.Alike R Anyhow) ss ss' := by
  cases ss' with
  | nil =>
    cases h with
    | nil => exact .nil
  | cons s' ss' =>
    cases h with
    | cons hs hss => exact .cons (Stmt.Alike.unerase s' hs) (Stmt.Alike.uneraseAll ss' hss)

theorem Stmt.Alike.uneraseRoutine (r' : Routine (Stmt ν))
    (h : Routine.Alike R (Stmt.Alike R S) r (Stmt.mapRoutine (fun _ => ()) id r')) :
    Routine.Alike R (Stmt.Alike R Anyhow) r r' := by
  obtain ⟨name, params, body⟩ := r'
  cases h with
  | mk hname hparams hbody =>
    rw [List.map_id] at hparams
    exact .mk hname hparams (Stmt.Alike.uneraseAll body hbody)

theorem Stmt.Alike.uneraseRoutines (rs' : List (Routine (Stmt ν)))
    (h : List.Forall₂ (Routine.Alike R (Stmt.Alike R S)) rs
      (Stmt.mapRoutines (fun _ => ()) id rs')) :
    List.Forall₂ (Routine.Alike R (Stmt.Alike R Anyhow)) rs rs' := by
  cases rs' with
  | nil =>
    cases h with
    | nil => exact .nil
  | cons r' rs' =>
    cases h with
    | cons hr hrs =>
      exact .cons (Stmt.Alike.uneraseRoutine r' hr) (Stmt.Alike.uneraseRoutines rs' hrs)
end

theorem Relabels.of_erase {ss : List (Stmt μ)} {ss' : List (Stmt ν)}
    (hr : Relabels R Anyhow T (fun _ : μ => ()) φ) (hf : Stmt.FormedAll T ss)
    (h : ss'.map Stmt.erase = ss.map (Stmt.map (fun _ => ()) φ)) :
    List.Forall₂ (Stmt.Alike R Anyhow) ss ss' := by
  have hall := hr.stmts ss hf
  rw [Stmt.mapAll_eq, ← h] at hall
  apply Stmt.Alike.uneraseAll (S := Anyhow)
  rw [Stmt.mapAll_eq]
  exact hall

mutual
/-- The tokens of an expression that count. -/
def Expr.tokens : Expr μ → List Token
  | .literal _ => []
  | .grouping e => e.tokens
  | .unary op e => op :: e.tokens
  | .binary l op r => l.tokens ++ op :: r.tokens
  | .logical l _ r => l.tokens ++ r.tokens
  | .var ref | .this ref => [ref.name]
  | .assign ref e => ref.name :: e.tokens
  | .call f paren args => f.tokens ++ paren :: Expr.allTokens args
  | .get o x => o.tokens ++ [x]
  | .set o x e => o.tokens ++ x :: e.tokens
  | .super ref x => [ref.name, x]

def Expr.allTokens : List (Expr μ) → List Token
  | [] => []
  | e :: es => e.tokens ++ Expr.allTokens es
end

def Expr.tokens? : Option (Expr μ) → List Token
  | none => []
  | some e => e.tokens

mutual
/-- The tokens of a statement that count. -/
def Stmt.tokens : Stmt μ → List Token
  | .expression e | .print e => e.tokens
  | .varDecl x init => x :: Expr.tokens? init
  | .block body => Stmt.allTokens body
  | .ifThen c s => c.tokens ++ s.tokens
  | .ifElse c s t => c.tokens ++ (s.tokens ++ t.tokens)
  | .loop c s => c.tokens ++ s.tokens
  | .funDecl r => Stmt.routineTokens r
  | .ret _ value => Expr.tokens? value
  | .classDecl x sup methods =>
    x :: (sup.toList.map Reference.name ++ Stmt.routinesTokens methods)

def Stmt.allTokens : List (Stmt μ) → List Token
  | [] => []
  | s :: ss => s.tokens ++ Stmt.allTokens ss

def Stmt.routineTokens : Routine (Stmt μ) → List Token
  | ⟨name, params, body⟩ => name :: (params ++ Stmt.allTokens body)

def Stmt.routinesTokens : List (Routine (Stmt μ)) → List Token
  | [] => []
  | r :: rs => Stmt.routineTokens r ++ Stmt.routinesTokens rs
end

mutual
theorem Expr.alike_self (e : Expr μ) (h : ∀ t ∈ e.tokens, R t t) : e.Alike R Eq e := by
  cases e with
  | literal v => exact .literal
  | grouping e => exact .grouping (Expr.alike_self e h)
  | unary op e =>
    obtain ⟨ho, he⟩ := List.forall_mem_cons.1 h
    exact .unary ho (Expr.alike_self e he)
  | binary l op r =>
    obtain ⟨hl, hor⟩ := List.forall_mem_append.1 h
    obtain ⟨ho, hr⟩ := List.forall_mem_cons.1 hor
    exact .binary (Expr.alike_self l hl) ho (Expr.alike_self r hr)
  | logical l op r =>
    obtain ⟨hl, hr⟩ := List.forall_mem_append.1 h
    exact .logical (Expr.alike_self l hl) rfl (Expr.alike_self r hr)
  | var ref => exact .var ⟨h _ List.mem_cons_self, rfl⟩
  | assign ref e =>
    obtain ⟨href, he⟩ := List.forall_mem_cons.1 h
    exact .assign ⟨href, rfl⟩ (Expr.alike_self e he)
  | call f paren args =>
    obtain ⟨hf, hpa⟩ := List.forall_mem_append.1 h
    obtain ⟨hp, ha⟩ := List.forall_mem_cons.1 hpa
    exact .call (Expr.alike_self f hf) hp (Expr.allAlike_self args ha)
  | get o x =>
    obtain ⟨ho, hx⟩ := List.forall_mem_append.1 h
    exact .get (Expr.alike_self o ho) (hx x List.mem_cons_self)
  | set o x e =>
    obtain ⟨ho, hxe⟩ := List.forall_mem_append.1 h
    obtain ⟨hx, he⟩ := List.forall_mem_cons.1 hxe
    exact .set (Expr.alike_self o ho) hx (Expr.alike_self e he)
  | this ref => exact .this ⟨h _ List.mem_cons_self, rfl⟩
  | super ref x =>
    obtain ⟨href, hx⟩ := List.forall_mem_cons.1 h
    exact .super ⟨href, rfl⟩ (hx x List.mem_cons_self)

theorem Expr.allAlike_self (es : List (Expr μ)) (h : ∀ t ∈ Expr.allTokens es, R t t) :
    List.Forall₂ (Expr.Alike R Eq) es es := by
  cases es with
  | nil => exact .nil
  | cons e es =>
    obtain ⟨he, hes⟩ := List.forall_mem_append.1 h
    exact .cons (Expr.alike_self e he) (Expr.allAlike_self es hes)
end

theorem Expr.alike?_self (o : Option (Expr μ)) (h : ∀ t ∈ Expr.tokens? o, R t t) :
    Option.Rel (Expr.Alike R Eq) o o := by
  cases o with
  | none => exact .none
  | some e => exact .some (Expr.alike_self e h)

mutual
theorem Stmt.alike_self (s : Stmt μ) (h : ∀ t ∈ s.tokens, R t t) : s.Alike R Eq s := by
  cases s with
  | expression e => exact .expression (Expr.alike_self e h)
  | print e => exact .print (Expr.alike_self e h)
  | varDecl x init =>
    obtain ⟨hx, hi⟩ := List.forall_mem_cons.1 h
    exact .varDecl hx (Expr.alike?_self init hi)
  | block body => exact .block (Stmt.allAlike_self body h)
  | ifThen c s =>
    obtain ⟨hc, hs⟩ := List.forall_mem_append.1 h
    exact .ifThen (Expr.alike_self c hc) (Stmt.alike_self s hs)
  | ifElse c s t =>
    obtain ⟨hc, hst⟩ := List.forall_mem_append.1 h
    obtain ⟨hs, ht⟩ := List.forall_mem_append.1 hst
    exact .ifElse (Expr.alike_self c hc) (Stmt.alike_self s hs) (Stmt.alike_self t ht)
  | loop c s =>
    obtain ⟨hc, hs⟩ := List.forall_mem_append.1 h
    exact .loop (Expr.alike_self c hc) (Stmt.alike_self s hs)
  | funDecl r => exact .funDecl (Stmt.routineAlike_self r h)
  | ret word value => exact .ret (Expr.alike?_self value h)
  | classDecl x sup methods =>
    obtain ⟨hx, hrest⟩ := List.forall_mem_cons.1 h
    obtain ⟨hsup, hms⟩ := List.forall_mem_append.1 hrest
    apply Stmt.Alike.classDecl hx _ (Stmt.routinesAlike_self methods hms)
    cases sup with
    | none => exact .none
    | some ref => exact .some ⟨hsup _ List.mem_cons_self, rfl⟩

theorem Stmt.allAlike_self (ss : List (Stmt μ)) (h : ∀ t ∈ Stmt.allTokens ss, R t t) :
    List.Forall₂ (Stmt.Alike R Eq) ss ss := by
  cases ss with
  | nil => exact .nil
  | cons s ss =>
    obtain ⟨hs, hss⟩ := List.forall_mem_append.1 h
    exact .cons (Stmt.alike_self s hs) (Stmt.allAlike_self ss hss)

theorem Stmt.routineAlike_self (r : Routine (Stmt μ)) (h : ∀ t ∈ Stmt.routineTokens r, R t t) :
    Routine.Alike R (Stmt.Alike R Eq) r r := by
  obtain ⟨name, params, body⟩ := r
  obtain ⟨hname, hrest⟩ := List.forall_mem_cons.1 h
  obtain ⟨hparams, hbody⟩ := List.forall_mem_append.1 hrest
  exact .mk hname (List.forall₂_same.2 hparams) (Stmt.allAlike_self body hbody)

theorem Stmt.routinesAlike_self (rs : List (Routine (Stmt μ)))
    (h : ∀ t ∈ Stmt.routinesTokens rs, R t t) :
    List.Forall₂ (Routine.Alike R (Stmt.Alike R Eq)) rs rs := by
  cases rs with
  | nil => exact .nil
  | cons r rs =>
    obtain ⟨hr, hrs⟩ := List.forall_mem_append.1 h
    exact .cons (Stmt.routineAlike_self r hr) (Stmt.routinesAlike_self rs hrs)
end

end LoxLang
