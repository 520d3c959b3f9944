import LoxLang.Proofs.Tree.Alike
import LoxLang.Resolver
import Mathlib.Logic.Equiv.Basic

namespace LoxLang
set_option autoImplicit true

def Token.rename (x y : Text) (t : Token) : Token :=
  if t.lexeme = x then { t with lexeme := y } else t

def Reference.rename (x y : Text) (k : Nat) (ref : Reference Distance) : Reference Distance :=
  if ref.mark = some k then { ref with name := ref.name.rename x y } else ref

mutual
/-- Renames the variables of an expression that lead to the scope `k` steps out. -/
def Expr.rename (x y : Text) (k : Nat) : Expr Distance → Expr Distance
  | .literal v => .literal v
  | .grouping e => .grouping (e.rename x y k)
  | .unary op e => .unary op (e.rename x y k)
  | .binary l op r => .binary (l.rename x y k) op (r.rename x y k)
  | .logical l op r => .logical (l.rename x y k) op (r.rename x y k)
  | .var ref => .var (ref.rename x y k)
  | .assign ref e => .assign (ref.rename x y k) (e.rename x y k)
  | .call f paren args => .call (f.rename x y k) paren (Expr.renameAll x y k args)
  | .get o name => .get (o.rename x y k) name
  | .set o name e => .set (o.rename x y k) name (e.rename x y k)
  | .this ref => .this ref
  | .super ref method => .super ref method

def Expr.renameAll (x y : Text) (k : Nat) : List (Expr Distance) → List (Expr Distance)
  | [] => []
  | e :: es => e.rename x y k :: Expr.renameAll x y k es
end

mutual
/-- Renames a variable that is declared in the scope `k` steps out, where it is declared and where it
is read or assigned. -/
def Stmt.rename (x y : Text) (k : Nat) : Stmt Distance → Stmt Distance
  | .expression e => .expression (e.rename x y k)
  | .print e => .print (e.rename x y k)
  | .varDecl name init =>
    .varDecl (if k = 0 then name.rename x y else name) (init.map (Expr.rename x y k))
  | .block body => .block (Stmt.renameAll x y (k + 1) body)
  | .ifThen c s => .ifThen (c.rename x y k) (s.rename x y k)
  | .ifElse c s t => .ifElse (c.rename x y k) (s.rename x y k) (t.rename x y k)
  | .loop c s => .loop (c.rename x y k) (s.rename x y k)
  | .funDecl r => .funDecl (Stmt.renameRoutine x y k r)
  | .ret word value => .ret word (value.map (Expr.rename x y k))
  | .classDecl name sup methods =>
    .classDecl name (sup.map (Reference.rename x y k))
      (Stmt.renameRoutines x y (k + if sup.isSome then 2 else 1) methods)

def Stmt.renameAll (x y : Text) (k : Nat) : List (Stmt Distance) → List (Stmt Distance)
  | [] => []
  | s :: ss => s.rename x y k :: Stmt.renameAll x y k ss

/-- The same in a routine. Its parameters and its body are a scope of their own. -/
def Stmt.renameRoutine (x y : Text) (k : Nat) : Routine (Stmt Distance) → Routine (Stmt Distance)
  | ⟨name, params, body⟩ => ⟨name, params, Stmt.renameAll x y (k + 1) body⟩

def Stmt.renameRoutines (x y : Text) (k : Nat) :
    List (Routine (Stmt Distance)) → List (Routine (Stmt Distance))
  | [] => []
  | r :: rs => Stmt.renameRoutine x y k r :: Stmt.renameRoutines x y k rs
end

/-- The scope of these parameters and statements has a parameter or a variable of this name. -/
def Declares (x : Text) (params : List Token) (body : List (Stmt Distance)) : Prop :=
  (∃ p ∈ params, p.lexeme = x) ∨ ∃ t init, Stmt.varDecl t init ∈ body ∧ t.lexeme = x

mutual
/-- Somewhere inside of a statement a declaration of `x` in a local scope is renamed to `y`, with the
references to it. -/
inductive Stmt.Renames (x y : Text) : Stmt Distance → Stmt Distance → Prop where
  | block : Body.Renames x y [] body [] body' → Stmt.Renames x y (.block body) (.block body')
  | funDecl : Body.Renames x y params body params' body' →
      Stmt.Renames x y (.funDecl ⟨name, params, body⟩) (.funDecl ⟨name, params', body'⟩)
  | method : Body.Renames x y params body params' body' →
      Stmt.Renames x y (.classDecl c sup (before ++ ⟨name, params, body⟩ :: after))
        (.classDecl c sup (before ++ ⟨name, params', body'⟩ :: after))
  | ifThen : Stmt.Renames x y s s' → Stmt.Renames x y (.ifThen c s) (.ifThen c s')
  | ifYes : Stmt.Renames x y s s' → Stmt.Renames x y (.ifElse c s t) (.ifElse c s' t)
  | ifNo : Stmt.Renames x y t t' → Stmt.Renames x y (.ifElse c s t) (.ifElse c s t')
  | loop : Stmt.Renames x y s s' → Stmt.Renames x y (.loop c s) (.loop c s')

/-- The same in a scope with these parameters and statements: it is the one that declares `x`, or it
has that one inside. -/
inductive Body.Renames (x y : Text) : List Token → List (Stmt Distance) → List Token →
    List (Stmt Distance) → Prop where
  | here : Declares x params body →
      Body.Renames x y params body (params.map (Token.rename x y)) (Stmt.renameAll x y 0 body)
  | inside : Stmt.Renames x y s s' →
      Body.Renames x y params (before ++ s :: after) params (before ++ s' :: after)
end

/-- A declaration of `x` in a local scope of a program is renamed to `y`, with the references to it. -/
inductive Program.Renames (x y : Text) : List (Stmt Distance) → List (Stmt Distance) → Prop where
  | mk : Stmt.Renames x y s s' → Program.Renames x y (before ++ s :: after) (before ++ s' :: after)

/-- Two names that trade places in some scopes. The machine binds neither of them. -/
structure Exchange where
  old : Text
  new : Text
  old_free : ¬ old.Reserved
  new_free : ¬ new.Reserved

namespace Exchange
variable (E : Exchange)

/-- What becomes of a name in a scope, which is one where the names trade places or not. -/
def spell (hot : Bool) (z : Text) : Text := if hot then Equiv.swap E.old E.new z else z

@[simp] theorem spell_false (z : Text) : E.spell false z = z := rfl

@[simp] theorem spell_spell (b : Bool) (z : Text) : E.spell b (E.spell b z) = z := by
  cases b with
  | false => rfl
  | true => simp [spell]

theorem spell_injective (b : Bool) : Function.Injective (E.spell b) :=
  Function.LeftInverse.injective (E.spell_spell b)

theorem spell_of_ne (b : Bool) (ho : z ≠ E.old) (hn : z ≠ E.new) : E.spell b z = z := by
  cases b with
  | false => rfl
  | true => exact Equiv.swap_apply_of_ne_of_ne ho hn

theorem spell_old : E.spell true E.old = E.new := Equiv.swap_apply_left _ _

theorem spell_reserved (b : Bool) (h : z.Reserved) : E.spell b z = z :=
  E.spell_of_ne b (fun he => E.old_free (he ▸ h)) fun he => E.new_free (he ▸ h)

end Exchange

/-- Two maps with related values whose names differ as in a scope. -/
def Dict.Spelled (E : Exchange) (hot : Bool) (A : α → β → Prop) (d : Dict α) (d' : Dict β) : Prop :=
  List.Forall₂ (fun e e' => e'.1 = E.spell hot e.1 ∧ A e.2 e'.2) d d'

namespace Dict
variable {E : Exchange} {A : α → β → Prop} {d : Dict α} {d' : Dict β}

theorem Spelled.get? (h : d.Spelled E hot A d') (x : Text) :
    Option.Rel A (d.get? x) (d'.get? (E.spell hot x)) := by
  unfold Dict.get?
  induction h with
  | nil => exact .none
  | @cons e e' d d' he _ ih =>
    obtain ⟨z, a⟩ := e
    obtain ⟨z', b⟩ := e'
    obtain ⟨rfl, hab⟩ := he
    have hsame : (E.spell hot x == E.spell hot z) = (x == z) := by
      rw [Bool.eq_iff_iff, beq_iff_eq, beq_iff_eq]
      exact (E.spell_injective hot).eq_iff
    rw [List.lookup_cons, List.lookup_cons]
    dsimp only
    rw [hsame]
    cases x == z with
    | true => exact .some hab
    | false => exact ih

theorem Spelled.get?_eq {d d' : Dict α} (h : d.Spelled E hot Eq d') (x : Text) :
    d'.get? (E.spell hot x) = d.get? x := by
  have hget := h.get? x
  generalize d.get? x = o, d'.get? (E.spell hot x) = o' at hget
  cases hget with
  | none => rfl
  | some he => exact congrArg some he.symm

theorem Spelled.has (h : d.Spelled E hot A d') (x : Text) : d'.has (E.spell hot x) = d.has x := by
  have hget := h.get? x
  unfold Dict.has
  generalize d.get? x = o, d'.get? (E.spell hot x) = o' at hget
  cases hget with
  | none => rfl
  | some => rfl

theorem Spelled.set (h : d.Spelled E hot A d') (x : Text) (hab : A a b) :
    (d.set x a).Spelled E hot A (d'.set (E.spell hot x) b) := by
  induction h with
  | nil => exact .cons ⟨rfl, hab⟩ .nil
  | @cons e e' d d' he hd ih =>
    obtain ⟨z, a'⟩ := e
    obtain ⟨z', b'⟩ := e'
    obtain ⟨rfl, hab'⟩ := he
    rw [Dict.set, Dict.set]
    simp only [(E.spell_injective hot).eq_iff]
    split
    · exact .cons ⟨rfl, hab⟩ hd
    · exact .cons ⟨rfl, hab'⟩ ih

end Dict

/-- In which scopes names trade places, from the innermost outwards. -/
abbrev Legend := Nat → Bool

namespace Legend

def plain : Legend := fun _ => false

/-- Inside of another scope. -/
def enter (Λ : Legend) (hot : Bool) : Legend
  | 0 => hot
  | k + 1 => Λ k

def outer (Λ : Legend) : Legend := fun k => Λ (k + 1)

/-- Names trade places in the scope `k` steps out only. -/
def only (k : Nat) : Legend := fun i => decide (i = k)

def ofClass (Λ : Legend) (derived : Bool) : Legend :=
  (if derived then Λ.enter false else Λ).enter false

@[simp] theorem outer_enter (Λ : Legend) (b : Bool) : (Λ.enter b).outer = Λ := rfl

@[simp] theorem outer_plain : plain.outer = plain := rfl

theorem enter_plain : plain.enter false = plain := by
  funext i
  cases i <;> rfl

theorem ofClass_plain (derived : Bool) : plain.ofClass derived = plain := by
  cases derived <;> simp [ofClass, enter_plain]

theorem enter_hot : plain.enter true = only 0 := by
  funext i
  cases i <;> rfl

theorem enter_only (k : Nat) : (only k).enter false = only (k + 1) := by
  funext i
  cases i <;> simp [enter, only]

theorem ofClass_only (k : Nat) (derived : Bool) :
    (only k).ofClass derived = only (k + if derived then 2 else 1) := by
  cases derived <;> simp [ofClass, enter_only]

end Legend

def Token.spell (E : Exchange) (hot : Bool) (t : Token) : Token :=
  { t with lexeme := E.spell hot t.lexeme }

/-- The names of references are spelled as in the scope that they lead to, global ones as they are. -/
def Reference.spell (E : Exchange) (Λ : Legend) (ref : Reference Distance) : Reference Distance :=
  { ref with name := ref.name.spell E (ref.mark.any Λ) }

mutual
def Expr.spell (E : Exchange) (Λ : Legend) : Expr Distance → Expr Distance
  | .literal v => .literal v
  | .grouping e => .grouping (e.spell E Λ)
  | .unary op e => .unary op (e.spell E Λ)
  | .binary l op r => .binary (l.spell E Λ) op (r.spell E Λ)
  | .logical l op r => .logical (l.spell E Λ) op (r.spell E Λ)
  | .var ref => .var (ref.spell E Λ)
  | .assign ref e => .assign (ref.spell E Λ) (e.spell E Λ)
  | .call f paren args => .call (f.spell E Λ) paren (Expr.spellAll E Λ args)
  | .get o name => .get (o.spell E Λ) name
  | .set o name e => .set (o.spell E Λ) name (e.spell E Λ)
  | .this ref => .this (ref.spell E Λ)
  | .super ref method => .super (ref.spell E Λ) method

def Expr.spellAll (E : Exchange) (Λ : Legend) : List (Expr Distance) → List (Expr Distance)
  | [] => []
  | e :: es => e.spell E Λ :: Expr.spellAll E Λ es
end

mutual
/-- A statement is spelled anew, given in which scopes around it names trade places. Each scope inside
may be one of these or not. What a function or a class is called is seen, and stays. -/
inductive Stmt.Spelled (E : Exchange) : Legend → Stmt Distance → Stmt Distance → Prop where
  | expression : Stmt.Spelled E Λ (.expression e) (.expression (e.spell E Λ))
  | print : Stmt.Spelled E Λ (.print e) (.print (e.spell E Λ))
  | varDecl : Stmt.Spelled E Λ (.varDecl x init)
      (.varDecl (x.spell E (Λ 0)) (init.map (Expr.spell E Λ)))
  | block (hot : Bool) : Program.Spelled E (Λ.enter hot) body body' →
      Stmt.Spelled E Λ (.block body) (.block body')
  | ifThen : Stmt.Spelled E Λ s s' → Stmt.Spelled E Λ (.ifThen c s) (.ifThen (c.spell E Λ) s')
  | ifElse : Stmt.Spelled E Λ s s' → Stmt.Spelled E Λ t t' →
      Stmt.Spelled E Λ (.ifElse c s t) (.ifElse (c.spell E Λ) s' t')
  | loop : Stmt.Spelled E Λ s s' → Stmt.Spelled E Λ (.loop c s) (.loop (c.spell E Λ) s')
  | funDecl : E.spell (Λ 0) r.name.lexeme = r.name.lexeme → Routine.Spelled E Λ r r' →
      Stmt.Spelled E Λ (.funDecl r) (.funDecl r')
  | ret : Stmt.Spelled E Λ (.ret word value) (.ret word (value.map (Expr.spell E Λ)))
  | classDecl : E.spell (Λ 0) x.lexeme = x.lexeme →
      Routines.Spelled E (Λ.ofClass sup.isSome) methods methods' →
      Stmt.Spelled E Λ (.classDecl x sup methods)
        (.classDecl x (sup.map (Reference.spell E Λ)) methods')

inductive Program.Spelled (E : Exchange) : Legend → List (Stmt Distance) → List (Stmt Distance) →
    Prop where
  | nil : Program.Spelled E Λ [] []
  | cons : Stmt.Spelled E Λ s s' → Program.Spelled E Λ ss ss' →
      Program.Spelled E Λ (s :: ss) (s' :: ss')

inductive Routine.Spelled (E : Exchange) : Legend → Routine (Stmt Distance) →
    Routine (Stmt Distance) → Prop where
  | mk (hot : Bool) : Program.Spelled E (Λ.enter hot) body body' →
      Routine.Spelled E Λ ⟨name, params, body⟩ ⟨name, params.map (Token.spell E hot), body'⟩

inductive Routines.Spelled (E : Exchange) : Legend → List (Routine (Stmt Distance)) →
    List (Routine (Stmt Distance)) → Prop where
  | nil : Routines.Spelled E Λ [] []
  | cons : Routine.Spelled E Λ r r' → Routines.Spelled E Λ rs rs' →
      Routines.Spelled E Λ (r :: rs) (r' :: rs')
end

theorem Program.Spelled.cons_inv (h : Program.Spelled E Λ (s :: ss) ts) :
    ∃ s' ss', ts = s' :: ss' ∧ Stmt.Spelled E Λ s s' ∧ Program.Spelled E Λ ss ss' := by
  cases h with
  | cons hs hss => exact ⟨_, _, rfl, hs, hss⟩

theorem Routines.Spelled.cons_inv (h : Routines.Spelled E Λ (r :: rs) ts) :
    ∃ r' rs', ts = r' :: rs' ∧ Routine.Spelled E Λ r r' ∧ Routines.Spelled E Λ rs rs' := by
  cases h with
  | cons hr hrs => exact ⟨_, _, rfl, hr, hrs⟩

theorem Routine.Spelled.name (h : Routine.Spelled E Λ r r') : r'.name = r.name := by
  cases h with
  | mk => rfl

section
variable (E : Exchange)

@[simp] theorem Token.spell_lexeme (hot : Bool) (t : Token) :
    (t.spell E hot).lexeme = E.spell hot t.lexeme := rfl

@[simp] theorem Token.spell_false (t : Token) : t.spell E false = t := rfl

theorem Token.spell_eq_self {t : Token} (h : E.spell hot t.lexeme = t.lexeme) :
    t.spell E hot = t := by
  unfold Token.spell
  rw [h]

@[simp] theorem Reference.spell_plain (ref : Reference Distance) : ref.spell E .plain = ref := by
  obtain ⟨name, mark⟩ := ref
  cases mark <;> rfl

@[simp] theorem Reference.map_spell_plain (o : Option (Reference Distance)) :
    o.map (Reference.spell E .plain) = o := by
  cases o with
  | none => rfl
  | some ref => exact congrArg some (ref.spell_plain E)

mutual
theorem Expr.spell_plain (e : Expr Distance) : e.spell E .plain = e := by
  cases e with
  | literal v => rfl
  | grouping e => exact congrArg Expr.grouping (Expr.spell_plain e)
  | unary op e => exact congrArg (Expr.unary op) (Expr.spell_plain e)
  | binary l op r => rw [Expr.spell, Expr.spell_plain l, Expr.spell_plain r]
  | logical l op r => rw [Expr.spell, Expr.spell_plain l, Expr.spell_plain r]
  | var ref => exact congrArg Expr.var (ref.spell_plain E)
  | assign ref e => rw [Expr.spell, ref.spell_plain, Expr.spell_plain e]
  | call f paren args => rw [Expr.spell, Expr.spell_plain f, Expr.spellAll_plain args]
  | get o name => rw [Expr.spell, Expr.spell_plain o]
  | set o name e => rw [Expr.spell, Expr.spell_plain o, Expr.spell_plain e]
  | this ref => exact congrArg Expr.this (ref.spell_plain E)
  | super ref method => exact congrArg (Expr.super · method) (ref.spell_plain E)

theorem Expr.spellAll_plain (es : List (Expr Distance)) : Expr.spellAll E .plain es = es := by
  cases es with
  | nil => rfl
  | cons e es => rw [Expr.spellAll, Expr.spell_plain e, Expr.spellAll_plain es]
end

theorem Expr.map_spell_plain (o : Option (Expr Distance)) : o.map (Expr.spell E .plain) = o := by
  cases o with
  | none => rfl
  | some e => exact congrArg some (Expr.spell_plain E e)

mutual
theorem Stmt.spelled_plain (s : Stmt Distance) : Stmt.Spelled E .plain s s := by
  cases s with
  | expression e =>
    have h : Stmt.Spelled E .plain (.expression e) (.expression (e.spell E .plain)) := .expression
    rwa [Expr.spell_plain] at h
  | print e =>
    have h : Stmt.Spelled E .plain (.print e) (.print (e.spell E .plain)) := .print
    rwa [Expr.spell_plain] at h
  | varDecl x init =>
    have h : Stmt.Spelled E .plain (.varDecl x init) (.varDecl x (init.map (Expr.spell E .plain))) :=
      .varDecl
    rwa [Expr.map_spell_plain] at h
  | block body =>
    refine .block false ?_
    rw [Legend.enter_plain]
    exact Stmt.allSpelled_plain body
  | ifThen c s =>
    have h := Stmt.Spelled.ifThen (c := c) (Stmt.spelled_plain s)
    rwa [Expr.spell_plain] at h
  | ifElse c s t =>
    have h := Stmt.Spelled.ifElse (c := c) (Stmt.spelled_plain s) (Stmt.spelled_plain t)
    rwa [Expr.spell_plain] at h
  | loop c s =>
    have h := Stmt.Spelled.loop (c := c) (Stmt.spelled_plain s)
    rwa [Expr.spell_plain] at h
  | funDecl r => exact .funDecl rfl (Stmt.routineSpelled_plain r)
  | ret word value =>
    have h : Stmt.Spelled E .plain (.ret word value) (.ret word (value.map (Expr.spell E .plain))) :=
      .ret
    rwa [Expr.map_spell_plain] at h
  | classDecl x sup methods =>
    have hm := Stmt.routinesSpelled_plain methods
    rw [← Legend.ofClass_plain sup.isSome] at hm
    have h := Stmt.Spelled.classDecl (x := x) rfl hm
    rwa [Reference.map_spell_plain] at h

theorem Stmt.allSpelled_plain (ss : List (Stmt Distance)) : Program.Spelled E .plain ss ss := by
  cases ss with
  | nil => exact .nil
  | cons s ss => exact .cons (Stmt.spelled_plain s) (Stmt.allSpelled_plain ss)

theorem Stmt.routineSpelled_plain (r : Routine (Stmt Distance)) :
    Routine.Spelled E .plain r r := by
  obtain ⟨name, params, body⟩ := r
  have hbody := Stmt.allSpelled_plain body
  rw [← Legend.enter_plain] at hbody
  have h : Routine.Spelled E .plain ⟨name, params, body⟩
      ⟨name, params.map (Token.spell E false), body⟩ := .mk false hbody
  rwa [List.map_id'' (Token.spell_false E)] at h

theorem Stmt.routinesSpelled_plain (rs : List (Routine (Stmt Distance))) :
    Routines.Spelled E .plain rs rs := by
  cases rs with
  | nil => exact .nil
  | cons r rs => exact .cons (Stmt.routineSpelled_plain r) (Stmt.routinesSpelled_plain rs)
end

end

theorem Reference.spell_alike (E : Exchange) (Λ : Legend) (ref : Reference Distance) :
    ref.Alike Anyhow Eq (ref.spell E Λ) := ⟨trivial, rfl⟩

section
variable {E : Exchange} {Λ : Legend}

mutual
theorem Expr.spell_alike (e : Expr Distance) : e.Alike Anyhow Eq (e.spell E Λ) := by
  cases e with
  | literal v => exact .literal
  | grouping e => exact .grouping (Expr.spell_alike e)
  | unary op e => exact .unary trivial (Expr.spell_alike e)
  | binary l op r => exact .binary (Expr.spell_alike l) trivial (Expr.spell_alike r)
  | logical l op r => exact .logical (Expr.spell_alike l) rfl (Expr.spell_alike r)
  | var ref => exact .var (ref.spell_alike E Λ)
  | assign ref e => exact .assign (ref.spell_alike E Λ) (Expr.spell_alike e)
  | call f paren args => exact .call (Expr.spell_alike f) trivial (Expr.spellAll_alike args)
  | get o name => exact .get (Expr.spell_alike o) trivial
  | set o name e => exact .set (Expr.spell_alike o) trivial (Expr.spell_alike e)
  | this ref => exact .this (ref.spell_alike E Λ)
  | super ref method => exact .super (ref.spell_alike E Λ) trivial

theorem Expr.spellAll_alike (es : List (Expr Distance)) :
    List.Forall₂ (Expr.Alike Anyhow Eq) es (Expr.spellAll E Λ es) := by
  cases es with
  | nil => exact .nil
  | cons e es => exact .cons (Expr.spell_alike e) (Expr.spellAll_alike es)
end

theorem Expr.map_spell_alike (o : Option (Expr Distance)) :
    Option.Rel (Expr.Alike Anyhow Eq) o (o.map (Expr.spell E Λ)) := by
  cases o with
  | none => exact .none
  | some e => exact .some (Expr.spell_alike e)
end

mutual
theorem Stmt.Spelled.alike (s : Stmt Distance) {Λ : Legend} (h : s.Spelled E Λ s') :
    s.Alike Anyhow Eq s' := by
  cases s with
  | expression e =>
    cases h with
    | expression => exact .expression (Expr.spell_alike e)
  | print e =>
    cases h with
    | print => exact .print (Expr.spell_alike e)
  | varDecl x init =>
    cases h with
    | varDecl => exact .varDecl trivial (Expr.map_spell_alike init)
  | block body =>
    cases h with
    | block hot hbody => exact .block (Program.Spelled.alike body hbody)
  | ifThen c s =>
    cases h with
    | ifThen hs => exact .ifThen (Expr.spell_alike c) (Stmt.Spelled.alike s hs)
  | ifElse c s t =>
    cases h with
    | ifElse hs ht =>
      exact .ifElse (Expr.spell_alike c) (Stmt.Spelled.alike s hs) (Stmt.Spelled.alike t ht)
  | loop c s =>
    cases h with
    | loop hs => exact .loop (Expr.spell_alike c) (Stmt.Spelled.alike s hs)
  | funDecl r =>
    cases h with
    | funDecl _ hr => exact .funDecl (Routine.Spelled.alike r hr)
  | ret word value =>
    cases h with
    | ret => exact .ret (Expr.map_spell_alike value)
  | classDecl x sup methods =>
    cases h with
    | classDecl _ hm =>
      apply Stmt.Alike.classDecl trivial _ (Routines.Spelled.alike methods hm)
      cases sup with
      | none => exact .none
      | some ref => exact .some (ref.spell_alike E Λ)
termination_by structural s

theorem Program.Spelled.alike (ss : List (Stmt Distance)) {Λ : Legend}
    (h : Program.Spelled E Λ ss ss') : List.Forall₂ (Stmt.Alike Anyhow Eq) ss ss' := by
  cases ss with
  | nil =>
    cases h with
    | nil => exact .nil
  | cons s ss =>
    cases h with
    | cons hs hss => exact .cons (Stmt.Spelled.alike s hs) (Program.Spelled.alike ss hss)
termination_by structural ss

theorem Routine.Spelled.alike (r : Routine (Stmt Distance)) {Λ : Legend} (h : r.Spelled E Λ r') :
    r.Alike Anyhow (Stmt.Alike Anyhow Eq) r' := by
  obtain ⟨name, params, body⟩ := r
  cases h with
  | mk hot hbody =>
    refine .mk trivial ?_ (Program.Spelled.alike body hbody)
    exact List.forall₂_map_right_iff.2 (List.forall₂_same.2 fun _ _ => trivial)
termination_by structural r

theorem Routines.Spelled.alike (rs : List (Routine (Stmt Distance))) {Λ : Legend}
    (h : Routines.Spelled E Λ rs rs') :
    List.Forall₂ (Routine.Alike Anyhow (Stmt.Alike Anyhow Eq)) rs rs' := by
  cases rs with
  | nil =>
    cases h with
    | nil => exact .nil
  | cons r rs =>
    cases h with
    | cons hr hrs => exact .cons (Routine.Spelled.alike r hr) (Routines.Spelled.alike rs hrs)
termination_by structural rs
end

end LoxLang
