import LoxLang.Proofs.Tree.Sexp

namespace LoxLang
set_option autoImplicit true

namespace Token

def ofName (w : Text) : Token := synthetic .identifier w

theorem IsName.anywhere (h : IsName t) : t.anywhere = ofName t.lexeme := h.1

theorem OneOf.anywhere (h : OneOf table t) : t.anywhere = synthetic t.kind t.lexeme := by
  obtain ⟨k, -, his⟩ := h
  have hk : t.kind = k := congrArg kind his
  rwa [← hk] at his

theorem OneOf.mem (h : OneOf table t) : (t.lexeme, t.kind) ∈ table := by
  obtain ⟨k, hk, his⟩ := h
  obtain rfl : t.kind = k := congrArg kind his
  obtain ⟨before, after, hsplit, -⟩ := List.lookup_eq_some_iff.1 hk
  rw [hsplit]
  exact List.mem_append_right _ List.mem_cons_self

end Token

theorem Text.IsName.isWord (h : Text.IsName w) : Atom.IsWord w := by
  obtain ⟨b, v, rfl, hb, hv, hk⟩ := h
  have hword : Text.marks.any Text.isWord = false := by decide
  have hreserved : ∀ e ∈ Literal.constants, Token.Kind.ofWord e.1 ≠ .identifier := by decide
  refine ⟨⟨List.cons_ne_nil _ _, ?_⟩, ⟨?_, ?_⟩, ?_⟩
  · rw [List.forall_mem_cons]
    have hfirst : Text.isWord b := by
      unfold Text.isWord
      rw [hb]
      rfl
    exact ⟨fun hm => List.any_eq_false.1 hword b hm hfirst,
      fun c hc hm => List.any_eq_false.1 hword c hm (hv c hc)⟩
  · intro he
    obtain ⟨rfl, -⟩ := List.cons.inj he
    exact absurd hb (by decide)
  · apply Bool.eq_false_iff.2
    intro hdigit
    have hletter := (Scan.isLetter_iff b).1 hb
    have hrange := (Scan.isDigit_iff b).1 hdigit
    omega
  · apply List.lookup_eq_none_iff.2
    intro e he
    apply bne_iff_ne.2
    intro heq
    exact hreserved e he (heq ▸ hk)

namespace Expr

inductive Head where
  | sign (k : Token.Kind)
  | joint (k : Token.Kind)
  | group | call | dot | equals | super
  deriving DecidableEq

def heads : List (Text × Head) :=
  ("group", .group) :: ("call", .call) :: (".", .dot) :: ("=", .equals) :: ("super", .super) ::
    (Token.signs.map (fun e => (e.1, .sign e.2)) ++ Token.joints.map fun e => (e.1, .joint e.2))

theorem heads_sign (h : Token.OneOf Token.signs op) :
    heads.lookup op.lexeme = some (.sign op.kind) := by
  have hall : ∀ e ∈ Token.signs, heads.lookup e.1 = some (.sign e.2) := by decide
  exact hall _ h.mem

theorem heads_joint (h : Token.OneOf Token.joints op) :
    heads.lookup op.lexeme = some (.joint op.kind) := by
  have hall : ∀ e ∈ Token.joints, heads.lookup e.1 = some (.joint e.2) := by decide
  exact hall _ h.mem

theorem sign_isWord (h : Token.OneOf Token.signs op) : Atom.IsWord op.lexeme := by
  have hall : ∀ e ∈ Token.signs, Atom.IsWord e.1 := by decide
  exact hall _ h.mem

theorem joint_isWord (h : Token.OneOf Token.joints op) : Atom.IsWord op.lexeme := by
  have hall : ∀ e ∈ Token.joints, Atom.IsWord e.1 := by decide
  exact hall _ h.mem

mutual
def sexp : Expr μ → Sexp
  | literal v => .atom (.value v)
  | grouping e => .form "group" [e.sexp]
  | unary op r => .form op.lexeme [r.sexp]
  | binary l op r | logical l op r => .form op.lexeme [l.sexp, r.sexp]
  | var ref => .atom (.word ref.name.lexeme)
  | assign ref v => .form "=" [.atom (.word ref.name.lexeme), v.sexp]
  | call f _ args => .form "call" (f.sexp :: sexps args)
  | get o name => .form "." [o.sexp, .atom (.word name.lexeme)]
  | set o name v => .form "=" [.form "." [o.sexp, .atom (.word name.lexeme)], v.sexp]
  | this _ => .atom (.word "this")
  | super _ method => .form "super" [.atom (.word method.lexeme)]

def sexps : List (Expr μ) → List Sexp
  | [] => []
  | e :: es => e.sexp :: sexps es
end

def ofWord (w : Text) : Expr Unit :=
  if w = "this" then .this ⟨.synthetic .this "this", ()⟩ else .var ⟨.ofName w, ()⟩

def ofForm (head : Text) (parts : List (Expr Unit)) : Expr Unit :=
  match heads.lookup head, parts with
  | some (.sign k), [r] => .unary (.synthetic k head) r
  | some (.sign k), [l, r] => .binary l (.synthetic k head) r
  | some (.joint k), [l, r] => .logical l (.synthetic k head) r
  | some .group, [e] => .grouping e
  | some .call, f :: args => .call f (.synthetic .rightParen ")") args
  | some .dot, [o, .var ref] => .get o ref.name
  | some .equals, [.var ref, v] => .assign ref v
  | some .equals, [.get o name, v] => .set o name v
  | some .super, [.var ref] => .super ⟨.synthetic .super "super", ()⟩ ref.name
  | _, _ => .literal none

mutual
def ofSexp : Sexp → Expr Unit
  | .atom (.value v) => .literal v
  | .atom (.word w) => ofWord w
  | .list (.atom (.word head) :: parts) => ofForm head (ofSexps parts)
  | .list _ => .literal none

def ofSexps : List Sexp → List (Expr Unit)
  | [] => []
  | a :: items => ofSexp a :: ofSexps items
end

mutual
theorem text_sexp (e : Expr μ) : e.sexp.text = e.text := by
  cases e with
  | literal | var | this => rfl
  | grouping e => simp only [sexp, text, Sexp.text_form, List.map_cons, List.map_nil, text_sexp e]
  | unary op r => simp only [sexp, text, Sexp.text_form, List.map_cons, List.map_nil, text_sexp r]
  | binary l op r | logical l op r =>
    simp only [sexp, text, Sexp.text_form, List.map_cons, List.map_nil, text_sexp l, text_sexp r]
  | assign ref v =>
    simp only [sexp, text, Sexp.text_form, List.map_cons, List.map_nil, text_sexp v, Sexp.text,
      Atom.text]
  | call f paren args =>
    simp only [sexp, text, Sexp.text_form, List.map_cons, text_sexp f, text_sexps args]
  | get o name =>
    simp only [sexp, text, Sexp.text_form, List.map_cons, List.map_nil, text_sexp o, Sexp.text,
      Atom.text]
  | set o name v =>
    simp only [sexp, text, Sexp.text_form, List.map_cons, List.map_nil, text_sexp o, text_sexp v,
      Sexp.text, Atom.text]
  | super ref method =>
    simp only [sexp, text, Sexp.text_form, List.map_cons, List.map_nil, Sexp.text, Atom.text]

theorem text_sexps (es : List (Expr μ)) : (sexps es).map Sexp.text = texts es := by
  cases es with
  | nil => rfl
  | cons e es => simp only [sexps, texts, List.map_cons, text_sexp e, text_sexps es]
end

mutual
theorem proper_sexp (e : Expr μ) (h : e.Written) : e.sexp.Proper := by
  have hform {head : Text} {parts : List Sexp} (hh : Atom.IsWord head)
      (hp : Sexp.ProperAll parts) : (Sexp.form head parts).Proper := ⟨hh, hp⟩
  cases e with
  | literal v => exact h
  | grouping e => exact hform (by decide) ⟨proper_sexp e h, trivial⟩
  | unary op r => exact hform (sign_isWord h.1) ⟨proper_sexp r h.2, trivial⟩
  | binary l op r =>
    exact hform (sign_isWord h.1) ⟨proper_sexp l h.2.1, proper_sexp r h.2.2, trivial⟩
  | logical l op r =>
    exact hform (joint_isWord h.1) ⟨proper_sexp l h.2.1, proper_sexp r h.2.2, trivial⟩
  | var ref => exact h.2.isWord
  | assign ref v => exact hform (by decide) ⟨h.1.2.isWord, proper_sexp v h.2, trivial⟩
  | call f paren args =>
    exact hform (by decide) ⟨proper_sexp f h.2.1, proper_sexps args h.2.2⟩
  | get o name => exact hform (by decide) ⟨proper_sexp o h.2, h.1.2.isWord, trivial⟩
  | set o name v =>
    exact hform (by decide) ⟨hform (by decide) ⟨proper_sexp o h.2.1, h.1.2.isWord, trivial⟩,
      proper_sexp v h.2.2, trivial⟩
  | this ref => exact (by decide : Atom.IsWord "this")
  | super ref method => exact hform (by decide) ⟨h.2.2.isWord, trivial⟩

theorem proper_sexps (es : List (Expr μ)) (h : WrittenAll es) : Sexp.ProperAll (sexps es) := by
  cases es with
  | nil => trivial
  | cons e es => exact ⟨proper_sexp e h.1, proper_sexps es h.2⟩
end

/-- The expression wherever it stands. -/
def anywhere (e : Expr μ) : Expr Unit := e.map (fun _ => ()) Token.anywhere

theorem ofWord_name (h : Token.IsName t) : ofWord t.lexeme = .var ⟨t.anywhere, ()⟩ := by
  have hne : t.lexeme ≠ "this" := by
    obtain ⟨b, v, hw, -, -, hk⟩ := h.2
    intro he
    rw [he] at hk
    exact absurd hk (by decide)
  rw [ofWord, if_neg hne, h.anywhere]

mutual
theorem ofSexp_sexp (e : Expr μ) (h : e.Written) : ofSexp e.sexp = e.anywhere := by
  cases e with
  | literal v => rfl
  | grouping e =>
    change Expr.grouping (ofSexp e.sexp) = _
    rw [ofSexp_sexp e h]
    rfl
  | unary op r =>
    change ofForm op.lexeme [ofSexp r.sexp] = _
    rw [ofSexp_sexp r h.2]
    unfold ofForm
    rw [heads_sign h.1]
    change unary (.synthetic op.kind op.lexeme) r.anywhere = _
    rw [← h.1.anywhere]
    rfl
  | binary l op r =>
    change ofForm op.lexeme [ofSexp l.sexp, ofSexp r.sexp] = _
    rw [ofSexp_sexp l h.2.1, ofSexp_sexp r h.2.2]
    unfold ofForm
    rw [heads_sign h.1]
    change binary l.anywhere (.synthetic op.kind op.lexeme) r.anywhere = _
    rw [← h.1.anywhere]
    rfl
  | logical l op r =>
    change ofForm op.lexeme [ofSexp l.sexp, ofSexp r.sexp] = _
    rw [ofSexp_sexp l h.2.1, ofSexp_sexp r h.2.2]
    unfold ofForm
    rw [heads_joint h.1]
    change logical l.anywhere (.synthetic op.kind op.lexeme) r.anywhere = _
    rw [← h.1.anywhere]
    rfl
  | var ref => exact ofWord_name h
  | assign ref v =>
    change ofForm "=" [ofWord ref.name.lexeme, ofSexp v.sexp] = _
    rw [ofWord_name h.1, ofSexp_sexp v h.2]
    rfl
  | call f paren args =>
    change Expr.call (ofSexp f.sexp) (.synthetic .rightParen ")") (ofSexps (sexps args)) = _
    rw [ofSexp_sexp f h.2.1, ofSexps_sexps args h.2.2, ← h.1]
    rfl
  | get o name =>
    change ofForm "." [ofSexp o.sexp, ofWord name.lexeme] = _
    rw [ofWord_name h.1, ofSexp_sexp o h.2]
    rfl
  | set o name v =>
    change ofForm "=" [ofForm "." [ofSexp o.sexp, ofWord name.lexeme], ofSexp v.sexp] = _
    rw [ofWord_name h.1, ofSexp_sexp o h.2.1, ofSexp_sexp v h.2.2]
    rfl
  | this ref =>
    change Expr.this ⟨.synthetic .this "this", ()⟩ = _
    rw [← (h : ref.name.Is .this "this")]
    rfl
  | super ref method =>
    change ofForm "super" [ofWord method.lexeme] = _
    rw [ofWord_name h.2]
    change Expr.super ⟨.synthetic .super "super", ()⟩ _ = _
    rw [← h.1]
    rfl

theorem ofSexps_sexps (es : List (Expr μ)) (h : WrittenAll es) :
    ofSexps (sexps es) = mapAll (fun _ => ()) Token.anywhere es := by
  cases es with
  | nil => rfl
  | cons e es =>
    change ofSexp e.sexp :: ofSexps (sexps es) = _
    rw [ofSexp_sexp e h.1, ofSexps_sexps es h.2]
    rfl
end

end Expr

namespace Stmt

/-- What the word in front of a form tells of a statement. -/
inductive Head where
  | expression | print | var | block | if_ | while_ | fun_ | return_ | class_
  deriving DecidableEq

def heads : List (Text × Head) :=
  [(";", .expression), ("print", .print), ("var", .var), ("block", .block), ("if", .if_),
    ("while", .while_), ("fun", .fun_), ("return", .return_), ("class", .class_)]

def parent : Option (Reference μ) → List Sexp
  | none => []
  | some ref => [.atom (.word "<"), .atom (.word ref.name.lexeme)]

mutual
def sexp : Stmt μ → Sexp
  | expression e => .form ";" [e.sexp]
  | print e => .form "print" [e.sexp]
  | varDecl name init => .form "var" (.atom (.word name.lexeme) :: (init.map Expr.sexp).toList)
  | block body => .form "block" (sexps body)
  | ifThen c s => .form "if" [c.sexp, s.sexp]
  | ifElse c s t => .form "if" [c.sexp, s.sexp, t.sexp]
  | loop c s => .form "while" [c.sexp, s.sexp]
  | funDecl f => routineSexp f
  | ret _ v => .form "return" (v.map Expr.sexp).toList
  | classDecl name sup methods =>
    .form "class" (.atom (.word name.lexeme) :: (parent sup ++ routineSexps methods))

def sexps : List (Stmt μ) → List Sexp
  | [] => []
  | s :: ss => s.sexp :: sexps ss

def routineSexp : Routine (Stmt μ) → Sexp
  | ⟨name, params, body⟩ =>
    .form "fun" (.atom (.word name.lexeme) :: .words (params.map Token.lexeme) :: sexps body)

def routineSexps : List (Routine (Stmt μ)) → List Sexp
  | [] => []
  | r :: rs => routineSexp r :: routineSexps rs
end

def nameOf : Sexp → Token
  | .atom (.word w) => .ofName w
  | _ => .ofName []

def namesOf : Sexp → List Token
  | .list items => items.map nameOf
  | .atom _ => []

def routines (ss : List (Stmt Unit)) : List (Routine (Stmt Unit)) :=
  ss.filterMap fun
    | .funDecl r => some r
    | _ => none

def ofForm (head : Text) (parts : List Sexp) (read : List (Stmt Unit)) : Stmt Unit :=
  match heads.lookup head, parts, read with
  | some .expression, [e], _ => .expression (Expr.ofSexp e)
  | some .print, [e], _ => .print (Expr.ofSexp e)
  | some .var, [x], _ => .varDecl (nameOf x) none
  | some .var, [x, e], _ => .varDecl (nameOf x) (some (Expr.ofSexp e))
  | some .block, _, body => .block body
  | some .if_, [c, _], [_, s] => .ifThen (Expr.ofSexp c) s
  | some .if_, [c, _, _], [_, s, t] => .ifElse (Expr.ofSexp c) s t
  | some .while_, [c, _], [_, s] => .loop (Expr.ofSexp c) s
  | some .fun_, x :: ps :: _, _ :: _ :: body => .funDecl ⟨nameOf x, namesOf ps, body⟩
  | some .return_, [], _ => .ret (.synthetic .return_ "return") none
  | some .return_, [e], _ => .ret (.synthetic .return_ "return") (some (Expr.ofSexp e))
  | some .class_, x :: .atom _ :: sup :: _, _ :: _ :: _ :: methods =>
    .classDecl (nameOf x) (some ⟨nameOf sup, ()⟩) (routines methods)
  | some .class_, x :: _, _ :: methods => .classDecl (nameOf x) none (routines methods)
  | _, _, _ => .block []

mutual
def ofSexp : Sexp → Stmt Unit
  | .list (.atom (.word head) :: parts) => ofForm head parts (ofSexps parts)
  | _ => .block []

def ofSexps : List Sexp → List (Stmt Unit)
  | [] => []
  | a :: items => ofSexp a :: ofSexps items
end

mutual
theorem text_sexp (s : Stmt μ) : s.sexp.text = s.text := by
  cases s with
  | expression e | print e =>
    simp only [sexp, text, Sexp.text_form, List.map_cons, List.map_nil, Expr.text_sexp]
  | varDecl name init =>
    cases init with
    | none => simp only [sexp, text, Sexp.text_form, List.map_cons, Option.map_none,
        Option.toList_none, List.map_nil, Sexp.text, Atom.text]
    | some e => simp only [sexp, text, Sexp.text_form, List.map_cons, Option.map_some,
        Option.toList_some, List.map_nil, Sexp.text, Atom.text, Expr.text_sexp]
  | block body => simp only [sexp, text, Sexp.text_form, text_sexps body]
  | ifThen c s | loop c s =>
    simp only [sexp, text, Sexp.text_form, List.map_cons, List.map_nil, Expr.text_sexp, text_sexp s]
  | ifElse c s t =>
    simp only [sexp, text, Sexp.text_form, List.map_cons, List.map_nil, Expr.text_sexp, text_sexp s,
      text_sexp t]
  | funDecl r => exact text_routineSexp r
  | ret word value =>
    cases value with
    | none => simp only [sexp, text, Sexp.text_form, Option.map_none, Option.toList_none,
        List.map_nil]
    | some e => simp only [sexp, text, Sexp.text_form, List.map_cons, Option.map_some,
        Option.toList_some, List.map_nil, Expr.text_sexp]
  | classDecl name sup methods =>
    cases sup with
    | none =>
      simp only [sexp, text, parent, Sexp.text_form, List.map_cons, List.nil_append,
        List.cons_append, text_routineSexps methods, Sexp.text, Atom.text]
    | some ref =>
      simp only [sexp, text, parent, Sexp.text_form, List.map_cons, List.cons_append,
        List.nil_append, text_routineSexps methods, Sexp.text, Atom.text]

theorem text_sexps (ss : List (Stmt μ)) : (sexps ss).map Sexp.text = texts ss := by
  cases ss with
  | nil => rfl
  | cons s ss => simp only [sexps, texts, List.map_cons, text_sexp s, text_sexps ss]

theorem text_routineSexp (r : Routine (Stmt μ)) : (routineSexp r).text = routineText r := by
  obtain ⟨name, params, body⟩ := r
  simp only [routineSexp, routineText, Sexp.text_form, List.map_cons, text_sexps body,
    Sexp.text_words, Sexp.text, Atom.text]

theorem text_routineSexps (rs : List (Routine (Stmt μ))) :
    (routineSexps rs).map Sexp.text = routineTexts rs := by
  cases rs with
  | nil => rfl
  | cons r rs =>
    simp only [routineSexps, routineTexts, List.map_cons, text_routineSexp r, text_routineSexps rs]
end

theorem proper_words {ts : List Token} (h : ∀ t ∈ ts, t.IsName) :
    (Sexp.words (ts.map Token.lexeme)).Proper := by
  induction ts with
  | nil => trivial
  | cons t ts ih =>
    obtain ⟨ht, hts⟩ := List.forall_mem_cons.1 h
    exact ⟨ht.2.isWord, ih hts⟩

theorem proper_expr? {o : Option (Expr μ)} (h : Expr.Written? o) :
    Sexp.ProperAll (o.map Expr.sexp).toList := by
  cases o with
  | none => trivial
  | some e => exact ⟨Expr.proper_sexp e (h e rfl), trivial⟩

mutual
theorem proper_sexp (s : Stmt μ) (h : s.Written) : s.sexp.Proper := by
  have hform {head : Text} {parts : List Sexp} (hh : Atom.IsWord head)
      (hp : Sexp.ProperAll parts) : (Sexp.form head parts).Proper := ⟨hh, hp⟩
  cases s with
  | expression e | print e => exact hform (by decide) ⟨Expr.proper_sexp e h, trivial⟩
  | varDecl name init => exact hform (by decide) ⟨h.1.2.isWord, proper_expr? h.2⟩
  | block body => exact hform (by decide) (proper_sexps body h)
  | ifThen c s | loop c s =>
    exact hform (by decide) ⟨Expr.proper_sexp c h.1, proper_sexp s h.2, trivial⟩
  | ifElse c s t =>
    exact hform (by decide)
      ⟨Expr.proper_sexp c h.1, proper_sexp s h.2.1, proper_sexp t h.2.2, trivial⟩
  | funDecl r => exact proper_routineSexp r h
  | ret word value => exact hform (by decide) (proper_expr? h.2)
  | classDecl name sup methods =>
    have hmethods := proper_routineSexps methods h.2.2
    cases sup with
    | none => exact hform (by decide) ⟨h.1.2.isWord, hmethods⟩
    | some ref =>
      have hless : Atom.IsWord "<" := by decide
      exact hform (by decide) ⟨h.1.2.isWord, hless, (h.2.1 ref rfl).2.isWord, hmethods⟩

theorem proper_sexps (ss : List (Stmt μ)) (h : WrittenAll ss) : Sexp.ProperAll (sexps ss) := by
  cases ss with
  | nil => trivial
  | cons s ss => exact ⟨proper_sexp s h.1, proper_sexps ss h.2⟩

theorem proper_routineSexp (r : Routine (Stmt μ)) (h : WrittenRoutine r) :
    (routineSexp r).Proper := by
  obtain ⟨name, params, body⟩ := r
  have hword : Atom.IsWord "fun" := by decide
  exact ⟨hword, h.1.2.isWord, proper_words h.2.1, proper_sexps body h.2.2⟩

theorem proper_routineSexps (rs : List (Routine (Stmt μ))) (h : WrittenRoutines rs) :
    Sexp.ProperAll (routineSexps rs) := by
  cases rs with
  | nil => trivial
  | cons r rs => exact ⟨proper_routineSexp r h.1, proper_routineSexps rs h.2⟩
end

/-- The statement wherever it stands. -/
def anywhere (s : Stmt μ) : Stmt Unit := s.map (fun _ => ()) Token.anywhere

theorem namesOf_words {ts : List Token} (h : ∀ t ∈ ts, t.IsName) :
    namesOf (.words (ts.map Token.lexeme)) = ts.map Token.anywhere := by
  have hall : (ts.map Token.lexeme).map Token.ofName = ts.map Token.anywhere := by
    rw [List.map_map]
    exact List.map_congr_left fun t ht => (h t ht).anywhere.symm
  rw [← hall, Sexp.words, namesOf, List.map_map]
  rfl

theorem routines_funDecl (rs : List (Routine (Stmt Unit))) :
    routines (rs.map .funDecl) = rs := by
  induction rs with
  | nil => rfl
  | cons r rs ih => exact congrArg (r :: ·) ih

mutual
theorem ofSexp_sexp (s : Stmt μ) (h : s.Written) : ofSexp s.sexp = s.anywhere := by
  cases s with
  | expression e =>
    change Stmt.expression (Expr.ofSexp e.sexp) = _
    rw [Expr.ofSexp_sexp e h]
    rfl
  | print e =>
    change Stmt.print (Expr.ofSexp e.sexp) = _
    rw [Expr.ofSexp_sexp e h]
    rfl
  | varDecl name init =>
    cases init with
    | none =>
      change Stmt.varDecl (.ofName name.lexeme) none = _
      rw [← h.1.anywhere]
      rfl
    | some e =>
      change Stmt.varDecl (.ofName name.lexeme) (some (Expr.ofSexp e.sexp)) = _
      rw [← h.1.anywhere, Expr.ofSexp_sexp e (h.2 e rfl)]
      rfl
  | block body =>
    change Stmt.block (ofSexps (sexps body)) = _
    rw [ofSexps_sexps body h]
    rfl
  | ifThen c s =>
    change Stmt.ifThen (Expr.ofSexp c.sexp) (ofSexp s.sexp) = _
    rw [Expr.ofSexp_sexp c h.1, ofSexp_sexp s h.2]
    rfl
  | ifElse c s t =>
    change Stmt.ifElse (Expr.ofSexp c.sexp) (ofSexp s.sexp) (ofSexp t.sexp) = _
    rw [Expr.ofSexp_sexp c h.1, ofSexp_sexp s h.2.1, ofSexp_sexp t h.2.2]
    rfl
  | loop c s =>
    change Stmt.loop (Expr.ofSexp c.sexp) (ofSexp s.sexp) = _
    rw [Expr.ofSexp_sexp c h.1, ofSexp_sexp s h.2]
    rfl
  | funDecl r => exact ofSexp_routineSexp r h
  | ret word value =>
    cases value with
    | none =>
      change Stmt.ret (.synthetic .return_ "return") none = _
      rw [← h.1]
      rfl
    | some e =>
      change Stmt.ret (.synthetic .return_ "return") (some (Expr.ofSexp e.sexp)) = _
      rw [← h.1, Expr.ofSexp_sexp e (h.2 e rfl)]
      rfl
  | classDecl name sup methods =>
    cases sup with
    | none =>
      have hread : ofSexp (classDecl name none methods).sexp =
          .classDecl (.ofName name.lexeme) none (routines (ofSexps (routineSexps methods))) := by
        -- A method is a list, so the first one is not taken for the sign before a superclass.
        cases methods with
        | nil => rfl
        | cons r rs =>
          obtain ⟨x, params, body⟩ := r
          rfl
      rw [hread, ofSexps_routineSexps methods h.2.2, routines_funDecl, ← h.1.anywhere]
      rfl
    | some ref =>
      have hread : ofSexp (classDecl name (some ref) methods).sexp =
          .classDecl (.ofName name.lexeme) (some ⟨.ofName ref.name.lexeme, ()⟩)
            (routines (ofSexps (routineSexps methods))) := rfl
      rw [hread, ofSexps_routineSexps methods h.2.2, routines_funDecl, ← h.1.anywhere,
        ← (h.2.1 ref rfl).anywhere]
      rfl

theorem ofSexps_sexps (ss : List (Stmt μ)) (h : WrittenAll ss) :
    ofSexps (sexps ss) = mapAll (fun _ => ()) Token.anywhere ss := by
  cases ss with
  | nil => rfl
  | cons s ss =>
    change ofSexp s.sexp :: ofSexps (sexps ss) = _
    rw [ofSexp_sexp s h.1, ofSexps_sexps ss h.2]
    rfl

theorem ofSexp_routineSexp (r : Routine (Stmt μ)) (h : WrittenRoutine r) :
    ofSexp (routineSexp r) = .funDecl (mapRoutine (fun _ => ()) Token.anywhere r) := by
  obtain ⟨name, params, body⟩ := r
  change Stmt.funDecl ⟨.ofName name.lexeme, namesOf (.words (params.map Token.lexeme)),
    ofSexps (sexps body)⟩ = _
  rw [← h.1.anywhere, namesOf_words h.2.1, ofSexps_sexps body h.2.2]
  rfl

theorem ofSexps_routineSexps (rs : List (Routine (Stmt μ))) (h : WrittenRoutines rs) :
    ofSexps (routineSexps rs) = (mapRoutines (fun _ => ()) Token.anywhere rs).map .funDecl := by
  cases rs with
  | nil => rfl
  | cons r rs =>
    change ofSexp (routineSexp r) :: ofSexps (routineSexps rs) = _
    rw [ofSexp_routineSexp r h.1, ofSexps_routineSexps rs h.2]
    rfl
end

end Stmt

theorem Token.lexeme_anywhere (t : Token) : t.anywhere.lexeme = t.lexeme := rfl

section
variable {μ ν : Type} (f : μ → ν)

mutual
theorem Expr.text_map (e : Expr μ) : (e.map f Token.anywhere).text = e.text := by
  cases e with
  | literal | var | this => rfl
  | grouping e => simp only [map, text, text_map e]
  | unary op r => simp only [map, text, Token.lexeme_anywhere, text_map r]
  | binary l op r | logical l op r =>
    simp only [map, text, Token.lexeme_anywhere, text_map l, text_map r]
  | assign ref v => simp only [map, text, Reference.map, Token.lexeme_anywhere, text_map v]
  | call g paren args => simp only [map, text, text_map g, texts_map args]
  | get o name => simp only [map, text, Token.lexeme_anywhere, text_map o]
  | set o name v => simp only [map, text, Token.lexeme_anywhere, text_map o, text_map v]
  | super ref method => simp only [map, text, Token.lexeme_anywhere]

theorem Expr.texts_map (es : List (Expr μ)) : texts (mapAll f Token.anywhere es) = texts es := by
  cases es with
  | nil => rfl
  | cons e es => simp only [mapAll, texts, text_map e, texts_map es]
end

mutual
theorem Stmt.text_map (s : Stmt μ) : (s.map f Token.anywhere).text = s.text := by
  cases s with
  | expression e | print e => simp only [map, text, Expr.text_map f]
  | varDecl name init =>
    cases init with
    | none => simp only [map, text, Token.lexeme_anywhere, Option.map_none]
    | some e => simp only [map, text, Token.lexeme_anywhere, Option.map_some, Expr.text_map f]
  | block body => simp only [map, text, texts_map body]
  | ifThen c s | loop c s => simp only [map, text, Expr.text_map f, text_map s]
  | ifElse c s t => simp only [map, text, Expr.text_map f, text_map s, text_map t]
  | funDecl r => exact routineText_map r
  | ret word value =>
    cases value with
    | none => rfl
    | some e => simp only [map, text, Option.map_some, Expr.text_map f]
  | classDecl name sup methods =>
    cases sup with
    | none =>
      simp only [map, text, Token.lexeme_anywhere, Option.map_none, routineTexts_map methods]
    | some ref =>
      simp only [map, text, Token.lexeme_anywhere, Option.map_some, Reference.map,
        routineTexts_map methods]

theorem Stmt.texts_map (ss : List (Stmt μ)) : texts (mapAll f Token.anywhere ss) = texts ss := by
  cases ss with
  | nil => rfl
  | cons s ss => simp only [mapAll, texts, text_map s, texts_map ss]

theorem Stmt.routineText_map (r : Routine (Stmt μ)) :
    routineText (mapRoutine f Token.anywhere r) = routineText r := by
  obtain ⟨name, params, body⟩ := r
  have hparams : (params.map Token.anywhere).map Token.lexeme = params.map Token.lexeme := by
    rw [List.map_map]
    rfl
  simp only [mapRoutine, routineText, Token.lexeme_anywhere, hparams, texts_map body]

theorem Stmt.routineTexts_map (rs : List (Routine (Stmt μ))) :
    routineTexts (mapRoutines f Token.anywhere rs) = routineTexts rs := by
  cases rs with
  | nil => rfl
  | cons r rs => simp only [mapRoutines, routineTexts, routineText_map r, routineTexts_map rs]
end

end

theorem Stmt.programText_eq (ss : List (Stmt μ)) :
    programText ss = (sexps ss).flatMap fun a => a.text ++ [Text.newline] := by
  induction ss with
  | nil => rfl
  | cons s ss ih =>
    rw [sexps, List.flatMap_cons, ← ih, text_sexp]
    rfl

theorem Stmt.programText_anywhere (ss : List (Stmt μ)) :
    programText (ss.map anywhere) = programText ss := by
  rw [programText, List.flatMap_map]
  exact congrArg List.flatten (List.map_congr_left fun s _ =>
    congrArg (· ++ [Text.newline]) (text_map _ s))

theorem Stmt.programText_inj {p q : List (Stmt μ)} (hp : WrittenAll p) (hq : WrittenAll q) :
    programText p = programText q ↔ p.map anywhere = q.map anywhere := by
  constructor
  · intro h
    rw [programText_eq, programText_eq] at h
    have hread := congrArg ofSexps
      (Sexp.lines_unique _ _ (proper_sexps p hp) (proper_sexps q hq) h)
    rw [ofSexps_sexps p hp, ofSexps_sexps q hq, mapAll_eq, mapAll_eq] at hread
    exact hread
  · intro h
    rw [← programText_anywhere p, ← programText_anywhere q, h]

end LoxLang
