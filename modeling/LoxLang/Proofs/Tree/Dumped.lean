import LoxLang.Proofs.Tree.Printed
import LoxLang.Tree.Dump

namespace LoxLang
set_option autoImplicit true

def Datum.literal? : Datum → Option Literal
  | bool b => some (.bool b)
  | number x => some (.number x)
  | text t => some (.string t)
  | _ => none

theorem Datum.literal?_ofLiteral (v : Option Literal) : (ofLiteral v).literal? = v := by
  rcases v with _ | x | t | b <;> rfl

def Datum.nameOf : Datum → Token
  | text t => .ofName t
  | _ => .ofName []

namespace Expr

inductive Variant where
  | literal | grouping | unary | binary | logical | var | assign | call | get | set | this | super
  deriving DecidableEq

def variants : List (Text × Variant) :=
  [("literal", .literal), ("grouping", .grouping), ("unary", .unary), ("binary", .binary),
    ("logical", .logical), ("variable", .var), ("assign", .assign), ("call", .call), ("get", .get),
    ("set", .set), ("this", .this), ("super", .super)]

def ofOperator (table : List (Text × Token.Kind)) (w : Text) : Token :=
  .synthetic ((table.lookup w).getD .eof) w

def ofNode (variant : Text) (fields : List Datum) (read : List (List (Expr Unit))) : Expr Unit :=
  match variants.lookup variant, fields, read with
  | some .literal, [v], _ => .literal v.literal?
  | some .grouping, _, [[e]] => .grouping e
  | some .unary, [.text op, _], [_, [r]] => .unary (ofOperator Token.signs op) r
  | some .binary, [.text op, _, _], [_, [l], [r]] => .binary l (ofOperator Token.signs op) r
  | some .logical, [.text op, _, _], [_, [l], [r]] => .logical l (ofOperator Token.joints op) r
  | some .var, [x], _ => .var ⟨x.nameOf, ()⟩
  | some .assign, [x, _], [_, [v]] => .assign ⟨x.nameOf, ()⟩ v
  | some .call, _, [[f], args] => .call f (.synthetic .rightParen ")") args
  | some .get, [_, x], [[o], _] => .get o x.nameOf
  | some .set, [_, x, _], [[o], _, [v]] => .set o x.nameOf v
  | some .this, _, _ => .this ⟨.synthetic .this "this", ()⟩
  | some .super, [x], _ => .super ⟨.synthetic .super "super", ()⟩ x.nameOf
  | _, _, _ => .literal none

mutual
/-- Reads the expressions that a datum holds: a record is one, and nothing holds none. -/
def ofDump : Datum → List (Expr Unit)
  | .record ((_, .text variant) :: fields) =>
    [ofNode variant (fields.map Prod.snd) (ofFields fields)]
  | .list items => ofDumps items
  | _ => []

def ofFields : List (Text × Datum) → List (List (Expr Unit))
  | [] => []
  | (_, d) :: fields => ofDump d :: ofFields fields

def ofDumps : List Datum → List (Expr Unit)
  | [] => []
  | d :: ds => ofDump d ++ ofDumps ds
end

theorem ofOperator_eq {t : Token} {table : List (Text × Token.Kind)} (h : t.OneOf table) :
    ofOperator table t.lexeme = t.anywhere := by
  obtain ⟨k, hk, his⟩ := h
  rw [ofOperator, hk, his]
  rfl

mutual
theorem ofDump_dump (e : Expr μ) (h : e.Written) : ofDump e.dump = [e.anywhere] := by
  cases e with
  | literal v =>
    change [Expr.literal (Datum.ofLiteral v).literal?] = _
    rw [Datum.literal?_ofLiteral]
    rfl
  | grouping e =>
    change [ofNode "grouping" [e.dump] [ofDump e.dump]] = _
    rw [ofDump_dump e h]
    rfl
  | unary op r =>
    change [ofNode "unary" [.text op.lexeme, r.dump] [[], ofDump r.dump]] = _
    rw [ofDump_dump r h.2]
    change [unary (ofOperator Token.signs op.lexeme) r.anywhere] = _
    rw [ofOperator_eq h.1]
    rfl
  | binary l op r =>
    change [ofNode "binary" [.text op.lexeme, l.dump, r.dump] [[], ofDump l.dump, ofDump r.dump]] = _
    rw [ofDump_dump l h.2.1, ofDump_dump r h.2.2]
    change [binary l.anywhere (ofOperator Token.signs op.lexeme) r.anywhere] = _
    rw [ofOperator_eq h.1]
    rfl
  | logical l op r =>
    change [ofNode "logical" [.text op.lexeme, l.dump, r.dump] [[], ofDump l.dump, ofDump r.dump]] = _
    rw [ofDump_dump l h.2.1, ofDump_dump r h.2.2]
    change [logical l.anywhere (ofOperator Token.joints op.lexeme) r.anywhere] = _
    rw [ofOperator_eq h.1]
    rfl
  | var ref =>
    change [Expr.var ⟨.ofName ref.name.lexeme, ()⟩] = _
    rw [← Token.IsName.anywhere h]
    rfl
  | assign ref v =>
    change [ofNode "assign" [.text ref.name.lexeme, v.dump] [[], ofDump v.dump]] = _
    rw [ofDump_dump v h.2]
    change [assign ⟨.ofName ref.name.lexeme, ()⟩ v.anywhere] = _
    rw [← h.1.anywhere]
    rfl
  | call f paren args =>
    change [ofNode "call" [f.dump, .list (dumps args)] [ofDump f.dump, ofDumps (dumps args)]] = _
    rw [ofDump_dump f h.2.1, ofDumps_dumps args h.2.2]
    change [call f.anywhere (.synthetic .rightParen ")") _] = _
    rw [← h.1]
    rfl
  | get o name =>
    change [ofNode "get" [o.dump, .text name.lexeme] [ofDump o.dump, []]] = _
    rw [ofDump_dump o h.2]
    change [get o.anywhere (.ofName name.lexeme)] = _
    rw [← h.1.anywhere]
    rfl
  | set o name v =>
    change [ofNode "set" [o.dump, .text name.lexeme, v.dump] [ofDump o.dump, [], ofDump v.dump]] = _
    rw [ofDump_dump o h.2.1, ofDump_dump v h.2.2]
    change [set o.anywhere (.ofName name.lexeme) v.anywhere] = _
    rw [← h.1.anywhere]
    rfl
  | this ref =>
    change [Expr.this ⟨.synthetic .this "this", ()⟩] = _
    rw [← (h : ref.name.Is .this "this")]
    rfl
  | super ref method =>
    change [Expr.super ⟨.synthetic .super "super", ()⟩ (.ofName method.lexeme)] = _
    rw [← h.1, ← h.2.anywhere]
    rfl

theorem ofDumps_dumps (es : List (Expr μ)) (h : WrittenAll es) :
    ofDumps (dumps es) = mapAll (fun _ => ()) Token.anywhere es := by
  cases es with
  | nil => rfl
  | cons e es =>
    change ofDump e.dump ++ ofDumps (dumps es) = _
    rw [ofDump_dump e h.1, ofDumps_dumps es h.2]
    rfl
end

theorem head?_dump? {o : Option (Expr μ)} (h : Written? o) :
    (ofDump (dump? o)).head? = o.map anywhere := by
  cases o with
  | none => rfl
  | some e =>
    change (ofDump e.dump).head? = _
    rw [ofDump_dump e (h e rfl)]
    rfl

end Expr

namespace Stmt

inductive Variant where
  | expression | print | var | block | if_ | while_ | function | return_ | class_
  deriving DecidableEq

def variants : List (Text × Variant) :=
  [("expression", .expression), ("print", .print), ("var", .var), ("block", .block), ("if", .if_),
    ("while", .while_), ("function", .function), ("return", .return_), ("class", .class_)]

def superclassOf : Datum → Option (Reference Unit)
  | .text t => some ⟨.ofName t, ()⟩
  | _ => none

/-- The statement of a variant with these fields, of which those that hold expressions and those
that hold statements have been read. -/
def ofNode (variant : Text) (fields : List Datum) (exprs : List (List (Expr Unit)))
    (read : List (List (Stmt Unit))) : Stmt Unit :=
  match variants.lookup variant, fields, exprs, read with
  | some .expression, _, [[e]], _ => .expression e
  | some .print, _, [[e]], _ => .print e
  | some .var, [x, _], [_, init], _ => .varDecl x.nameOf init.head?
  | some .block, _, _, [body] => .block body
  | some .if_, _, [[c], _, _], [_, [s], []] => .ifThen c s
  | some .if_, _, [[c], _, _], [_, [s], [t]] => .ifElse c s t
  | some .while_, _, [[c], _], [_, [s]] => .loop c s
  | some .function, [x, .list params, _], _, [_, _, body] =>
    .funDecl ⟨x.nameOf, params.map Datum.nameOf, body⟩
  | some .return_, _, [value], _ => .ret (.synthetic .return_ "return") value.head?
  | some .class_, [x, sup, _], _, [_, _, methods] =>
    .classDecl x.nameOf (superclassOf sup) (routines methods)
  | _, _, _, _ => .block []

mutual
/-- Reads the statements that a datum holds: a record is one, and nothing holds none. -/
def ofDump : Datum → List (Stmt Unit)
  | .record ((_, .text variant) :: fields) =>
    [ofNode variant (fields.map Prod.snd) (Expr.ofFields fields) (ofFields fields)]
  | .list items => ofDumps items
  | _ => []

def ofFields : List (Text × Datum) → List (List (Stmt Unit))
  | [] => []
  | (_, d) :: fields => ofDump d :: ofFields fields

def ofDumps : List Datum → List (Stmt Unit)
  | [] => []
  | d :: ds => ofDump d ++ ofDumps ds
end

theorem nameOf_params {ts : List Token} (h : ∀ t ∈ ts, t.IsName) :
    (ts.map fun p => Datum.text p.lexeme).map Datum.nameOf = ts.map Token.anywhere := by
  rw [List.map_map]
  exact List.map_congr_left fun t ht => (h t ht).anywhere.symm

mutual
theorem ofDump_dump (s : Stmt μ) (h : s.Written) : ofDump s.dump = [s.anywhere] := by
  cases s with
  | expression e =>
    change [ofNode "expression" [e.dump] [Expr.ofDump e.dump] [ofDump e.dump]] = _
    rw [Expr.ofDump_dump e h]
    rfl
  | print e =>
    change [ofNode "print" [e.dump] [Expr.ofDump e.dump] [ofDump e.dump]] = _
    rw [Expr.ofDump_dump e h]
    rfl
  | varDecl name init =>
    change [Stmt.varDecl (.ofName name.lexeme) (Expr.ofDump (Expr.dump? init)).head?] = _
    rw [← h.1.anywhere, Expr.head?_dump? h.2]
    rfl
  | block body =>
    change [Stmt.block (ofDumps (dumps body))] = _
    rw [ofDumps_dumps body h]
    rfl
  | ifThen c s =>
    change [ofNode "if" [c.dump, s.dump, .null] [Expr.ofDump c.dump, Expr.ofDump s.dump, []]
      [ofDump c.dump, ofDump s.dump, []]] = _
    rw [Expr.ofDump_dump c h.1, ofDump_dump s h.2]
    rfl
  | ifElse c s t =>
    change [ofNode "if" [c.dump, s.dump, t.dump]
      [Expr.ofDump c.dump, Expr.ofDump s.dump, Expr.ofDump t.dump]
      [ofDump c.dump, ofDump s.dump, ofDump t.dump]] = _
    rw [Expr.ofDump_dump c h.1, ofDump_dump s h.2.1, ofDump_dump t h.2.2]
    rfl
  | loop c s =>
    change [ofNode "while" [c.dump, s.dump] [Expr.ofDump c.dump, Expr.ofDump s.dump]
      [ofDump c.dump, ofDump s.dump]] = _
    rw [Expr.ofDump_dump c h.1, ofDump_dump s h.2]
    rfl
  | funDecl r => exact ofDump_routineDump r h
  | ret word value =>
    change [Stmt.ret (.synthetic .return_ "return") (Expr.ofDump (Expr.dump? value)).head?] = _
    rw [← h.1, Expr.head?_dump? h.2]
    rfl
  | classDecl name sup methods =>
    cases sup with
    | none =>
      have hread : ofDump (classDecl name none methods).dump =
          [.classDecl (.ofName name.lexeme) none (routines (ofDumps (routineDumps methods)))] := rfl
      rw [hread, ofDumps_routineDumps methods h.2.2, routines_funDecl, ← h.1.anywhere]
      rfl
    | some ref =>
      have hread : ofDump (classDecl name (some ref) methods).dump =
          [.classDecl (.ofName name.lexeme) (some ⟨.ofName ref.name.lexeme, ()⟩)
            (routines (ofDumps (routineDumps methods)))] := rfl
      rw [hread, ofDumps_routineDumps methods h.2.2, routines_funDecl, ← h.1.anywhere,
        ← (h.2.1 ref rfl).anywhere]
      rfl

theorem ofDumps_dumps (ss : List (Stmt μ)) (h : WrittenAll ss) :
    ofDumps (dumps ss) = mapAll (fun _ => ()) Token.anywhere ss := by
  cases ss with
  | nil => rfl
  | cons s ss =>
    change ofDump s.dump ++ ofDumps (dumps ss) = _
    rw [ofDump_dump s h.1, ofDumps_dumps ss h.2]
    rfl

theorem ofDump_routineDump (r : Routine (Stmt μ)) (h : WrittenRoutine r) :
    ofDump (routineDump r) = [.funDecl (mapRoutine (fun _ => ()) Token.anywhere r)] := by
  obtain ⟨name, params, body⟩ := r
  change [Stmt.funDecl ⟨.ofName name.lexeme,
    (params.map fun p => Datum.text p.lexeme).map Datum.nameOf, ofDumps (dumps body)⟩] = _
  rw [← h.1.anywhere, nameOf_params h.2.1, ofDumps_dumps body h.2.2]
  rfl

theorem ofDumps_routineDumps (rs : List (Routine (Stmt μ))) (h : WrittenRoutines rs) :
    ofDumps (routineDumps rs) = (mapRoutines (fun _ => ()) Token.anywhere rs).map .funDecl := by
  cases rs with
  | nil => rfl
  | cons r rs =>
    change ofDump (routineDump r) ++ ofDumps (routineDumps rs) = _
    rw [ofDump_routineDump r h.1, ofDumps_routineDumps rs h.2]
    rfl
end

end Stmt

section
variable {μ ν : Type} (f : μ → ν)

mutual
theorem Expr.dump_map (e : Expr μ) : (e.map f Token.anywhere).dump = e.dump := by
  cases e with
  | literal | var | this | super => rfl
  | grouping e => simp only [map, dump, dump_map e]
  | unary op r => simp only [map, dump, Token.lexeme_anywhere, dump_map r]
  | binary l op r | logical l op r =>
    simp only [map, dump, Token.lexeme_anywhere, dump_map l, dump_map r]
  | assign ref v => simp only [map, dump, Reference.map, Token.lexeme_anywhere, dump_map v]
  | call g paren args => simp only [map, dump, dump_map g, dumps_map args]
  | get o name => simp only [map, dump, Token.lexeme_anywhere, dump_map o]
  | set o name v => simp only [map, dump, Token.lexeme_anywhere, dump_map o, dump_map v]

theorem Expr.dumps_map (es : List (Expr μ)) : dumps (mapAll f Token.anywhere es) = dumps es := by
  cases es with
  | nil => rfl
  | cons e es => simp only [mapAll, dumps, dump_map e, dumps_map es]
end

theorem Expr.dump?_map (o : Option (Expr μ)) :
    dump? (o.map (Expr.map f Token.anywhere)) = dump? o := by
  cases o with
  | none => rfl
  | some e => exact Expr.dump_map f e

mutual
theorem Stmt.dump_map (s : Stmt μ) : (s.map f Token.anywhere).dump = s.dump := by
  cases s with
  | expression e | print e => simp only [map, dump, Expr.dump_map f]
  | varDecl name init => simp only [map, dump, Token.lexeme_anywhere, Expr.dump?_map f]
  | block body => simp only [map, dump, dumps_map body]
  | ifThen c s | loop c s => simp only [map, dump, Expr.dump_map f, dump_map s]
  | ifElse c s t => simp only [map, dump, Expr.dump_map f, dump_map s, dump_map t]
  | funDecl r => exact routineDump_map r
  | ret word value => simp only [map, dump, Expr.dump?_map f]
  | classDecl name sup methods =>
    cases sup with
    | none =>
      simp only [map, dump, Token.lexeme_anywhere, Option.map_none, routineDumps_map methods]
    | some ref =>
      simp only [map, dump, Token.lexeme_anywhere, Option.map_some, Reference.map,
        routineDumps_map methods]

theorem Stmt.dumps_map (ss : List (Stmt μ)) : dumps (mapAll f Token.anywhere ss) = dumps ss := by
  cases ss with
  | nil => rfl
  | cons s ss => simp only [mapAll, dumps, dump_map s, dumps_map ss]

theorem Stmt.routineDump_map (r : Routine (Stmt μ)) :
    routineDump (mapRoutine f Token.anywhere r) = routineDump r := by
  obtain ⟨name, params, body⟩ := r
  have hparams : (params.map Token.anywhere).map (fun p => Datum.text p.lexeme) =
      params.map fun p => Datum.text p.lexeme := by
    rw [List.map_map]
    rfl
  simp only [mapRoutine, routineDump, Token.lexeme_anywhere, hparams, dumps_map body]

theorem Stmt.routineDumps_map (rs : List (Routine (Stmt μ))) :
    routineDumps (mapRoutines f Token.anywhere rs) = routineDumps rs := by
  cases rs with
  | nil => rfl
  | cons r rs => simp only [mapRoutines, routineDumps, routineDump_map r, routineDumps_map rs]
end

end

theorem Stmt.programDump_anywhere (ss : List (Stmt μ)) :
    programDump (ss.map anywhere) = programDump ss := by
  have hmap := dumps_map (fun _ => ()) ss
  rw [mapAll_eq] at hmap
  exact congrArg Datum.list hmap

/-- Programs have the same data if and only if they are the same up to the places of their
tokens. -/
theorem Stmt.programDump_inj {p q : List (Stmt μ)} (hp : WrittenAll p) (hq : WrittenAll q) :
    programDump p = programDump q ↔ p.map anywhere = q.map anywhere := by
  constructor
  · intro h
    have hread (ss : List (Stmt μ)) (hs : WrittenAll ss) :
        ofDump (programDump ss) = ss.map anywhere := by
      change ofDumps (dumps ss) = _
      rw [ofDumps_dumps ss hs, mapAll_eq]
      rfl
    rw [← hread p hp, ← hread q hq, h]
  · intro h
    rw [← programDump_anywhere p, ← programDump_anywhere q, h]

end LoxLang
